import Mathlib.Algebra.Ring.Parity
import Whitecoin.Lib.Check
import Whitecoin.Lib.PairTree

/-!
# The merkle root of a block

`calculate_merkle_root` hashes the digests of the transactions in pairs, level by level. It does so
in place: the hashes of a level overwrite the front of the array that holds the level, and an odd
digest at the end is moved up to them.

A hash is written only after the two digests were read that it is of, and never where one is that is
still to be read. So a level is what `pairUp` makes of it, and the root is that of a tree over the
digests.
-/

namespace Whitecoin.Chain

open Check

/-- The hash functions: of pairs of digests, and of a digest as a checksum. They are assumed to be
free of collisions, and no checksum is the empty one. -/
structure MerkleHash (D C : Type) where
  pair : D → D → D
  root : D → C
  null : C
  pair_injective : Function.Injective2 pair
  root_injective : Function.Injective root
  root_ne_null : ∀ d, root d ≠ null

variable {T D C : Type} (H : MerkleHash D C)

/-! ### The function -/

/-- The inner loop, with its two positions. The first argument counts the pairs that are left. -/
def hashPairs : ℕ → List D → ℕ → ℕ → Except String (List D × ℕ)
  | 0, ids, _, k => .ok (ids, k)
  | n + 1, ids, i, k => do
    let a ← found ids[i]? "out of range"
    let b ← found ids[i + 1]? "out of range"
    require (k < ids.length) "out of range"
    hashPairs n (ids.set k (H.pair a b)) (i + 2) (k + 1)

/-- One level, with the number of hashes on it. -/
def hashLevel (ids : List D) (current : ℕ) : Except String (List D × ℕ) := do
  let iMax := current - current % 2
  let (ids, k) ← hashPairs H (iMax / 2) ids 0 0
  if current % 2 = 1 then
    let a ← found ids[iMax]? "out of range"
    require (k < ids.length) "out of range"
    return (ids.set k a, k + 1)
  else return (ids, k)

/-- The outer loop. The number of hashes falls with every level and bounds the iterations. -/
def hashLevels : ℕ → List D → ℕ → Except String (List D)
  | 0, ids, _ => .ok ids
  | n + 1, ids, current =>
    if 1 < current then do
      let (ids, k) ← hashLevel H ids current
      hashLevels n ids k
    else .ok ids

/-- `signed_block::calculate_merkle_root`. Its first loop counts with 32 bits and does not come to
the end of a longer list. -/
def calculateMerkleRoot (merkleDigest : T → D) (transactions : List T) : Except String C :=
  if transactions.length = 0 then .ok H.null else do
    require (transactions.length < 2 ^ 32) "the loop does not end"
    let ids := transactions.map merkleDigest
    let ids ← hashLevels H ids.length ids ids.length
    return H.root (← found ids[0]? "out of range")

/-! ### The loops -/

section

variable {H} {ids : List D} {k : ℕ}

/-- The array after the hashes of the first `k` pairs were written to it. -/
def hashed (H : MerkleHash D C) (ids : List D) (k : ℕ) : List D :=
  pairUp H.pair (ids.take (2 * k)) ++ ids.drop k

theorem length_pairUp_take (h : 2 * k ≤ ids.length) :
    (pairUp H.pair (ids.take (2 * k))).length = k := by
  rw [length_pairUp, List.length_take]
  omega

@[simp]
theorem length_hashed (h : 2 * k ≤ ids.length) : (hashed H ids k).length = ids.length := by
  rw [hashed, List.length_append, length_pairUp_take h, List.length_drop]
  omega

theorem getElem?_hashed (h : 2 * k ≤ ids.length) {j : ℕ} (hj : k ≤ j) :
    (hashed H ids k)[j]? = ids[j]? := by
  have hlength := length_pairUp_take (H := H) h
  rw [hashed, List.getElem?_append_right (hlength.symm ▸ hj), hlength, List.getElem?_drop,
    Nat.add_sub_cancel' hj]

theorem set_hashed (h : 2 * k < ids.length) (a : D) :
    (hashed H ids k).set k a = pairUp H.pair (ids.take (2 * k)) ++ a :: ids.drop (k + 1) := by
  have hlength := length_pairUp_take (H := H) (Nat.le_of_lt h)
  rw [hashed, List.set_append_right _ _ (Nat.le_of_eq hlength), hlength, Nat.sub_self,
    List.drop_eq_getElem_cons (show k < ids.length by omega)]
  rfl

theorem set_hashed_pair (h : 2 * k + 1 < ids.length) :
    (hashed H ids k).set k (H.pair ids[2 * k] ids[2 * k + 1]) = hashed H ids (k + 1) := by
  have htake : ids.take (2 * (k + 1)) = ids.take (2 * k) ++ [ids[2 * k], ids[2 * k + 1]] := by
    rw [Nat.mul_succ, List.take_succ_eq_append_getElem h,
      List.take_succ_eq_append_getElem (Nat.lt_of_succ_lt h), List.append_assoc]
    rfl
  rw [set_hashed (Nat.lt_of_succ_lt h), hashed, htake,
    pairUp_append H.pair (k := k) (by rw [List.length_take]; omega), List.append_assoc]
  rfl

theorem hashPairs_spec {n : ℕ} (h : 2 * (k + n) ≤ ids.length) :
    hashPairs H n (hashed H ids k) (2 * k) k = .ok (hashed H ids (k + n), k + n) := by
  induction n generalizing k with
  | zero => rfl
  | succ n ih =>
    have hk : 2 * k ≤ ids.length := by omega
    have hi : 2 * k < ids.length := by omega
    have hi' : 2 * k + 1 < ids.length := by omega
    have hbound : k < (hashed H ids k).length := by
      rw [length_hashed hk]
      omega
    rw [hashPairs, getElem?_hashed hk (by omega), getElem?_hashed hk (by omega),
      List.getElem?_eq_getElem hi, List.getElem?_eq_getElem hi', found, ok_bind, found, ok_bind,
      (require_eq_ok (u := ())).mpr hbound, ok_bind, set_hashed_pair hi']
    have hnext := ih (k := k + 1) (by omega)
    rwa [show k + 1 + n = k + (n + 1) by omega] at hnext

/-- **One level in place.** -/
theorem hashLevel_spec {current : ℕ} (h : current ≤ ids.length) :
    ∃ ids', hashLevel H ids current = .ok (ids', (current + 1) / 2) ∧
      ids'.length = ids.length ∧
      ids'.take ((current + 1) / 2) = pairUp H.pair (ids.take current) := by
  have hpairs : ∀ n, 2 * n ≤ ids.length → hashPairs H n ids 0 0 = .ok (hashed H ids n, n) := by
    intro n hn
    have hloop : hashPairs H n (hashed H ids 0) (2 * 0) 0 = .ok (hashed H ids (0 + n), 0 + n) :=
      hashPairs_spec (by omega)
    rwa [Nat.zero_add] at hloop
  obtain ⟨m, rfl | rfl⟩ := Nat.even_or_odd' current
  · -- all digests are in pairs
    refine ⟨hashed H ids m, ?_, length_hashed h, ?_⟩
    · simp only [hashLevel, show 2 * m % 2 = 0 by omega, show (2 * m - 0) / 2 = m by omega,
        hpairs m h, ok_bind, zero_ne_one, if_false]
      rw [show (2 * m + 1) / 2 = m by omega]
      rfl
    · rw [show (2 * m + 1) / 2 = m by omega, hashed,
        List.take_left' (length_pairUp_take h)]
  · -- the last digest is moved up to the hashes
    have hm : 2 * m ≤ ids.length := by omega
    have hlast : 2 * m < ids.length := by omega
    refine ⟨(hashed H ids m).set m ids[2 * m], ?_, ?_, ?_⟩
    · have hbound : m < (hashed H ids m).length := by
        rw [length_hashed hm]
        omega
      simp only [hashLevel, show (2 * m + 1) % 2 = 1 by omega, show 2 * m + 1 - 1 = 2 * m by omega,
        show 2 * m / 2 = m by omega, hpairs m hm, ok_bind, if_true,
        getElem?_hashed hm (show m ≤ 2 * m by omega), List.getElem?_eq_getElem hlast, found,
        (require_eq_ok (u := ())).mpr hbound]
      rw [show (2 * m + 1 + 1) / 2 = m + 1 by omega]
      rfl
    · rw [List.length_set, length_hashed hm]
    · rw [show (2 * m + 1 + 1) / 2 = m + 1 by omega, set_hashed hlast,
        List.take_succ_eq_append_getElem hlast,
        pairUp_append H.pair (k := m) (by rw [List.length_take]; omega), pairUp,
        List.append_cons, List.take_left' (by simp [length_pairUp_take hm])]

/-- **The outer loop ends with the value of a tree over the digests.** -/
theorem hashLevels_spec {n : ℕ} {ts : List (PairTree D)} (hn : ts.length ≤ n)
    (hne : 0 < ts.length) (hlength : ts.length ≤ ids.length)
    (hids : ids.take ts.length = ts.map (PairTree.eval H.pair)) :
    ∃ ids' t, hashLevels H n ids ts.length = .ok ids' ∧
      ids'[0]? = some (PairTree.eval H.pair t) ∧ t.leaves = ts.flatMap PairTree.leaves := by
  induction n generalizing ids ts with
  | zero => omega
  | succ n ih =>
    by_cases hone : 1 < ts.length
    · obtain ⟨ids', hlevel, hlength', htake⟩ := hashLevel_spec (H := H) hlength
      have hhalf : (pairUp .node ts).length = (ts.length + 1) / 2 := length_pairUp _ _
      have hvalues : (pairUp PairTree.node ts).map (PairTree.eval H.pair) =
          pairUp H.pair (ts.map (PairTree.eval H.pair)) := map_pairUp (fun _ _ => rfl) ts
      rw [hids, ← hvalues, ← hhalf] at htake
      obtain ⟨ids'', t, hrun, hroot, hleaves⟩ :=
        ih (by omega) (by omega) (by omega) htake
      refine ⟨ids'', t, ?_, hroot, hleaves.trans (flatMap_leaves_pairUp ts)⟩
      rw [hashLevels, if_pos hone, hlevel, ok_bind, ← hhalf]
      exact hrun
    · obtain ⟨t, rfl⟩ := List.length_eq_one_iff.mp (show ts.length = 1 by omega)
      refine ⟨ids, t, if_neg hone, ?_, (List.flatMap_singleton _ _).symm⟩
      rw [← List.getElem?_take_of_lt Nat.one_pos]
      exact congrArg (·[0]?) hids

end

/-! ### The root -/

section

variable {H} (merkleDigest : T → D) {transactions : List T}

theorem exists_tree (hne : transactions.length ≠ 0) (hlength : transactions.length < 2 ^ 32) :
    ∃ t : PairTree D, t.leaves = transactions.map merkleDigest ∧
      calculateMerkleRoot H merkleDigest transactions = .ok (H.root (t.eval H.pair)) := by
  have hids : (transactions.map merkleDigest).take
      (transactions.map fun tx => PairTree.leaf (merkleDigest tx)).length =
        (transactions.map fun tx => PairTree.leaf (merkleDigest tx)).map
          (PairTree.eval H.pair) := by
    rw [List.length_map, List.take_of_length_le (by simp), List.map_map]
    rfl
  obtain ⟨ids, t, hrun, hroot, hleaves⟩ := hashLevels_spec (n := transactions.length) (by simp)
    (by rw [List.length_map]; omega) (by simp) hids
  refine ⟨t, ?_, ?_⟩
  · rw [hleaves, List.flatMap_map]
    exact List.map_eq_flatMap.symm
  · rw [List.length_map] at hrun
    rw [calculateMerkleRoot, if_neg hne, (require_eq_ok (u := ())).mpr hlength, ok_bind]
    simp only [List.length_map, hrun, ok_bind, hroot, found]
    rfl

/-- A root was computed, so it is the empty checksum or that of a tree over the digests. -/
theorem calculateMerkleRoot_eq_ok {c : C}
    (h : calculateMerkleRoot H merkleDigest transactions = .ok c) :
    (transactions = [] ∧ c = H.null) ∨
      ∃ t : PairTree D, t.leaves = transactions.map merkleDigest ∧ c = H.root (t.eval H.pair) := by
  by_cases hne : transactions.length = 0
  · rw [calculateMerkleRoot, if_pos hne, Except.ok.injEq] at h
    exact .inl ⟨List.eq_nil_of_length_eq_zero hne, h.symm⟩
  · have hlength : transactions.length < 2 ^ 32 := by
      rw [calculateMerkleRoot, if_neg hne] at h
      obtain ⟨_, hrequire, _⟩ := bind_eq_ok.mp h
      exact require_eq_ok.mp hrequire
    obtain ⟨t, hleaves, hroot⟩ := exists_tree (H := H) merkleDigest hne hlength
    rw [hroot, Except.ok.injEq] at h
    exact .inr ⟨t, hleaves, h.symm⟩

/-- **The merkle root commits to the transactions**: a root is computed for every list, and two
lists with the same root have the same digests, of whatever lengths they are. -/
theorem merkle_root_commits (hdigest : ∀ tx a b, H.pair a b ≠ merkleDigest tx) :
    (∀ transactions : List T, transactions.length < 2 ^ 32 →
      ∃ c, calculateMerkleRoot H merkleDigest transactions = .ok c) ∧
    ∀ (transactions transactions' : List T) (c : C),
      calculateMerkleRoot H merkleDigest transactions = .ok c →
      calculateMerkleRoot H merkleDigest transactions' = .ok c →
      transactions.map merkleDigest = transactions'.map merkleDigest := by
  have hnode : ∀ {transactions : List T} {t : PairTree D},
      t.leaves = transactions.map merkleDigest → ∀ d ∈ t.leaves, ∀ a b, H.pair a b ≠ d := by
    intro transactions t ht d hd
    rw [ht] at hd
    obtain ⟨tx, -, rfl⟩ := List.mem_map.mp hd
    exact hdigest tx
  refine ⟨fun transactions hlength => ?_, fun transactions transactions' c h h' => ?_⟩
  · by_cases hne : transactions.length = 0
    · exact ⟨_, if_pos hne⟩
    · obtain ⟨t, -, hroot⟩ := exists_tree (H := H) merkleDigest hne hlength
      exact ⟨_, hroot⟩
  · -- the empty checksum is no root of a tree, and equal roots are of equal trees
    obtain ⟨rfl, rfl⟩ | ⟨t, hleaves, rfl⟩ := calculateMerkleRoot_eq_ok merkleDigest h <;>
      obtain ⟨rfl, hc⟩ | ⟨t', hleaves', hc⟩ := calculateMerkleRoot_eq_ok merkleDigest h'
    · rfl
    · exact absurd hc.symm (H.root_ne_null _)
    · exact absurd hc (H.root_ne_null _)
    · have htree : t = t' :=
        PairTree.eval_injective H.pair_injective (hnode hleaves) (hnode hleaves')
          (H.root_injective hc)
      rw [← hleaves, ← hleaves', htree]

/-- Hashes without collisions: the trees themselves. -/
def treeHash : MerkleHash (PairTree ℕ) (Option (PairTree ℕ)) where
  pair := .node
  root := some
  null := none
  pair_injective := fun _ _ _ _ h => PairTree.node.inj h
  root_injective := Option.some_injective _
  root_ne_null := Option.some_ne_none

/-- The last transaction twice is another list, and has another root. -/
theorem merkle_root_commits_twice :
    calculateMerkleRoot treeHash PairTree.leaf [1, 2, 3] ≠
      calculateMerkleRoot treeHash PairTree.leaf [1, 2, 3, 3] := by
  have hdigest : ∀ (tx : ℕ) a b, treeHash.pair a b ≠ PairTree.leaf tx := by
    intro tx a b h
    cases h
  intro h
  obtain ⟨c, hc⟩ := (merkle_root_commits _ hdigest).1 [1, 2, 3] (by decide)
  have hsame := (merkle_root_commits _ hdigest).2 [1, 2, 3] [1, 2, 3, 3] c hc (h ▸ hc)
  exact absurd hsame (by decide)

end

end Whitecoin.Chain
