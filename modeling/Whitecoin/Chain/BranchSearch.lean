import Whitecoin.Chain.ForkDatabase

/-!
# The search for the fork point

`fetch_branch_from` walks down from two blocks: first on the side of the larger number, until the
numbers are the same, and then on both sides until the two blocks have the same previous block. It
throws when a pointer is null.

If the pointers lead to previous blocks and can be followed from both blocks to a common one, the
walk returns, and what it returns are the shortest branches down to a common previous block. They
have no block in common unless one of the two blocks is above the other.
-/

namespace Whitecoin.Chain

namespace ForkDatabase

variable {B Id : Type} [DecidableEq Id]

/-- Two branches from the blocks `a` and `b` down to a common previous block. -/
structure Split (P : BlockIds B Id) (a b : Id) (l m : List (ForkItem B)) : Prop where
  left_top : ∃ x rest, l = x :: rest ∧ P.id x.data = a
  right_top : ∃ y rest, m = y :: rest ∧ P.id y.data = b
  left_linked : Linked P l
  right_linked : Linked P m
  base : ∃ u v, l.getLast? = some u ∧ m.getLast? = some v ∧ P.previous u.data = P.previous v.data

/-- Such branches, and the shortest. -/
structure ForkPoint (P : BlockIds B Id) (a b : Id) (l m : List (ForkItem B)) : Prop where
  split : Split P a b l m
  shortest : ∀ l' m', Split P a b l' m' → l.length ≤ l'.length ∧ m.length ≤ m'.length

/-- The block `a` is that of `x`, or is reached from there by following pointers. -/
def IsAncestor (P : BlockIds B Id) (f : ForkDatabase B) (held : List (ForkItem B)) (a : Id)
    (x : ForkItem B) : Prop :=
  ∃ n u, f.ancestor held n x = some u ∧ P.id u.data = a

/-- The last loop: two items are passed as long as the previous blocks differ. -/
inductive Meets (P : BlockIds B Id) :
    ForkItem B → ForkItem B → List (ForkItem B) → List (ForkItem B) → Prop
  | stop {x y : ForkItem B} (h : P.previous x.data = P.previous y.data) : Meets P x y [x] [y]
  | step {x y x' y' : ForkItem B} {l m : List (ForkItem B)}
      (hne : P.previous x.data ≠ P.previous y.data) (hx : P.id x'.data = P.previous x.data)
      (hy : P.id y'.data = P.previous y.data) (h : Meets P x' y' l m) :
      Meets P x y (x :: l) (y :: m)

/-- The other loops: `l` leads down from `x` to `x'`. -/
inductive LeadsTo (P : BlockIds B Id) : ForkItem B → List (ForkItem B) → ForkItem B → Prop
  | refl (x : ForkItem B) : LeadsTo P x [] x
  | step {x y z : ForkItem B} {l : List (ForkItem B)} (hx : P.id y.data = P.previous x.data)
      (h : LeadsTo P y l z) : LeadsTo P x (x :: l) z

variable {P : BlockIds B Id} {f : ForkDatabase B} {held : List (ForkItem B)}
  {a b : Id} {x y z x' y' : ForkItem B} {l m : List (ForkItem B)}

section Branches

omit [DecidableEq Id]

/-! ### Branches of blocks -/

theorem num_of_previous (h : P.id y.data = P.previous x.data) : x.num P = y.num P + 1 := by
  rw [ForkItem.num, ForkItem.num, P.num_id, h]

theorem Linked.length_eq {u : ForkItem B} (h : Linked P (x :: l))
    (hu : (x :: l).getLast? = some u) :
    P.numFromId (P.previous u.data) + (l.length + 1) = x.num P := by
  induction l generalizing x with
  | nil =>
    obtain rfl : x = u := by simpa using hu
    exact (P.num_id x.data).symm
  | cons y l ih =>
    obtain ⟨hid, h⟩ := List.isChain_cons_cons.mp h
    have hlen := ih h (by rwa [List.getLast?_cons_cons] at hu)
    rw [num_of_previous hid, ← hlen]
    rfl

namespace Split

theorem symm (h : Split P a b l m) : Split P b a m l where
  left_top := h.right_top
  right_top := h.left_top
  left_linked := h.right_linked
  right_linked := h.left_linked
  base := by
    obtain ⟨u, v, hu, hv, hbase⟩ := h.base
    exact ⟨v, u, hv, hu, hbase.symm⟩

theorem length_eq (h : Split P a b l m) :
    P.numFromId a + m.length = P.numFromId b + l.length := by
  obtain ⟨x, l, rfl, rfl⟩ := h.left_top
  obtain ⟨y, m, rfl, rfl⟩ := h.right_top
  obtain ⟨u, v, hu, hv, hbase⟩ := h.base
  have hl := h.left_linked.length_eq hu
  have hm := h.right_linked.length_eq hv
  rw [hbase] at hl
  rw [ForkItem.num] at hl hm
  rw [List.length_cons, List.length_cons]
  omega

theorem cons_left (h : Split P (P.previous x.data) b l m) : Split P (P.id x.data) b (x :: l) m := by
  obtain ⟨x', rest, rfl, hid⟩ := h.left_top
  refine ⟨⟨x, _, rfl, rfl⟩, h.right_top, List.isChain_cons_cons.mpr ⟨hid, h.left_linked⟩,
    h.right_linked, ?_⟩
  rw [List.getLast?_cons_cons]
  exact h.base

theorem cons_right (h : Split P a (P.previous y.data) l m) :
    Split P a (P.id y.data) l (y :: m) :=
  h.symm.cons_left.symm

theorem tail_left (h : Split P (P.id x.data) b l m) (hlen : 1 < l.length) :
    ∃ l', Split P (P.previous x.data) b l' m ∧ l.length = l'.length + 1 := by
  obtain ⟨u, rest, rfl, hid⟩ := h.left_top
  cases rest with
  | nil => exact absurd hlen (Nat.lt_irrefl 1)
  | cons v rest =>
    obtain ⟨hv, hlinked⟩ := List.isChain_cons_cons.mp h.left_linked
    have hbase := h.base
    rw [List.getLast?_cons_cons] at hbase
    rw [← P.id_injective hid]
    exact ⟨v :: rest, ⟨⟨v, rest, rfl, hv⟩, h.right_top, hlinked, h.right_linked, hbase⟩, rfl⟩

theorem length_pos (h : Split P a b l m) : 0 < l.length := by
  obtain ⟨u, rest, rfl, -⟩ := h.left_top
  exact Nat.succ_pos _

theorem previous_eq (h : Split P (P.id x.data) (P.id y.data) l m) (hl : l.length = 1)
    (hm : m.length = 1) : P.previous x.data = P.previous y.data := by
  obtain ⟨u, rest, rfl, hu⟩ := h.left_top
  obtain ⟨v, rest', rfl, hv⟩ := h.right_top
  obtain rfl : rest = [] := List.length_eq_zero_iff.mp (Nat.succ.inj hl)
  obtain rfl : rest' = [] := List.length_eq_zero_iff.mp (Nat.succ.inj hm)
  obtain ⟨u', v', hu', hv', hbase⟩ := h.base
  obtain rfl : u = u' := by simpa using hu'
  obtain rfl : v = v' := by simpa using hv'
  rwa [← P.id_injective hu, ← P.id_injective hv]

end Split

/-! ### The last loop -/

namespace Meets

theorem split (h : Meets P x y l m) : Split P (P.id x.data) (P.id y.data) l m := by
  induction h with
  | @stop x y h =>
    exact ⟨⟨x, [], rfl, rfl⟩, ⟨y, [], rfl, rfl⟩, List.isChain_singleton _, List.isChain_singleton _,
      x, y, rfl, rfl, h⟩
  | step hne hx hy h ih =>
    rw [hx, hy] at ih
    exact ih.cons_left.cons_right

theorem length_le (h : Meets P x y l m) (hnum : x.num P = y.num P) {l' m' : List (ForkItem B)}
    (h' : Split P (P.id x.data) (P.id y.data) l' m') : l.length ≤ l'.length := by
  induction h generalizing l' m' with
  | stop h => exact h'.length_pos
  | @step x y x' y' l m hne hx hy h ih =>
    have hlen : l'.length = m'.length := by
      have := h'.length_eq
      rw [ForkItem.num, ForkItem.num] at hnum
      omega
    have hpos := h'.length_pos
    by_cases hone : l'.length = 1
    · exact absurd (h'.previous_eq hone (by omega)) hne
    · obtain ⟨l₁, h₁, hl₁⟩ := h'.tail_left (by omega)
      obtain ⟨m₁, h₂, -⟩ := h₁.symm.tail_left (by omega)
      have hnum' : x'.num P = y'.num P := by
        have := num_of_previous hx
        have := num_of_previous hy
        omega
      have := ih hnum' (by rw [hx, hy]; exact h₂.symm)
      rw [List.length_cons]
      omega

theorem num_le_left (h : Meets P x y l m) : ∀ u ∈ l, u.num P ≤ x.num P := by
  induction h with
  | stop h => simp
  | step hne hx hy h ih =>
    intro u hu
    rcases List.mem_cons.mp hu with rfl | hu
    · exact Nat.le_refl _
    · have := ih u hu
      have := num_of_previous hx
      omega

theorem symm (h : Meets P x y l m) : Meets P y x m l := by
  induction h with
  | stop h => exact .stop h.symm
  | step hne hx hy h ih => exact .step hne.symm hy hx ih

theorem disjoint (h : Meets P x y l m) (hnum : x.num P = y.num P)
    (hne : P.id x.data ≠ P.id y.data) : ∀ u ∈ l, ∀ v ∈ m, P.id u.data ≠ P.id v.data := by
  induction h with
  | stop h => simpa using hne
  | @step x y x' y' l m hprev hx hy h ih =>
    have hx' := num_of_previous hx
    have hy' := num_of_previous hy
    have ih := ih (by omega) (by rwa [hx, hy])
    intro u hu v hv heq
    have hnumuv : u.num P = v.num P := congrArg P.numFromId heq
    rcases List.mem_cons.mp hu with rfl | hu <;> rcases List.mem_cons.mp hv with rfl | hv
    · exact hne heq
    · have := h.symm.num_le_left v hv
      omega
    · have := h.num_le_left u hu
      omega
    · exact ih u hu v hv heq

end Meets

/-! ### The loops before it -/

namespace LeadsTo

theorem num_le (h : LeadsTo P x l z) : z.num P ≤ x.num P := by
  induction h with
  | refl x => exact Nat.le_refl _
  | step hx h ih =>
    have := num_of_previous hx
    omega

theorem above (h : LeadsTo P x l z) : ∀ u ∈ l, z.num P < u.num P := by
  induction h with
  | refl x => simp
  | step hx h ih =>
    intro u hu
    rcases List.mem_cons.mp hu with rfl | hu
    · have := num_of_previous hx
      have := h.num_le
      omega
    · exact ih u hu

variable {p q : List (ForkItem B)}

theorem split (h : LeadsTo P x l z) (hp : Split P (P.id z.data) b p m) :
    Split P (P.id x.data) b (l ++ p) m := by
  induction h with
  | refl x => exact hp
  | step hx h ih =>
    have := ih hp
    rw [hx] at this
    exact this.cons_left

/-- Branches from a block above lead through `z` if it is not below the other block. -/
theorem of_split (h : LeadsTo P x l z) (hnum : P.numFromId b ≤ z.num P)
    (hp : Split P (P.id x.data) b p m) :
    ∃ q, Split P (P.id z.data) b q m ∧ p.length = l.length + q.length := by
  induction h generalizing p with
  | refl x => exact ⟨p, hp, by simp⟩
  | @step x y z l hx h ih =>
    have hlen := hp.length_eq
    have hpos := hp.symm.length_pos
    have hxy := num_of_previous hx
    have hle := h.num_le
    rw [← ForkItem.num] at hlen
    obtain ⟨q, hq, hq'⟩ := hp.tail_left (by omega)
    obtain ⟨r, hr, hr'⟩ := ih hnum (by rwa [hx])
    exact ⟨r, hr, by rw [List.length_cons]; omega⟩

/-- Walking down on the side of the larger number first gives the shortest branches. -/
theorem forkPoint (hx : LeadsTo P x l z) (hnum : z.num P = y.num P) (h : Meets P z y p q) :
    ForkPoint P (P.id x.data) (P.id y.data) (l ++ p) q := by
  have hs := hx.split h.split
  refine ⟨hs, fun p' q' h' => ?_⟩
  obtain ⟨r, hr, hlen⟩ := hx.of_split (Nat.le_of_eq hnum.symm) h'
  have hle := h.length_le hnum hr
  have heq := hs.length_eq
  have heq' := h'.length_eq
  rw [List.length_append] at heq ⊢
  exact ⟨by omega, by omega⟩

theorem disjoint (hx : LeadsTo P x l z) (hnum : z.num P = y.num P) (h : Meets P z y p q)
    (hne : P.id z.data ≠ P.id y.data) : ∀ u ∈ l ++ p, ∀ v ∈ q, P.id u.data ≠ P.id v.data := by
  intro u hu v hv heq
  rcases List.mem_append.mp hu with hu | hu
  · -- the numbers of these blocks are above those of the other branch
    have hlt := hx.above u hu
    have hle := h.symm.num_le_left v hv
    have hnumuv : u.num P = v.num P := congrArg P.numFromId heq
    omega
  · exact h.disjoint hnum hne u hu v hv heq

end LeadsTo

theorem ForkPoint.symm (h : ForkPoint P a b l m) : ForkPoint P b a m l :=
  ⟨h.split.symm, fun l' m' h' => (h.shortest m' l' h'.symm).symm⟩

/-! ### The search returns -/

variable {n bound : ℕ}

theorem ancestor_num (hl : LinksOk P (held ++ f.index ++ f.itemsRead))
    (hx : x ∈ held ++ f.index ++ f.itemsRead) (h : f.ancestor held n x = some z) :
    z.num P + n = x.num P := by
  induction n generalizing x with
  | zero =>
    obtain rfl : x = z := by simpa [ancestor] using h
    rfl
  | succ n ih =>
    obtain ⟨x', hx', h⟩ := Option.bind_eq_some_iff.mp h
    obtain ⟨hmem, -, hnum⟩ := lock_spec hl hx hx'
    have := ih hmem h
    omega

theorem descend_of_le (h : x.num P ≤ bound) : f.descend P held bound n x = some ([], x) := by
  cases n <;> rw [descend, if_neg (Nat.not_lt.mpr h)]

/-- The pointers down to `z` can be followed, so the walk to a number above it returns. -/
theorem exists_descend (hl : LinksOk P (held ++ f.index ++ f.itemsRead)) {i : ℕ}
    (hx : x ∈ held ++ f.index ++ f.itemsRead) (hi : f.ancestor held i x = some z)
    (hz : z.num P ≤ bound) (hle : bound ≤ x.num P) (hn : x.num P ≤ bound + n) :
    ∃ l x', f.descend P held bound n x = some (l, x') ∧ LeadsTo P x l x' ∧ x'.num P = bound ∧
      x' ∈ held ++ f.index ++ f.itemsRead ∧ (∃ k, f.ancestor held k x = some x') ∧
      ∃ k, f.ancestor held k x' = some z := by
  induction i generalizing x n with
  | zero =>
    obtain rfl : x = z := by simpa [ancestor] using hi
    exact ⟨[], x, descend_of_le hz, .refl x, Nat.le_antisymm hz hle, hx, ⟨0, rfl⟩, 0, rfl⟩
  | succ i ih =>
    rcases Nat.eq_or_lt_of_le hle with heq | hlt
    · exact ⟨[], x, descend_of_le (Nat.le_of_eq heq.symm), .refl x, heq.symm, hx, ⟨0, rfl⟩, _, hi⟩
    obtain ⟨y, hy, hi⟩ := Option.bind_eq_some_iff.mp hi
    obtain ⟨hmem, hid, hnum⟩ := lock_spec hl hx hy
    cases n with
    | zero => omega
    | succ n =>
      obtain ⟨l, x', hd, hleads, hx', hmem', ⟨k, hk⟩, hz'⟩ :=
        ih (n := n) hmem hi (by omega) (by omega)
      refine ⟨x :: l, x', ?_, .step hid hleads, hx', hmem', ⟨k + 1, ?_⟩, hz'⟩
      · rw [descend, if_pos hlt, hy, Option.bind_some, hd]
        rfl
      · rw [ancestor, hy, Option.bind_some, hk]

end Branches

theorem exists_meet (hl : LinksOk P (held ++ f.index ++ f.itemsRead)) {k n : ℕ}
    (hx : x ∈ held ++ f.index ++ f.itemsRead) (hy : y ∈ held ++ f.index ++ f.itemsRead)
    (hkx : f.ancestor held k x = some z) (hky : f.ancestor held k y = some z) (hn : k ≤ n) :
    ∃ l m, f.meet P held n x y = some (l, m) ∧ Meets P x y l m := by
  induction k generalizing x y n with
  | zero =>
    obtain rfl : x = z := by simpa [ancestor] using hkx
    obtain rfl : y = x := by simpa [ancestor] using hky
    refine ⟨[y], [y], ?_, .stop rfl⟩
    cases n <;> rw [meet, if_pos rfl]
  | succ k ih =>
    obtain ⟨x', hx', hkx⟩ := Option.bind_eq_some_iff.mp hkx
    obtain ⟨y', hy', hky⟩ := Option.bind_eq_some_iff.mp hky
    obtain ⟨hmx, hidx, -⟩ := lock_spec hl hx hx'
    obtain ⟨hmy, hidy, -⟩ := lock_spec hl hy hy'
    cases n with
    | zero => omega
    | succ n =>
      by_cases hprev : P.previous x.data = P.previous y.data
      · exact ⟨[x], [y], by rw [meet, if_pos hprev], .stop hprev⟩
      · obtain ⟨l, m, hm, hmeets⟩ := ih (n := n) hmx hmy hkx hky (by omega)
        refine ⟨x :: l, y :: m, ?_, .step hprev hidx hidy hmeets⟩
        rw [meet, if_neg hprev, hx', hy', Option.bind_some, Option.bind_some, hm]
        rfl

/-- **The branch search finds the fork point.** If the pointers lead to previous blocks and can be
followed from both blocks to a common one, `fetch_branch_from` returns the shortest branches down
to a common previous block; they are disjoint unless one block is above the other. -/
theorem fetch_branch_from_shortest (f : ForkDatabase B) (held : List (ForkItem B))
    (hl : LinksOk P (held ++ f.index ++ f.itemsRead)) (a b : Id) {i j : ℕ}
    (hx : f.fetchBlock P a = some x) (hy : f.fetchBlock P b = some y)
    (hi : f.ancestor held i x = some z) (hj : f.ancestor held j y = some z) :
    ∃ first second, f.fetchBranchFrom P held a b = some (first, second) ∧
      ForkPoint P a b first second ∧
      (¬ IsAncestor P f held a y → ¬ IsAncestor P f held b x →
        ∀ u ∈ first, ∀ v ∈ second, P.id u.data ≠ P.id v.data) := by
  obtain ⟨hxi, rfl⟩ := fetchBlock_mem hx
  obtain ⟨hyi, rfl⟩ := fetchBlock_mem hy
  have hxm : x ∈ held ++ f.index ++ f.itemsRead := by simp [hxi]
  have hym : y ∈ held ++ f.index ++ f.itemsRead := by simp [hyi]
  have hxz := ancestor_num hl hxm hi
  have hyz := ancestor_num hl hym hj
  simp only [fetchBranchFrom, hx, hy, Option.bind_some]
  rcases Nat.le_total (y.num P) (x.num P) with hle | hle
  · obtain ⟨l, x', hd, hleads, hnum, hmem, ⟨n, hn⟩, k, hk⟩ :=
      exists_descend (n := x.num P) hl hxm hi (by omega) hle (by omega)
    have hkz := ancestor_num hl hmem hk
    obtain rfl : k = j := by omega
    obtain ⟨p, q, hm, hmeets⟩ := exists_meet (n := x'.num P) hl hmem hym hk hj (by omega)
    refine ⟨l ++ p, q, ?_, hleads.forkPoint hnum hmeets, ?_⟩
    · simp only [hd, Option.bind_some, descend_of_le (Nat.le_of_eq hnum.symm), hm]
      rfl
    · intro _ hnot
      exact hleads.disjoint hnum hmeets fun hid => hnot ⟨n, x', hn, hid⟩
  · obtain ⟨l, y', hd, hleads, hnum, hmem, ⟨n, hn⟩, k, hk⟩ :=
      exists_descend (n := y.num P) hl hym hj (by omega) hle (by omega)
    have hkz := ancestor_num hl hmem hk
    obtain rfl : k = i := by omega
    obtain ⟨p, q, hm, hmeets⟩ := exists_meet (n := x.num P) hl hxm hmem hi hk (by omega)
    refine ⟨p, l ++ q, ?_, (hleads.forkPoint hnum hmeets.symm).symm, ?_⟩
    · simp only [hd, Option.bind_some, descend_of_le hle, hm]
      rfl
    · intro hnot _ u hu v hv heq
      exact hleads.disjoint hnum hmeets.symm (fun hid => hnot ⟨n, y', hn, hid⟩) v hv u hu heq.symm

/-- A block with two blocks after it, and one more after the second of these. -/
def forked : ForkDatabase (ℕ × List ℕ) where
  index := [⟨3, some 2, false, 4, [3, 1]⟩, ⟨2, some 0, false, 3, [1]⟩, ⟨1, some 0, false, 2, [1]⟩,
    ⟨0, none, false, 1, []⟩]
  head := none
  itemsRead := []
  nextPtr := 4

theorem fetch_branch_from_shortest_forked : ∃ first second,
    forked.fetchBranchFrom pathIds [] [4, 3, 1] [2, 1] = some (first, second) ∧
      ForkPoint pathIds [4, 3, 1] [2, 1] first second := by
  obtain ⟨first, second, h, hfork, -⟩ :=
    fetch_branch_from_shortest (P := pathIds) (i := 2) (j := 1) (z := ⟨0, none, false, 1, []⟩)
      forked [] (by unfold LinksOk; decide) [4, 3, 1] [2, 1] rfl rfl rfl rfl
  exact ⟨first, second, h, hfork⟩

end ForkDatabase

end Whitecoin.Chain
