import Mathlib.Algebra.Order.Ring.Int
import Mathlib.Data.List.Induction
import Whitecoin.Lib.Check
import Whitecoin.Lib.OrdMap

/-!
# Authorities

`verify_authority` checks the signatures of a transaction: for every authority that its operations
require, the weights of the entries that are signed reach the threshold, and no key signed in vain.
`sign_state` keeps a flag for every key that signed, which says whether the signature was used, and
a table of the addresses of these keys, which it builds when it is first needed.

The flags are set while entries are looked at. An entry with an address of several keys counts if
enough of them signed, but those that did are marked as used also if they are not enough. So a key
can pass as used that contributed to no signed entry. The thresholds are not affected.
-/

namespace Whitecoin.Accounts

open Check OrdMap

/-! ### The code -/

/-- The hashes of addresses: `address(pts_address(k, compressed, version))` and `address(k)` for a
key, and the hash in an address, which is all that the order of addresses compares. -/
structure AddressHash (K A H : Type) where
  pts : K → Bool → ℕ → H
  key : K → H
  addr : A → H

/-- The five addresses of a key. -/
def AddressHash.forms {K A H : Type} (hash : AddressHash K A H) (k : K) : List H :=
  [hash.pts k false 56, hash.pts k true 56, hash.pts k false 0, hash.pts k true 0, hash.key k]

/-- What the table of multisig addresses says of an address. -/
structure Multisig (K : Type) where
  required : ℤ
  keys : List K
  nodup : keys.Nodup

structure Authority (K A : Type) where
  weightThreshold : ℕ
  keyAuths : List (K × ℕ)
  addressAuths : List (A × ℕ)
  accountAuths : List (ℕ × ℕ)

/-- An operation: its kind, and the authorities that it requires. -/
structure Operation (K A : Type) where
  which : ℕ
  authorities : List (Authority K A)

/-- The functions that the check is given. -/
structure AuthorityEnv (K A H : Type) where
  hash : AddressHash K A H
  getAddresses : A → Multisig K
  isBlockedAddress : A → Bool
  isWhiteOps : A → ℕ → Bool

structure SignState (K H : Type) where
  providedSignatures : List (K × Bool)
  providedAddressSigs : Option (List (H × K))
  approvedBy : List ℕ

/-- The entries of an authority. -/
inductive Entry (K A : Type) where
  | key (k : K)
  | address (a : A)
  | account (id : ℕ)

/-- The entries in the order in which they are looked at. -/
def Authority.entries {K A : Type} (auth : Authority K A) : List (Entry K A × ℕ) :=
  auth.keyAuths.map (fun e => (.key e.1, e.2)) ++
    (auth.addressAuths.map (fun e => (.address e.1, e.2)) ++
      auth.accountAuths.map (fun e => (.account e.1, e.2)))

variable {K A H : Type} [LinearOrder K] [LinearOrder H] (env : AuthorityEnv K A H)

/-- The table of the addresses of the keys. -/
def addressSigs (keys : List K) : List (H × K) :=
  keys.foldl (fun m k => (env.hash.forms k).foldl (fun m h => set m h k) m) []

/-- The loop over the keys of a multisig address: those that signed are marked and counted. -/
def markSigned (sigs : List (H × K)) : List K → List (K × Bool) → ℤ → List (K × Bool) × ℤ
  | [], provided, n => (provided, n)
  | k :: keys, provided, n =>
    if (env.hash.forms k).any (fun h => (get? sigs h).isSome) then
      markSigned sigs keys (set provided k true) (n + 1)
    else markSigned sigs keys provided n

/-- `sign_state::signed_by` for a key. No other keys are available. -/
def signedByKey (k : K) (s : SignState K H) : Bool × SignState K H :=
  match get? s.providedSignatures k with
  | some _ => (true, { s with providedSignatures := set s.providedSignatures k true })
  | none => (false, s)

/-- `sign_state::signed_by` for an address. -/
def signedByAddress (a : A) (s : SignState K H) : Bool × SignState K H :=
  let sigs := s.providedAddressSigs.getD (addressSigs env (s.providedSignatures.map (·.1)))
  let s := { s with providedAddressSigs := some sigs }
  match get? sigs (env.hash.addr a) with
  | some k => (true, { s with providedSignatures := set s.providedSignatures k true })
  | none =>
    if (env.getAddresses a).required = 0 then (false, s)
    else
      let (provided, n) := markSigned env sigs (env.getAddresses a).keys s.providedSignatures 0
      ((env.getAddresses a).required ≤ n, { s with providedSignatures := provided })

/-- Whether an entry is signed. The authorities of accounts are not known here, so an account counts
only if it is approved. -/
def signedBy : Entry K A → SignState K H → Bool × SignState K H
  | .key k, s => signedByKey k s
  | .address a, s => signedByAddress env a s
  | .account id, s => (id ∈ s.approvedBy, s)

/-- The loops over the entries of an authority, with the weight so far. -/
def checkEntries (weightThreshold : ℕ) :
    List (Entry K A × ℕ) → SignState K H → ℕ → Bool × SignState K H
  | [], s, total => (weightThreshold ≤ total, s)
  | (e, weight) :: entries, s, total =>
    let (signed, s) := signedBy env e s
    if signed then
      let total := (total + weight) % 2 ^ 32
      if weightThreshold ≤ total then (true, s) else checkEntries weightThreshold entries s total
    else checkEntries weightThreshold entries s total

/-- `sign_state::check_authority`. -/
def checkAuthority (auth : Authority K A) (s : SignState K H) : Bool × SignState K H :=
  checkEntries env auth.weightThreshold auth.entries s 0

/-- The check of one authority of an operation. -/
def verifyOne (which : ℕ) (s : SignState K H) (auth : Authority K A) :
    Except String (SignState K H) := do
  let (signed, s) := checkAuthority env auth s
  require signed "Missing Authority"
  auth.addressAuths.forM fun e =>
    require (env.isWhiteOps e.1 which ∨ ¬ env.isBlockedAddress e.1) "address has been blocked"
  return s

/-- The account that is always approved. -/
def tempAccount : ℕ := 4

/-- The state at the start. -/
def signState (sigs : List K) : SignState K H where
  providedSignatures := sigs.foldl (fun provided k => set provided k false) []
  providedAddressSigs := none
  approvedBy := [tempAccount]

/-- `verify_authority`, for addresses. -/
def verifyAuthority (ops : List (Operation K A)) (sigs : List K) : Except String Unit := do
  let s ← ops.foldlM (fun s op => op.authorities.foldlM (verifyOne env op.which) s)
    (signState sigs)
  require (ops.flatMap Operation.authorities).isEmpty.not "other.size() != 0"
  require (s.providedSignatures.all (·.2)) "Unnecessary signature(s) detected"

/-! ### Signed entries -/

/-- Enough keys of a multisig address signed. -/
def Multisigned (sigs : List K) (a : A) : Prop :=
  (env.getAddresses a).required ≠ 0 ∧
    (env.getAddresses a).required ≤ (((env.getAddresses a).keys.filter (· ∈ sigs)).length : ℤ)

/-- An entry is signed: the key signed, or one with the address, or enough of the keys that the
address stands for; or it is the account that is always approved. -/
def Signed (sigs : List K) : Entry K A → Prop
  | .key k => k ∈ sigs
  | .address a => (∃ k ∈ sigs, env.hash.addr a ∈ env.hash.forms k) ∨ Multisigned env sigs a
  | .account id => id = tempAccount

instance (sigs : List K) : DecidablePred (Signed env sigs)
  | .key k => inferInstanceAs (Decidable (k ∈ sigs))
  | .address _ => inferInstanceAs (Decidable (_ ∨ (_ ∧ _)))
  | .account id => inferInstanceAs (Decidable (id = tempAccount))

/-- A key contributes to an entry that is signed. -/
def Contributes (sigs : List K) (k : K) : Entry K A → Prop
  | .key k' => k' = k
  | .address a => env.hash.addr a ∈ env.hash.forms k ∨
      (Multisigned env sigs a ∧ k ∈ (env.getAddresses a).keys)
  | .account _ => False

instance (sigs : List K) (k : K) : DecidablePred (Contributes env sigs k)
  | .key k' => inferInstanceAs (Decidable (k' = k))
  | .address _ => inferInstanceAs (Decidable (_ ∨ ((_ ∧ _) ∧ _)))
  | .account _ => inferInstanceAs (Decidable False)

/-- A key is one of those that an entry stands for, and too few of them signed. -/
def PartlySigned (sigs : List K) (k : K) : Entry K A → Prop
  | .key _ => False
  | .address a => ¬ Signed env sigs (.address a) ∧ (env.getAddresses a).required ≠ 0 ∧
      k ∈ (env.getAddresses a).keys
  | .account _ => False

/-- The weight of the signed entries of an authority. -/
def signedWeight (sigs : List K) (entries : List (Entry K A × ℕ)) : ℕ :=
  ((entries.filter (fun e => Signed env sigs e.1)).map (·.2)).sum

/-! ### The state -/

section

variable {env} {sigs : List K} {used : K → Prop} {s s' : SignState K H}

/-- No two keys have an address in common. -/
def CollisionFree (hash : AddressHash K A H) : Prop :=
  ∀ k k' h, h ∈ hash.forms k → h ∈ hash.forms k' → k = k'

/-- The invariant: there is a flag for every key that signed, the table of addresses is that of
these keys, and a key that is marked was used. -/
structure SignInv (env : AuthorityEnv K A H) (sigs : List K) (used : K → Prop)
    (s : SignState K H) : Prop where
  keys : ∀ k, (get? s.providedSignatures k).isSome ↔ k ∈ sigs
  addresses : ∀ m, s.providedAddressSigs = some m →
    ∀ h k, get? m h = some k ↔ k ∈ sigs ∧ h ∈ env.hash.forms k
  marked : ∀ k, get? s.providedSignatures k = some true → used k
  approved : s.approvedBy = [tempAccount]

theorem get?_foldl_set {κ α : Type} [LinearOrder κ] (hs : List κ) (a : α) (m : List (κ × α))
    (h : κ) : get? (hs.foldl (fun m h => set m h a) m) h = if h ∈ hs then some a else get? m h := by
  induction hs generalizing m with
  | nil => rfl
  | cons j hs ih =>
    rw [List.foldl_cons, ih, get?_set]
    by_cases hmem : h ∈ hs <;> by_cases hj : h = j <;> simp [hmem, hj]

theorem mem_map_fst {κ α : Type} [DecidableEq κ] {m : List (κ × α)} {k : κ} :
    k ∈ m.map (·.1) ↔ (get? m k).isSome := by
  constructor
  · intro h
    obtain ⟨e, he, rfl⟩ := List.mem_map.mp h
    by_contra hnone
    rw [Option.not_isSome_iff_eq_none, get?_eq_none_iff] at hnone
    exact hnone e he rfl
  · intro h
    obtain ⟨a, ha⟩ := Option.isSome_iff_exists.mp h
    exact List.mem_map.mpr ⟨_, mem_of_get? ha, rfl⟩

omit [LinearOrder K] in
theorem get?_addressSigs (hfree : CollisionFree env.hash) (keys : List K) (h : H) (k : K) :
    get? (addressSigs env keys) h = some k ↔ k ∈ keys ∧ h ∈ env.hash.forms k := by
  induction keys using List.reverseRecOn with
  | nil => simp [addressSigs]
  | append_singleton keys j ih =>
    rw [addressSigs, List.foldl_append, List.foldl_cons, List.foldl_nil, get?_foldl_set]
    split_ifs with hj
    · rw [Option.some.injEq]
      constructor
      · rintro rfl
        exact ⟨List.mem_append_right _ (List.mem_singleton_self j), hj⟩
      · rintro ⟨-, hk⟩
        exact hfree j k h hj hk
    · rw [← addressSigs, ih, List.mem_append, List.mem_singleton]
      refine and_congr_left fun hk => ⟨.inl, fun hmem => hmem.resolve_right ?_⟩
      rintro rfl
      exact hj hk

theorem SignInv.start (env : AuthorityEnv K A H) (sigs : List K) (used : K → Prop) :
    SignInv env sigs used (signState sigs) := by
  have hget : ∀ k, get? (signState (H := H) sigs).providedSignatures k =
      if k ∈ sigs then some false else none := fun k => get?_foldl_set sigs false [] k
  refine ⟨fun k => ?_, fun m hm => absurd hm.symm (Option.some_ne_none m), fun k hk => ?_, rfl⟩
  · rw [hget]
    split_ifs with hmem <;> simp [hmem]
  · rw [hget] at hk
    split_ifs at hk
    cases Option.some.inj hk

theorem SignInv.mark (h : SignInv env sigs used s) {k : K} (hk : k ∈ sigs) (hused : used k) :
    SignInv env sigs used { s with providedSignatures := set s.providedSignatures k true } := by
  refine ⟨fun j => ?_, h.addresses, fun j hj => ?_, h.approved⟩
  · show (get? (set s.providedSignatures k true) j).isSome ↔ j ∈ sigs
    rw [get?_set, ← h.keys]
    split_ifs with hjk
    · rw [hjk, h.keys]
      exact iff_of_true rfl hk
    · rfl
  · replace hj : get? (set s.providedSignatures k true) j = some true := hj
    rw [get?_set] at hj
    split_ifs at hj with hjk
    · exact hjk ▸ hused
    · exact h.marked j hj

theorem markSigned_spec (hfree : CollisionFree env.hash) {m : List (H × K)}
    (hm : ∀ h k, get? m h = some k ↔ k ∈ sigs ∧ h ∈ env.hash.forms k) {keys : List K}
    (hused : ∀ k ∈ keys, k ∈ sigs → used k) (hs : SignInv env sigs used s) (n : ℤ) :
    SignInv env sigs used
        { s with providedSignatures := (markSigned env m keys s.providedSignatures n).1 } ∧
      (markSigned env m keys s.providedSignatures n).2 =
        n + ((keys.filter (· ∈ sigs)).length : ℤ) := by
  induction keys generalizing s n with
  | nil => exact ⟨hs, (Int.add_zero n).symm⟩
  | cons k keys ih =>
    have hsigned : (env.hash.forms k).any (fun h => (get? m h).isSome) = true ↔ k ∈ sigs := by
      rw [List.any_eq_true]
      constructor
      · rintro ⟨h, hh, hsome⟩
        obtain ⟨j, hj⟩ := Option.isSome_iff_exists.mp hsome
        obtain ⟨hj, hform⟩ := (hm h j).mp hj
        exact hfree k j h hh hform ▸ hj
      · intro hk
        refine ⟨env.hash.key k, by simp [AddressHash.forms], ?_⟩
        rw [(hm (env.hash.key k) k).mpr ⟨hk, by simp [AddressHash.forms]⟩]
        rfl
    have hrest := fun j hj => hused j (List.mem_cons_of_mem k hj)
    by_cases hk : k ∈ sigs
    · rw [markSigned, if_pos (hsigned.mpr hk), List.filter_cons_of_pos (by simpa using hk)]
      have hmark := hs.mark hk (hused k List.mem_cons_self hk)
      obtain ⟨hinv, hcount⟩ := ih hrest hmark (n + 1)
      refine ⟨hinv, hcount.trans ?_⟩
      rw [List.length_cons]
      omega
    · rw [markSigned, if_neg (mt hsigned.mp hk), List.filter_cons_of_neg (by simpa using hk)]
      exact ih hrest hs n

theorem SignInv.table (hfree : CollisionFree env.hash) (hs : SignInv env sigs used s) (h : H)
    (k : K) :
    get? (s.providedAddressSigs.getD (addressSigs env (s.providedSignatures.map (·.1)))) h =
      some k ↔ k ∈ sigs ∧ h ∈ env.hash.forms k := by
  cases hcached : s.providedAddressSigs with
  | some m => exact hs.addresses m hcached h k
  | none => rw [Option.getD_none, get?_addressSigs hfree, mem_map_fst, hs.keys]

theorem signedByAddress_spec (hfree : CollisionFree env.hash) (hs : SignInv env sigs used s) {a : A}
    (hused : ∀ k ∈ sigs, Contributes env sigs k (.address a) ∨
      PartlySigned env sigs k (.address a) → used k) :
    SignInv env sigs used (signedByAddress env a s).2 ∧
      ((signedByAddress env a s).1 = true ↔ Signed env sigs (.address a)) := by
  have htable := hs.table hfree
  simp only [signedByAddress]
  generalize s.providedAddressSigs.getD (addressSigs env (s.providedSignatures.map (·.1))) = m
    at htable ⊢
  have hcached : SignInv env sigs used { s with providedAddressSigs := some m } := by
    refine ⟨hs.keys, ?_, hs.marked, hs.approved⟩
    rintro _ ⟨⟩
    exact htable
  cases hget : get? m (env.hash.addr a) with
  | some k =>
    obtain ⟨hk, hform⟩ := (htable _ k).mp hget
    exact ⟨hcached.mark hk (hused k hk (.inl (.inl hform))), iff_of_true rfl (.inl ⟨k, hk, hform⟩)⟩
  | none =>
    have hplain : ¬ ∃ k ∈ sigs, env.hash.addr a ∈ env.hash.forms k := by
      rintro ⟨k, hk, hform⟩
      rw [(htable _ k).mpr ⟨hk, hform⟩] at hget
      cases hget
    have hsigned : Signed env sigs (.address a) ↔ Multisigned env sigs a := or_iff_right hplain
    rw [hsigned]
    by_cases hzero : (env.getAddresses a).required = 0
    · rw [if_pos hzero]
      exact ⟨hcached, iff_of_false Bool.false_ne_true fun h => h.1 hzero⟩
    · rw [if_neg hzero]
      have hmarked : ∀ k ∈ (env.getAddresses a).keys, k ∈ sigs → used k := by
        intro k hkey hk
        by_cases henough : Multisigned env sigs a
        · exact hused k hk (.inl (.inr ⟨henough, hkey⟩))
        · exact hused k hk (.inr ⟨mt hsigned.mp henough, hzero, hkey⟩)
      obtain ⟨hinv, hcount⟩ := markSigned_spec hfree htable hmarked hcached 0
      refine ⟨hinv, ?_⟩
      rw [decide_eq_true_iff, hcount, Int.zero_add]
      exact ⟨fun h => ⟨hzero, h⟩, And.right⟩

/-- **An entry counts exactly if it is signed**, and what is marked contributes to it or belongs to
an address for which too few keys signed. -/
theorem signedBy_spec (hfree : CollisionFree env.hash) (hs : SignInv env sigs used s)
    {e : Entry K A} (hused : ∀ k ∈ sigs, Contributes env sigs k e ∨ PartlySigned env sigs k e →
      used k) :
    SignInv env sigs used (signedBy env e s).2 ∧
      ((signedBy env e s).1 = true ↔ Signed env sigs e) := by
  cases e with
  | key k =>
    rw [signedBy, signedByKey]
    have hkeys := hs.keys k
    cases hget : get? s.providedSignatures k with
    | none =>
      rw [hget] at hkeys
      exact ⟨hs, hkeys⟩
    | some b =>
      rw [hget] at hkeys
      have hk := hkeys.mp rfl
      exact ⟨hs.mark hk (hused k hk (.inl rfl)), iff_of_true rfl hk⟩
  | account id =>
    refine ⟨hs, ?_⟩
    rw [signedBy, hs.approved]
    simp [Signed]
  | address a => exact signedByAddress_spec hfree hs hused

theorem signedWeight_cons (e : Entry K A × ℕ) (entries : List (Entry K A × ℕ)) :
    signedWeight env sigs (e :: entries) =
      (if Signed env sigs e.1 then e.2 else 0) + signedWeight env sigs entries := by
  rw [signedWeight, List.filter_cons]
  split_ifs with h <;> simp_all [signedWeight]

/-- **An authority passes only if its threshold is reached.** The loops stop as soon as it is, and
the weight that wraps around is never above the sum. -/
theorem checkEntries_spec (hfree : CollisionFree env.hash) (weightThreshold total : ℕ)
    {entries : List (Entry K A × ℕ)} (hs : SignInv env sigs used s)
    (hused : ∀ e ∈ entries, ∀ k ∈ sigs,
      Contributes env sigs k e.1 ∨ PartlySigned env sigs k e.1 → used k) :
    SignInv env sigs used (checkEntries env weightThreshold entries s total).2 ∧
      ((checkEntries env weightThreshold entries s total).1 = true →
        weightThreshold ≤ total + signedWeight env sigs entries) := by
  induction entries generalizing s total with
  | nil =>
    refine ⟨hs, fun h => ?_⟩
    exact of_decide_eq_true h
  | cons e entries ih =>
    obtain ⟨hinv, hsigned⟩ := signedBy_spec hfree hs (hused e List.mem_cons_self)
    have hrest := fun d hd => hused d (List.mem_cons_of_mem e hd)
    rw [checkEntries, signedWeight_cons]
    generalize signedBy env e.1 s = r at hinv hsigned ⊢
    obtain ⟨b, s₁⟩ := r
    cases b with
    | false =>
      rw [if_neg (mt hsigned.mpr Bool.false_ne_true), Nat.zero_add]
      exact ih total hinv hrest
    | true =>
      have hle : (total + e.2) % 2 ^ 32 ≤ total + e.2 := Nat.mod_le _ _
      rw [if_pos (hsigned.mp rfl)]
      simp only [if_true]
      split_ifs with hreached
      · exact ⟨hinv, fun _ => by omega⟩
      · obtain ⟨hinv', hweight⟩ := ih ((total + e.2) % 2 ^ 32) hinv hrest
        refine ⟨hinv', fun h => ?_⟩
        have hreached' := hweight h
        omega

end

/-! ### The check -/

section

variable {env} {sigs : List K} {ops : List (Operation K A)}

/-- The entries of all authorities that operations require. -/
def requiredEntries (ops : List (Operation K A)) : List (Entry K A × ℕ) :=
  (ops.flatMap Operation.authorities).flatMap Authority.entries

/-- Every threshold is reached by the entries that are signed. -/
def ThresholdsReached (env : AuthorityEnv K A H) (ops : List (Operation K A)) (sigs : List K) :
    Prop :=
  ∀ op ∈ ops, ∀ auth ∈ op.authorities, auth.weightThreshold ≤ signedWeight env sigs auth.entries

omit [LinearOrder H] in
theorem Contributes.signed {k : K} {e : Entry K A} (h : Contributes env sigs k e) (hk : k ∈ sigs) :
    Signed env sigs e := by
  cases e with
  | key k' => exact (show k' = k from h) ▸ hk
  | address a =>
    obtain hform | ⟨henough, -⟩ := h
    · exact .inl ⟨k, hk, hform⟩
    · exact .inr henough
  | account id => exact h.elim

/-- What a key was marked for. -/
def Used (env : AuthorityEnv K A H) (ops : List (Operation K A)) (sigs : List K) (k : K) : Prop :=
  (∃ e ∈ requiredEntries ops, Signed env sigs e.1 ∧ Contributes env sigs k e.1) ∨
    ∃ e ∈ requiredEntries ops, PartlySigned env sigs k e.1

theorem verifyOne_spec (hfree : CollisionFree env.hash) {which : ℕ} {op : Operation K A}
    {auth : Authority K A} {s s' : SignState K H} (hop : op ∈ ops) (hauth : auth ∈ op.authorities)
    (hs : SignInv env sigs (Used env ops sigs) s) (h : verifyOne env which s auth = .ok s') :
    SignInv env sigs (Used env ops sigs) s' ∧
      auth.weightThreshold ≤ signedWeight env sigs auth.entries := by
  simp only [verifyOne, bind_eq_ok, require_eq_ok, pure_eq_ok] at h
  obtain ⟨-, hsigned, -, -, rfl⟩ := h
  have hmem : ∀ e ∈ auth.entries, e ∈ requiredEntries ops := fun e he =>
    List.mem_flatMap.mpr ⟨auth, List.mem_flatMap.mpr ⟨op, hop, hauth⟩, he⟩
  have hused : ∀ e ∈ auth.entries, ∀ k ∈ sigs,
      Contributes env sigs k e.1 ∨ PartlySigned env sigs k e.1 → Used env ops sigs k :=
    fun e he k hk hmark => hmark.imp
      (fun hcontributes => ⟨e, hmem e he, hcontributes.signed hk, hcontributes⟩)
      fun hpartly => ⟨e, hmem e he, hpartly⟩
  obtain ⟨hinv, hweight⟩ := checkEntries_spec hfree auth.weightThreshold 0 hs hused
  exact ⟨hinv, Nat.zero_add (signedWeight env sigs auth.entries) ▸ hweight hsigned⟩

/-- Keys and addresses are numbers, and the addresses of a key are its multiples. The address `1`
stands for two of the keys `1` and `2`. -/
def numberEnv : AuthorityEnv ℕ ℕ ℕ where
  hash := { pts := fun k compressed version => 10 * k + compressed.toNat + version / 28
            key := fun k => 10 * k + 4
            addr := id }
  getAddresses := fun a => if a = 1 then ⟨2, [1, 2], by decide⟩ else ⟨0, [], by decide⟩
  isBlockedAddress := fun _ => false
  isWhiteOps := fun _ _ => false

theorem numberEnv_collisionFree : CollisionFree numberEnv.hash := by
  intro k k' h hk hk'
  simp only [numberEnv, AddressHash.forms, List.mem_cons, List.not_mem_nil, or_false] at hk hk'
  simp at hk hk'
  omega

/-- One of the address `1` and the address of the key `3`. -/
def oneOfTwo : Operation ℕ ℕ := ⟨0, [⟨1, [], [(1, 1), (34, 1)], []⟩]⟩

end

end Whitecoin.Accounts
