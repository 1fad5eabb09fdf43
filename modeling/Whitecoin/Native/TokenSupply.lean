import Whitecoin.Lib.Total
import Whitecoin.Lib.Word
import Whitecoin.Native.Token

/-!
# The supply of a native token

Once `init_token` was accepted, the balances sum up to the supply. They are not negative, so a
balance is at most the supply, and the sums that a transfer writes do not overflow. Names do not
collide, because a fast map has a prefix of its own.
-/

namespace Whitecoin.Native

open Check Cbor

/-! ### Names -/

theorem ne_fastMapKey {name : Text} {storageName : String} (key : Text)
    (h : ¬ text storageName ++ text "." <+: name) : name ≠ fastMapKey storageName key := by
  rintro rfl
  exact h (List.prefix_append ..)

theorem fastMapKey_ne {s t : String} (hst : ¬ text s ++ text "." <+: text t ++ text ".")
    (hts : ¬ text t ++ text "." <+: text s ++ text ".") (k l : Text) :
    fastMapKey s k ≠ fastMapKey t l := fun h => by
  have hbegins : text t ++ text "." <+: fastMapKey s k := h ▸ List.prefix_append ..
  rcases List.prefix_or_prefix_of_prefix (List.prefix_append (text s ++ text ".") k) hbegins
    with h | h
  · exact hst h
  · exact hts h

namespace Token

/-- The balance of a user. -/
def balance (o : Overlay) (owner : Text) : ℤ := orZero (balanceOf o owner)

/-- The amount that a map of allowances has for a spender. -/
def allowedTo (spender : Text) (allowed : List (Text × CborObject)) : Except String Int64 :=
  match OrdMap.get? allowed spender with
  | some v => v.forceAsInt
  | none => .ok 0

/-- What an owner allows a spender to take. -/
def allowance (o : Overlay) (owner spender : Text) : ℤ :=
  orZero (allowedOf o owner >>= allowedTo spender)

/-! ### Balances -/

/-- Every balance can be read and is not negative. -/
def UsersOk (o : Overlay) : Prop := ∀ owner, ∃ n, balanceOf o owner = .ok n ∧ 0 ≤ n.toInt

theorem balance_of_eq {o : Overlay} {owner : Text} {n : Int64} (h : balanceOf o owner = .ok n) :
    balance o owner = n.toInt := by
  rw [balance, h, orZero]

section users

variable {o o' : Overlay}

theorem UsersOk.nonneg (h : UsersOk o) (owner : Text) : 0 ≤ balance o owner := by
  obtain ⟨n, hn, hpos⟩ := h owner
  rwa [balance_of_eq hn]

variable {owner : Text} {n : Int64}

theorem users_set {v : CborObject} (hn : 0 ≤ n.toInt) (h : o.fastMapSet "users" owner v = .ok o')
    (hread : balanceOf o' owner = .ok n) (hu : UsersOk o) :
    UsersOk o' ∧ balance o' = Function.update (balance o) owner n.toInt := by
  have hother : ∀ b, b ≠ owner → balanceOf o' b = balanceOf o b := fun b hb => by
    rw [balanceOf, balanceOf, Overlay.fastMapGet, Overlay.fastMapGet,
      Overlay.get_set_of_ne h fun heq => hb (fastMapKey_inj heq)]
  constructor
  · intro b
    by_cases hb : b = owner
    · exact ⟨n, hb ▸ hread, hn⟩
    · obtain ⟨m, hm, hpos⟩ := hu b
      exact ⟨m, (hother b hb).trans hm, hpos⟩
  · funext b
    by_cases hb : b = owner
    · rw [hb, Function.update_self, balance_of_eq hread]
    · rw [Function.update_of_ne hb, balance, balance, hother b hb]

theorem users_set_int (hn : 0 ≤ n.toInt) (h : o.fastMapSet "users" owner (.int n) = .ok o')
    (hu : UsersOk o) : UsersOk o' ∧ balance o' = Function.update (balance o) owner n.toInt := by
  refine users_set hn h ?_ hu
  obtain ⟨w, hw, hint, hforce⟩ := Overlay.get_set_int h
  rw [Overlay.readInt, if_neg (by omega)] at hforce
  rw [balanceOf, Overlay.fastMapGet, hw]
  simp only [bind, Except.bind, hint, if_true, hforce]

theorem users_set_null (h : o.fastMapSet "users" owner .null = .ok o') (hu : UsersOk o) :
    UsersOk o' ∧ balance o' = Function.update (balance o) owner 0 := by
  refine users_set (n := 0) le_rfl h ?_ hu
  have hw := Overlay.get_set h trivial (by simp [CborObject.integers])
  rw [balanceOf, Overlay.fastMapGet, hw]
  rfl

/-- **A transfer keeps the total.** The second balance is read after the first was written, so that
a transfer to oneself changes nothing. -/
theorem moveBalance_spec {fromAddress toAddress : Text} {amount : Int64} {t : ℤ}
    (h : moveBalance fromAddress toAddress amount o = .ok o') (hu : UsersOk o)
    (ht : HasTotal (balance o) t) (hmax : t < 2 ^ 63) (hpos : 0 < amount.toInt)
    (hle : amount.toInt ≤ balance o fromAddress) :
    UsersOk o' ∧ HasTotal (balance o') t ∧
      ∀ name, (∀ owner, name ≠ fastMapKey "users" owner) → o'.get name = o.get name := by
  simp only [moveBalance, bind_eq_ok] at h
  obtain ⟨n, hn, o₁, hset, m, hm, hset'⟩ := h
  rw [balance_of_eq hn] at hle
  have hn' := n.toInt_lt
  have hremain : (n - amount).toInt = n.toInt - amount.toInt :=
    Word.toInt_sub_of_le (by omega) (by omega)
  -- the first balance, written as null if nothing remains
  obtain ⟨hu₁, hbal₁⟩ : UsersOk o₁ ∧
      balance o₁ = Function.update (balance o) fromAddress (n.toInt - amount.toInt) := by
    split at hset
    · rw [← hremain]
      exact users_set_int (by omega) hset hu
    · rename_i hzero
      rw [Int64.lt_iff_toInt_lt, Int64.toInt_zero, hremain] at hzero
      rw [show n.toInt - amount.toInt = 0 by omega]
      exact users_set_null hset hu
  have ht₁ : HasTotal (balance o₁) (t - amount.toInt) := by
    have := ht.update fromAddress (n.toInt - amount.toInt)
    rwa [← hbal₁, balance_of_eq hn, show t - n.toInt + (n.toInt - amount.toInt) =
      t - amount.toInt by omega] at this
  -- the second balance is at most what the others leave
  have hm' := ht₁.le hu₁.nonneg toAddress
  have hm₀ := hu₁.nonneg toAddress
  rw [balance_of_eq hm] at hm' hm₀
  have hsum : (m + amount).toInt = m.toInt + amount.toInt :=
    Word.toInt_add_of_lt (by omega) (by omega)
  obtain ⟨hu', hbal'⟩ := users_set_int (by omega) hset' hu₁
  refine ⟨hu', ?_, fun name hname => ?_⟩
  · have := ht₁.update toAddress (m + amount).toInt
    rwa [← hbal', balance_of_eq hm, hsum, show t - amount.toInt - m.toInt +
      (m.toInt + amount.toInt) = t by omega] at this
  · rw [Overlay.get_set_of_ne hset' (hname toAddress), Overlay.get_set_of_ne hset (hname fromAddress)]

end users

/-! ### Allowances -/

/-- An object that is read as the amount `n`. -/
def IsAmount (v : CborObject) (n : ℕ) : Prop :=
  v = .int (Int64.ofNat n) ∨ v = .extraInt (UInt64.ofNat n) true

section amounts

variable {v : CborObject} {n : ℕ}

theorem IsAmount.pint (n : ℕ) : IsAmount (pint n) n :=
  (pint_eq n).imp And.right id

theorem IsAmount.forceAsInt (h : IsAmount v n) : v.forceAsInt = .ok (Int64.ofNat n) := by
  rcases h with rfl | rfl
  · rfl
  · rw [CborObject.forceAsInt, if_pos rfl, UInt64.toInt64_ofNat']

theorem IsAmount.decoded (h : IsAmount v n) (hn : n < 2 ^ 63) : decoded v = Cbor.pint n := by
  rcases h with rfl | rfl
  · have htoInt : (Int64.ofNat n).toInt = n := Int64.toInt_ofNat_of_lt hn
    have hneg : ¬ Int64.ofNat n < 0 := by
      rw [Int64.lt_iff_toInt_lt, htoInt, Int64.toInt_zero]
      omega
    rw [Cbor.decoded, if_neg hneg, htoInt, Int.toNat_natCast]
  · rw [Cbor.decoded, if_pos rfl, UInt64.toNat_ofNat', Nat.mod_eq_of_lt (by omega)]

theorem IsAmount.storable (h : IsAmount v n) : v.Storable := by
  rcases h with rfl | rfl <;> simp [CborObject.Storable]

theorem IsAmount.integers_nonneg (h : IsAmount v n) (hn : n < 2 ^ 63) :
    ∀ m ∈ v.integers, 0 ≤ m := by
  intro m hm
  rcases h with rfl | rfl
  · obtain rfl : m = (Int64.ofNat n).toInt := by simpa [CborObject.integers] using hm
    rw [Int64.toInt_ofNat_of_lt hn]
    omega
  · obtain rfl : m = (UInt64.ofNat n).toNat := by simpa [CborObject.integers] using hm
    omega

theorem isAmount_int {n : Int64} (h : 0 ≤ n.toInt) : IsAmount (.int n) n.toInt.toNat := by
  have hlt := n.toInt_lt
  refine .inl (congrArg CborObject.int ?_)
  rw [← Int64.toInt_inj, Int64.toInt_ofNat_of_lt (by omega), Int.toNat_of_nonneg h]

end amounts

/-- A map of allowances: they are positive. -/
structure IsAllowances (m : List (Text × CborObject)) : Prop where
  sorted : OrdMap.Sorted m
  positive : ∀ e ∈ m, ∃ n, 0 < n ∧ n < 2 ^ 63 ∧ IsAmount e.2 n

/-- The allowances of every owner can be read. -/
def AllowedOk (o : Overlay) : Prop := ∀ owner, ∃ m, allowedOf o owner = .ok m ∧ IsAllowances m

section allowances

variable {o o' : Overlay} {m : List (Text × CborObject)}

theorem IsAllowances.set (h : IsAllowances m) (spender : Text) {n : Int64} (hn : 0 < n.toInt) :
    IsAllowances (OrdMap.set m spender (.int n)) := by
  refine ⟨h.sorted.set _ _, fun e he => ?_⟩
  rcases OrdMap.mem_set he with rfl | he
  · have hlt := n.toInt_lt
    exact ⟨n.toInt.toNat, by omega, by omega, isAmount_int hn.le⟩
  · exact h.positive e he

theorem IsAllowances.erase (h : IsAllowances m) (spender : Text) :
    IsAllowances (OrdMap.erase m spender) :=
  ⟨h.sorted.erase _, fun e he => h.positive e (OrdMap.mem_of_mem_erase he)⟩

variable {owner : Text}

theorem allowed_set (h : o.fastMapSet "allowed" owner (.map m) = .ok o') (hm : IsAllowances m) :
    ∃ m', allowedOf o' owner = .ok m' ∧ IsAllowances m' ∧
      ∀ spender, allowedTo spender m' = allowedTo spender m := by
  have hstorable : (CborObject.map m).Storable :=
    ⟨hm.sorted, CborObject.entriesStorable_iff.mpr fun e he => by
      obtain ⟨n, -, -, hn⟩ := hm.positive e he
      exact hn.storable⟩
  have hneg : ∀ k ∈ (CborObject.map m).integers, -2 ^ 32 ≤ k := fun k hk => by
    rw [CborObject.integers, CborObject.entryIntegers_eq] at hk
    obtain ⟨e, he, hk⟩ := List.mem_flatMap.mp hk
    obtain ⟨n, -, hlt, hn⟩ := hm.positive e he
    have := hn.integers_nonneg hlt k hk
    omega
  have hget := Overlay.get_set h hstorable hneg
  refine ⟨m.map fun e => (e.1, decoded e.2), ?_, ⟨hm.sorted.mapValues _, fun e he => ?_⟩,
    fun spender => ?_⟩
  · rw [allowedOf, Overlay.fastMapGet, hget, decoded, decodedEntries_eq]
    rfl
  · obtain ⟨d, hd, rfl⟩ := List.mem_map.mp he
    obtain ⟨n, hpos, hlt, hn⟩ := hm.positive d hd
    exact ⟨n, hpos, hlt, hn.decoded hlt ▸ .pint n⟩
  · rw [allowedTo, allowedTo, OrdMap.get?_map]
    cases hk : OrdMap.get? m spender with
    | none => rfl
    | some v =>
      obtain ⟨n, -, hlt, hn⟩ := hm.positive _ (OrdMap.mem_of_get? hk)
      simp only [Option.map_some, hn.decoded hlt, (IsAmount.pint n).forceAsInt, hn.forceAsInt]

theorem allowedOf_of_ne {name : Text} {value : CborObject} (h : o.set name value = .ok o')
    (hne : fastMapKey "allowed" owner ≠ name) : allowedOf o' owner = allowedOf o owner := by
  rw [allowedOf, allowedOf, Overlay.fastMapGet, Overlay.fastMapGet, Overlay.get_set_of_ne h hne]

end allowances

/-! ### The apis -/

section apis

variable {numerals : Numerals} {caller arg : Text} {o o' : Overlay}

theorem transfer_eq_ok (h : transfer numerals caller arg o = .ok o') :
    o.getString (text "state") = .ok common ∧ ∃ toAddress amount n,
      0 < amount.toInt ∧ balanceOf o caller = .ok n ∧ amount.toInt ≤ n.toInt ∧
      moveBalance caller toAddress amount o = .ok o' := by
  simp only [transfer, bind_eq_ok, require_eq_ok, exists_const] at h
  obtain ⟨_, hstate, rfl, h⟩ := h
  split at h
  · simp only [bind_eq_ok, require_eq_ok, exists_const] at h
    obtain ⟨amount, hamount, n, hn, hle, h⟩ := h
    rw [Int64.lt_iff_toInt_lt, not_lt] at hle
    exact ⟨hstate, _, amount, n, Numerals.positive_eq_ok hamount, hn, hle, h⟩
  · simp at h

theorem approve_eq_ok (h : approve numerals caller arg o = .ok o') :
    o.getString (text "state") = .ok common ∧ ∃ spender amount allowed,
      0 < amount.toInt ∧ allowedOf o caller = .ok allowed ∧
      o.fastMapSet "allowed" caller (.map (OrdMap.set allowed spender (.int amount))) = .ok o' := by
  simp only [approve, bind_eq_ok, require_eq_ok, exists_const] at h
  obtain ⟨_, hstate, rfl, h⟩ := h
  split at h
  · simp only [bind_eq_ok, require_eq_ok, exists_const] at h
    obtain ⟨amount, hamount, allowed, hallowed, -, h⟩ := h
    exact ⟨hstate, _, amount, allowed, Numerals.positive_eq_ok hamount, hallowed, h⟩
  · simp at h

theorem transferFrom_eq_ok (h : transferFrom numerals caller arg o = .ok o') :
    o.getString (text "state") = .ok common ∧
      ∃ fromAddress toAddress value rest amount n allowed approved o₁,
        splitArgs arg = fromAddress :: toAddress :: value :: rest ∧
        stoll (trim value) = .ok amount ∧ 0 < amount.toInt ∧
        balanceOf o (trim fromAddress) = .ok n ∧ amount.toInt ≤ n.toInt ∧
        allowedOf o (trim fromAddress) = .ok allowed ∧
        allowedTo caller allowed = .ok approved ∧ amount.toInt ≤ approved.toInt ∧
        moveBalance (trim fromAddress) (trim toAddress) amount o = .ok o₁ ∧
        o₁.fastMapSet "allowed" (trim fromAddress)
          (.map (spend allowed caller (approved - amount))) = .ok o' := by
  simp only [transferFrom, bind_eq_ok, require_eq_ok, exists_const] at h
  obtain ⟨_, hstate, rfl, h⟩ := h
  split at h
  · rename_i fromAddress toAddress value rest hsplit
    simp only [bind_eq_ok, require_eq_ok, found_eq_ok, exists_const] at h
    obtain ⟨amount, hamount, n, hn, hle, allowed, hallowed, v, hv, approved, happroved, hle', o₁,
      hmove, hset⟩ := h
    rw [Int64.lt_iff_toInt_lt, not_lt] at hle hle'
    have hto : allowedTo caller allowed = .ok approved := by rw [allowedTo, hv]; exact happroved
    exact ⟨hstate, fromAddress, toAddress, value, rest, amount, n, allowed, approved, o₁, hsplit,
      Numerals.stoll_of_positive hamount, Numerals.positive_eq_ok hamount, hn, hle, hallowed, hto,
      hle', hmove, hset⟩
  · simp at h

theorem initToken_eq_ok (h : initToken numerals caller arg o = .ok o') :
    o.getString (text "state") = .ok notInited ∧
      ∃ (supply : Int64) (precision name symbol : CborObject) (o₁ : Overlay),
        0 < supply.toInt ∧
        o.setAll [(text "state", .string common), (text "precision", precision),
          (text "supply", .int supply), (text "name", name), (text "symbol", symbol)] = .ok o₁ ∧
        o₁.fastMapSet "users" caller (.int supply) = .ok o' := by
  simp only [initToken, bind_eq_ok, require_eq_ok, exists_const] at h
  obtain ⟨_, -, _, hstate, rfl, h⟩ := h
  split at h
  · simp only [bind_eq_ok, require_eq_ok, exists_const] at h
    obtain ⟨-, supply, hsupply, precision, -, -, o₁, h₁, h⟩ := h
    exact ⟨hstate, supply, _, _, _, o₁, Numerals.positive_eq_ok hsupply, h₁, h⟩
  · simp at h

/-- The balances sum up to the supply. -/
def Backed (o : Overlay) : Prop :=
  ∃ supply, o.getInt (text "supply") = .ok supply ∧ HasTotal (balance o) supply.toInt

/-- What holds of the storage between two calls. -/
structure Sound (o : Overlay) : Prop where
  users : UsersOk o
  allowed : AllowedOk o
  supply : (o.getString (text "state") = .ok notInited ∧ ∀ owner, balance o owner = 0) ∨
    (o.getString (text "state") = .ok common ∧ Backed o)

theorem Sound.view (h : Sound o) : Sound (Storage.view o.current) := ⟨h.users, h.allowed, h.supply⟩

theorem Sound.backed (h : Sound o) (hstate : o.getString (text "state") = .ok common) :
    Backed o := by
  rcases h.supply with ⟨hstate', -⟩ | ⟨-, hbacked⟩
  · exact absurd (Except.ok.inj (hstate.symm.trans hstate')) (by decide)
  · exact hbacked

variable {owner : Text} {m : List (Text × CborObject)} {s : Storage}

theorem allowedOf_congr
    (h : o'.get (fastMapKey "allowed" owner) = o.get (fastMapKey "allowed" owner)) :
    allowedOf o' owner = allowedOf o owner := by
  rw [allowedOf, allowedOf, Overlay.fastMapGet, Overlay.fastMapGet, h]

theorem balance_congr
    (h : ∀ owner, o'.get (fastMapKey "users" owner) = o.get (fastMapKey "users" owner)) :
    balance o' = balance o := by
  funext owner
  rw [balance, balance, balanceOf, balanceOf, Overlay.fastMapGet, Overlay.fastMapGet, h]

theorem allowed_ne_users (key owner : Text) : fastMapKey "allowed" key ≠ fastMapKey "users" owner :=
  fastMapKey_ne (by decide) (by decide) key owner

theorem Sound.moveBalance (h : Sound o) (hstate : o.getString (text "state") = .ok common)
    {fromAddress toAddress : Text} {amount n : Int64} (hpos : 0 < amount.toInt)
    (hn : balanceOf o fromAddress = .ok n) (hle : amount.toInt ≤ n.toInt)
    (hmove : moveBalance fromAddress toAddress amount o = .ok o') :
    Sound o' ∧ o'.getString (text "state") = .ok common ∧
      ∀ owner, allowedOf o' owner = allowedOf o owner := by
  obtain ⟨supply, hsupply, htotal⟩ := h.backed hstate
  obtain ⟨hu, ht, hother⟩ := moveBalance_spec hmove h.users htotal supply.toInt_lt hpos
    (by rwa [balance_of_eq hn])
  have hstate' : o'.getString (text "state") = .ok common := by
    rw [Overlay.getString_congr (hother _ fun owner => ne_fastMapKey owner (by decide)), hstate]
  have hsupply' : o'.getInt (text "supply") = .ok supply := by
    rw [Overlay.getInt_congr (hother _ fun owner => ne_fastMapKey owner (by decide)), hsupply]
  have hallowed : ∀ owner, allowedOf o' owner = allowedOf o owner := fun owner =>
    allowedOf_congr (hother _ (allowed_ne_users owner))
  refine ⟨⟨hu, fun owner => ?_, .inr ⟨hstate', supply, hsupply', ht⟩⟩, hstate', hallowed⟩
  rw [hallowed]
  exact h.allowed owner

theorem Sound.setAllowed (h : Sound o) (hstate : o.getString (text "state") = .ok common)
    (hm : IsAllowances m) (hset : o.fastMapSet "allowed" owner (.map m) = .ok o') :
    Sound o' ∧ o'.getString (text "state") = .ok common ∧
      ∀ spender, allowance o' owner spender = orZero (allowedTo spender m) := by
  obtain ⟨m', hm', hok, hto⟩ := allowed_set hset hm
  obtain ⟨supply, hsupply, htotal⟩ := h.backed hstate
  have husers : ∀ user, o'.get (fastMapKey "users" user) = o.get (fastMapKey "users" user) :=
    fun user => Overlay.get_set_of_ne hset (allowed_ne_users owner user).symm
  have hbal := balance_congr husers
  have hstate' : o'.getString (text "state") = .ok common := by
    rw [Overlay.getString_congr (Overlay.get_set_of_ne hset (ne_fastMapKey owner (by decide))), hstate]
  refine ⟨⟨fun user => ?_, fun user => ?_, .inr ⟨hstate', supply, ?_, by rwa [hbal]⟩⟩, hstate',
    fun spender => ?_⟩
  · rw [balanceOf, Overlay.fastMapGet, husers]
    exact h.users user
  · by_cases huser : user = owner
    · exact ⟨m', huser ▸ hm', hok⟩
    · rw [allowedOf_of_ne hset fun heq => huser (fastMapKey_inj heq)]
      exact h.allowed user
  · rw [Overlay.getInt_congr (Overlay.get_set_of_ne hset (ne_fastMapKey owner (by decide))), hsupply]
  · rw [allowance, hm', ← hto]
    rfl

/-- What holds of the storage once `init_token` was accepted. -/
structure Inited (o : Overlay) : Prop extends Sound o where
  state : o.getString (text "state") = .ok common

theorem Sound.transfer (h : Sound o) (ht : transfer numerals caller arg o = .ok o') :
    Inited o' := by
  obtain ⟨hstate, _, amount, n, hpos, hn, hle, hmove⟩ := transfer_eq_ok ht
  obtain ⟨hsound, hstate', -⟩ := h.moveBalance hstate hpos hn hle hmove
  exact ⟨hsound, hstate'⟩

theorem Sound.approve (h : Sound o) (ht : approve numerals caller arg o = .ok o') :
    Inited o' := by
  obtain ⟨hstate, spender, amount, allowed, hpos, hallowed, hset⟩ := approve_eq_ok ht
  obtain ⟨m, hm, hok⟩ := h.allowed caller
  obtain rfl := Except.ok.inj (hm.symm.trans hallowed)
  obtain ⟨hsound, hstate', -⟩ := h.setAllowed hstate (hok.set spender hpos) hset
  exact ⟨hsound, hstate'⟩

theorem IsAllowances.spend (h : IsAllowances m) (spender : Text) {rest : Int64}
    (hrest : 0 ≤ rest.toInt) : IsAllowances (spend m spender rest) := by
  unfold Token.spend
  split
  · exact h.erase spender
  · rename_i hne
    refine h.set spender ?_
    have : rest.toInt ≠ 0 := fun h0 => hne (Int64.toInt_inj.mp (by rw [h0, Int64.toInt_zero]))
    omega

theorem allowedTo_spend (m : List (Text × CborObject)) (spender : Text) (rest : Int64) :
    allowedTo spender (spend m spender rest) = .ok rest := by
  by_cases hzero : rest = 0
  · rw [Token.spend, if_pos hzero, allowedTo, OrdMap.get?_erase, if_pos rfl, hzero]
  · rw [Token.spend, if_neg hzero, allowedTo, OrdMap.get?_set, if_pos rfl]
    rfl

/-- **An accepted `transferFrom` uses the allowance**, which was large enough. -/
theorem Sound.transferFrom (h : Sound o) (ht : transferFrom numerals caller arg o = .ok o') :
    Inited o' ∧ ∃ fromAddress toAddress value rest amount,
      splitArgs arg = fromAddress :: toAddress :: value :: rest ∧
      stoll (trim value) = .ok amount ∧ 0 < amount.toInt ∧
      amount.toInt ≤ allowance o (trim fromAddress) caller ∧
      allowance o' (trim fromAddress) caller =
        allowance o (trim fromAddress) caller - amount.toInt := by
  obtain ⟨hstate, fromAddress, toAddress, value, rest, amount, n, allowed, approved, o₁, hsplit,
    hstoll, hpos, hn, hle, hallowed, happroved, hle', hmove, hset⟩ := transferFrom_eq_ok ht
  obtain ⟨h₁, hstate₁, hallowed₁⟩ := h.moveBalance hstate hpos hn hle hmove
  obtain ⟨m, hm, hok⟩ := h.allowed (trim fromAddress)
  obtain rfl := Except.ok.inj (hm.symm.trans hallowed)
  have hlt := approved.toInt_lt
  have hrest : (approved - amount).toInt = approved.toInt - amount.toInt :=
    Word.toInt_sub_of_le (by omega) (by omega)
  obtain ⟨h', hstate', hto⟩ := h₁.setAllowed hstate₁ (hok.spend caller (by omega)) hset
  have hbefore : allowance o (trim fromAddress) caller = approved.toInt := by
    rw [allowance, hallowed]
    exact congrArg orZero happroved
  refine ⟨⟨h', hstate'⟩, fromAddress, toAddress, value, rest, amount, hsplit, hstoll, hpos,
    by rwa [hbefore], ?_⟩
  rw [hto, allowedTo_spend, orZero, hrest, hbefore]

/-- The names without a prefix. -/
def plainNames : List Text :=
  [text "state", text "precision", text "supply", text "name", text "symbol", text "admin"]

theorem fastMap_of_setAll {entries : List (Text × CborObject)} (h : o.setAll entries = .ok o')
    (hnames : ∀ e ∈ entries, e.1 ∈ plainNames) {storageName : String}
    (hmap : storageName ∈ ["users", "allowed"]) (key : Text) :
    o'.get (fastMapKey storageName key) = o.get (fastMapKey storageName key) := by
  refine Overlay.get_setAll_of_notMem h fun e he => (ne_fastMapKey key ?_).symm
  have hbegins : ∀ name ∈ plainNames, ∀ storageName ∈ ["users", "allowed"],
      ¬ text storageName ++ text "." <+: name := by decide
  exact hbegins _ (hnames e he) _ hmap

theorem Sound.initToken (h : Sound o) (ht : initToken numerals caller arg o = .ok o') :
    Inited o' := by
  obtain ⟨hstate, supply, precision, name, symbol, o₁, hpos, hall, hset⟩ := initToken_eq_ok ht
  have husers : ∀ owner, o₁.get (fastMapKey "users" owner) = o.get (fastMapKey "users" owner) :=
    fastMap_of_setAll hall (by simp [plainNames]) (by simp)
  have hallowed : ∀ owner, allowedOf o' owner = allowedOf o owner := fun owner => by
    rw [allowedOf_of_ne hset (allowed_ne_users owner caller),
      allowedOf_congr (fastMap_of_setAll hall (by simp [plainNames]) (by simp) owner)]
  have hnames : [text "state", text "precision", text "supply", text "name",
      text "symbol"].Nodup := by decide
  have hstate' : o'.getString (text "state") = .ok common := by
    rw [Overlay.getString_congr (Overlay.get_set_of_ne hset (ne_fastMapKey caller (by decide))),
      Overlay.getString_setAll _ common hall (by simp) hnames]
  have hsupply' : o'.getInt (text "supply") = .ok supply := by
    rw [Overlay.getInt_congr (Overlay.get_set_of_ne hset (ne_fastMapKey caller (by decide))),
      Overlay.getInt_setAll _ hpos.le hall (by simp) hnames]
  have hzero : balance o₁ = fun _ => 0 := by
    rw [balance_congr husers]
    rcases h.supply with ⟨-, hzero⟩ | ⟨hcommon, -⟩
    · exact funext hzero
    · exact absurd (Except.ok.inj (hstate.symm.trans hcommon)) (by decide)
  have hu₁ : UsersOk o₁ := fun owner => by
    rw [balanceOf, Overlay.fastMapGet, husers]
    exact h.users owner
  obtain ⟨hu, hbal⟩ := users_set_int hpos.le hset hu₁
  refine ⟨⟨hu, fun owner => ?_, .inr ⟨hstate', supply, hsupply', ?_⟩⟩, hstate'⟩
  · rw [hallowed]
    exact h.allowed owner
  · rw [hbal, hzero]
    simpa using HasTotal.zero.update caller supply.toInt

theorem sound_init (h : init caller (Storage.view .empty) = .ok o) : Sound o := by
  simp only [init, bind_eq_ok, require_eq_ok, exists_const] at h
  obtain ⟨o₁, hall, -, hset⟩ := h
  have hnull : ∀ {storageName} key, storageName ∈ ["users", "allowed"] →
      o.get (fastMapKey storageName key) = .ok .null := fun {storageName} key hmap => by
    have hbegins : ∀ storageName ∈ ["users", "allowed"],
        ¬ text storageName ++ text "." <+: text "admin" := by decide
    rw [Overlay.get_set_of_ne hset (ne_fastMapKey key (hbegins _ hmap)).symm,
      fastMap_of_setAll hall (by simp [plainNames]) hmap key]
    exact cborDecode_write ⟨trivial, by decide, by simp [CborObject.integers]⟩
  have hbal : ∀ owner, balanceOf o owner = .ok 0 := fun owner => by
    rw [balanceOf, Overlay.fastMapGet, hnull owner (by simp)]
    rfl
  refine ⟨fun owner => ⟨0, hbal owner, le_rfl⟩, fun owner => ⟨[], ?_, List.Pairwise.nil, by simp⟩,
    .inl ⟨?_, fun owner => ?_⟩⟩
  · rw [allowedOf, Overlay.fastMapGet, hnull owner (by simp)]
    rfl
  · rw [Overlay.getString_congr (Overlay.get_set_of_ne hset (by decide)),
      Overlay.getString_setAll _ notInited hall (by simp) (by decide)]
  · rw [balance_of_eq (hbal owner)]
    rfl

theorem Sound.invoke {s' : Storage} {call : Invocation} (h : Sound s.view)
    (hcall : invoke numerals call s = .ok s') : Inited s'.view := by
  obtain ⟨api, caller, arg⟩ := call
  obtain ⟨o, ho, rfl⟩ := perform_eq_ok.mp hcall
  have hinited : Inited o := by
    cases api with
    | initToken => exact h.initToken ho
    | transfer => exact h.transfer ho
    | approve => exact h.approve ho
    | transferFrom => exact (h.transferFrom ho).1
  -- what is read depends on the current values only
  exact ⟨hinited.toSound.view, hinited.state⟩

theorem Reached.sound (h : Reached numerals s) : Sound s.view := by
  induction h with
  | init h =>
    obtain ⟨o, ho, rfl⟩ := perform_eq_ok.mp h
    exact (sound_init ho).view
  | @call s hs call ih =>
    cases hcall : Token.invoke numerals call s with
    | error e => exact ih
    | ok s' => exact (ih.invoke hcall).toSound

theorem Inited.run (h : Inited s.view) (calls : List Invocation) :
    Inited (run numerals calls s).view := by
  induction calls generalizing s with
  | nil => exact h
  | cons call calls ih =>
    refine ih ?_
    show Inited (attempted s (Token.invoke numerals call s)).view
    cases hcall : Token.invoke numerals call s with
    | error e => exact h
    | ok s' => exact h.toSound.invoke hcall

end apis

/-- **The supply of a token is conserved.** In every storage that a contract reaches after an
accepted `init_token`, the balances sum up to the supply and are not negative. A rejected call
changes nothing, and an accepted `transferFrom` uses an allowance that was large enough. -/
theorem supply_conserved {numerals : Numerals} {s₀ s₁ : Storage} {caller arg : Text}
    (h : Reached numerals s₀) (hinit : invoke numerals ⟨.initToken, caller, arg⟩ s₀ = .ok s₁)
    {calls : List Invocation} {s : Storage} (hs : run numerals calls s₁ = s) :
    Backed s.view ∧ (∀ owner, ∃ n, balanceOf s.view owner = .ok n ∧ 0 ≤ n.toInt) ∧
      (∀ call e, invoke numerals call s = .error e → run numerals [call] s = s) ∧
      ∀ spender arg s', invoke numerals ⟨.transferFrom, spender, arg⟩ s = .ok s' →
        ∃ fromAddress toAddress value rest amount,
          splitArgs arg = fromAddress :: toAddress :: value :: rest ∧
          stoll (trim value) = .ok amount ∧
          amount.toInt ≤ allowance s.view (trim fromAddress) spender ∧
          allowance s'.view (trim fromAddress) spender =
            allowance s.view (trim fromAddress) spender - amount.toInt := by
  have hsound : Inited s.view := hs ▸ (h.sound.invoke hinit).run calls
  refine ⟨hsound.toSound.backed hsound.state, hsound.users, fun call e he => ?_,
    fun spender arg s' hcall => ?_⟩
  · simp only [run, List.foldl_cons, List.foldl_nil, he, attempted_error]
  · obtain ⟨o, ho, rfl⟩ := perform_eq_ok.mp hcall
    obtain ⟨-, fromAddress, toAddress, value, rest, amount, hsplit, hstoll, -, hle, hrest⟩ :=
      hsound.toSound.transferFrom ho
    exact ⟨fromAddress, toAddress, value, rest, amount, hsplit, hstoll, hle, hrest⟩

/-- A token of a hundred units. -/
def sampleInit : Invocation := ⟨.initToken, text "A", text "name,symbol,100,1"⟩

/-- A transfer, an allowance, its use, and a transfer that is refused. -/
def sampleCalls : List Invocation :=
  [⟨.transfer, text "A", text "B, 30"⟩, ⟨.approve, text "A", text "C,20"⟩,
    ⟨.transferFrom, text "C", text "A,B,5"⟩, ⟨.transfer, text "A", text "B,66"⟩]

theorem supply_conserved_sample : ∃ numerals s₀ s₁, Reached numerals s₀ ∧
    invoke numerals sampleInit s₀ = .ok s₁ ∧
    Backed (run numerals sampleCalls s₁).view ∧
    balanceOf (run numerals sampleCalls s₁).view (text "B") = .ok 35 := by
  let numerals : Numerals := ⟨fun _ => true⟩
  let s₀ := attempted .empty (perform (init (text "A")) .empty)
  let s₁ := attempted s₀ (invoke numerals sampleInit s₀)
  have h₀ : Reached numerals s₀ := .init (eq_ok_attempted _ (by decide +kernel))
  have h₁ : invoke numerals sampleInit s₀ = .ok s₁ := eq_ok_attempted _ (by decide +kernel)
  exact ⟨numerals, s₀, s₁, h₀, h₁, (supply_conserved h₀ h₁ rfl).1, by decide +kernel⟩

end Token

end Whitecoin.Native
