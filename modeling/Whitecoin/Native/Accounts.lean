import Whitecoin.Lib.Total
import Whitecoin.Lib.Word
import Whitecoin.Native.Args
import Whitecoin.Native.Storage

/-!
# Accounts inside a contract

The exchange and the market maker keep what a user has deposited in a fast map named by the user's
address, with one entry for every asset. An entry that is not an integer counts as zero.

The name of an entry is the name of the map, a point and the key. Addresses have no point, so that
the entries of two users do not collide. The keys of other maps can be read as the entry of a user
only if they end like it.
-/

namespace Whitecoin.Native

open Check Cbor

/-- The texts of addresses: a prefix, and characters among which there is no point. -/
def IsAddress (a : Text) : Prop := text "XWC" <+: a ∧ 46 ∉ a

instance (a : Text) : Decidable (IsAddress a) := inferInstanceAs (Decidable (_ ∧ _))

abbrev Address := { a : Text // IsAddress a }

/-- The name of an entry of a fast map. -/
def entryKey (storageName key : Text) : Text := storageName ++ text "." ++ key

variable {k l arg : Text} {numerals : Numerals} {pays : Bool} {caller : Address} {o o' : Overlay}
  {paid : Text × Int64}

theorem eq_nil_of_append {c : Text} (hc : 46 ∉ c) (h : (46 : UInt8) :: k = c ++ 46 :: l) :
    c = [] := by
  cases c with
  | nil => rfl
  | cons x c =>
    obtain ⟨rfl, -⟩ := List.cons_eq_cons.mp h
    exact absurd (List.mem_cons_self ..) hc

theorem entryKey_inj {a b : Text} (ha : 46 ∉ a) (hb : 46 ∉ b) (h : entryKey a k = entryKey b l) :
    a = b ∧ k = l := by
  rw [entryKey, entryKey, List.append_assoc, List.append_assoc] at h
  rcases List.append_eq_append_iff.mp h with ⟨c, rfl, hc⟩ | ⟨c, rfl, hc⟩
  · obtain rfl := eq_nil_of_append (fun hmem => hb (List.mem_append_right _ hmem)) hc
    exact ⟨(List.append_nil a).symm, List.append_cancel_left hc⟩
  · obtain rfl := eq_nil_of_append (fun hmem => ha (List.mem_append_right _ hmem)) hc
    exact ⟨List.append_nil b, (List.append_cancel_left hc).symm⟩

theorem ne_entryKey {name : Text} (h : 46 ∉ name) (storageName key : Text) :
    name ≠ entryKey storageName key := by
  rintro rfl
  exact h (List.mem_append_left _ (List.mem_append_right _ (by decide)))

theorem getLast?_entryKey {key : Text} {c : UInt8} (h : key.getLast? = some c)
    (storageName : Text) : (entryKey storageName key).getLast? = some c := by
  rw [entryKey, List.getLast?_append, h]
  rfl

namespace Overlay

/-- `current_fast_map_get`. -/
def entry (o : Overlay) (storageName key : Text) : Except String CborObject :=
  o.get (entryKey storageName key)

/-- `current_fast_map_set`. -/
def setEntry (o : Overlay) (storageName key : Text) (value : CborObject) :
    Except String Overlay :=
  o.set (entryKey storageName key) value

/-- The integer under a name; anything else counts as zero. -/
def intOf (o : Overlay) (name : Text) : Except String Int64 := do
  let value ← o.get name
  if value.isInteger then value.forceAsInt else pure 0

/-- What the integer under a name counts for. -/
def held (o : Overlay) (name : Text) : ℤ := Token.orZero (o.intOf name)

/-- The accounts of a contract. -/
def accounts (o : Overlay) (symbol : Text) (owner : Address) : ℤ :=
  o.held (entryKey owner symbol)

/-- A deposit. -/
def credit (o : Overlay) (owner : Address) (symbol : Text) (amount : Int64) :
    Except String Overlay := do
  let balance ← o.intOf (entryKey owner symbol)
  o.setEntry owner symbol (.int (balance + amount))

end Overlay

/-- `withdraw_api` of a contract whose state was checked. The transfer out of the contract is made
by the chain, which may refuse it. -/
def withdraw (numerals : Numerals) (pays : Bool) (caller : Address) (arg : Text) (o : Overlay) :
    Except String ((Text × Int64) × Overlay) := do
  match splitArgs arg with
  | [amount, symbol] =>
    require (numerals.isIntegral amount) "argument format error, amount must be integral"
    let amount ← toInt64 amount
    require (0 < amount) "amount must > 0"
    require (symbol ≠ []) "symbol is empty"
    let balance ← o.entry caller symbol
    require balance.isInteger "no balance to withdraw"
    let bal ← balance.forceAsInt
    require (¬ bal < amount) "not enough balance to withdraw"
    let o ← o.setEntry caller symbol (if bal - amount = 0 then .null else .int (bal - amount))
    require pays "the transfer is refused"
    pure ((symbol, amount), o)
  | _ => .error "argument format error, need format: amount,symbol"

namespace Overlay

variable {o o' : Overlay} {name : Text} {n : Int64}

theorem held_of_intOf (h : o.intOf name = .ok n) : o.held name = n.toInt := by
  rw [held, h, Token.orZero]

variable {v value : CborObject} {amount : Int64}

theorem intOf_of_get (h : o.get name = .ok v) (hint : v.isInteger = true) :
    o.intOf name = v.forceAsInt := by
  rw [intOf, h]
  simp only [bind, Except.bind, hint, if_true]

theorem held_congr (h : o'.get name = o.get name) : o'.held name = o.held name := by
  rw [held, held, intOf, intOf, h]

theorem held_set_int (h : o.set name (.int n) = .ok o') :
    o'.held = Function.update o.held name (readInt n).toInt := by
  funext other
  by_cases hother : other = name
  · obtain ⟨w, hw, hint, hforce⟩ := get_set_int h
    rw [hother, Function.update_self, held_of_intOf]
    rw [intOf_of_get hw hint, hforce]
  · rw [Function.update_of_ne hother, held_congr (get_set_of_ne h hother)]

theorem held_set_null (h : o.set name .null = .ok o') : o'.held = Function.update o.held name 0 := by
  funext other
  by_cases hother : other = name
  · have hget := get_set h trivial (by simp [CborObject.integers])
    have hint : o'.intOf name = .ok 0 := by
      rw [intOf, hget]
      rfl
    rw [hother, Function.update_self, held_of_intOf hint]
    rfl
  · rw [Function.update_of_ne hother, held_congr (get_set_of_ne h hother)]

/-! ### The accounts -/

variable {owner : Address} {symbol : Text}

theorem accounts_of_held {v : ℤ} (h : o'.held = Function.update o.held (entryKey owner symbol) v) :
    o'.accounts = Function.update o.accounts symbol (Function.update (o.accounts symbol) owner v) := by
  funext s a
  have hkey : ∀ {t : Text} {b : Address}, entryKey b t = entryKey owner symbol →
      b = owner ∧ t = symbol := fun {t b} heq => by
    obtain ⟨hb, ht⟩ := entryKey_inj b.2.2 owner.2.2 heq
    exact ⟨Subtype.ext hb, ht⟩
  rw [accounts, h]
  by_cases hs : s = symbol
  · subst hs
    rw [Function.update_self]
    by_cases ha : a = owner
    · rw [ha, Function.update_self, Function.update_self]
    · rw [Function.update_of_ne fun heq => ha (hkey heq).1, Function.update_of_ne ha]
      rfl
  · rw [Function.update_of_ne fun heq => hs (hkey heq).2, Function.update_of_ne hs]
    rfl

theorem accounts_set_int (h : o.setEntry owner symbol (.int n) = .ok o') :
    o'.accounts = Function.update o.accounts symbol
      (Function.update (o.accounts symbol) owner (readInt n).toInt) :=
  accounts_of_held (held_set_int h)

theorem accounts_set_null (h : o.setEntry owner symbol .null = .ok o') :
    o'.accounts = Function.update o.accounts symbol
      (Function.update (o.accounts symbol) owner 0) :=
  accounts_of_held (held_set_null h)

theorem accounts_set_of_ne (h : o.set name value = .ok o') (hne : entryKey owner symbol ≠ name) :
    o'.accounts symbol owner = o.accounts symbol owner :=
  held_congr (get_set_of_ne h hne)

theorem hasTotal_accounts {v : ℤ} (h : o'.accounts = Function.update o.accounts symbol
      (Function.update (o.accounts symbol) owner v)) {asset : Text} {t : ℤ}
    (ht : HasTotal (o.accounts asset) t) : HasTotal (o'.accounts asset)
      (t + if symbol = asset then v - o.accounts symbol owner else 0) := by
  rw [h]
  by_cases hasset : symbol = asset
  · subst hasset
    rw [Function.update_self, if_pos rfl, add_sub, add_sub_right_comm]
    exact ht.update owner v
  · rw [Function.update_of_ne (Ne.symm hasset), if_neg hasset, add_zero]
    exact ht

/-- No account is negative. -/
def Nonneg (o : Overlay) : Prop := ∀ symbol owner, 0 ≤ o.accounts symbol owner

theorem Nonneg.set_int (ho : o.Nonneg) (h : o.set name (.int n) = .ok o') (hn : 0 ≤ n.toInt) :
    o'.Nonneg := by
  intro symbol owner
  rw [accounts, held_set_int h, readInt_of_nonneg hn]
  by_cases hname : entryKey owner symbol = name
  · rwa [hname, Function.update_self]
  · rw [Function.update_of_ne hname]
    exact ho symbol owner

theorem Nonneg.set_null (ho : o.Nonneg) (h : o.set name .null = .ok o') : o'.Nonneg := by
  intro symbol owner
  rw [accounts, held_set_null h]
  by_cases hname : entryKey owner symbol = name
  · rw [hname, Function.update_self]
  · rw [Function.update_of_ne hname]
    exact ho symbol owner

theorem Nonneg.set_of_ne (ho : o.Nonneg) (h : o.set name value = .ok o')
    (hne : ∀ owner : Address, ∀ symbol, entryKey owner symbol ≠ name) : o'.Nonneg := by
  intro symbol owner
  rw [accounts_set_of_ne h (hne owner symbol)]
  exact ho symbol owner

theorem credit_eq_ok (h : o.credit owner symbol amount = .ok o') :
    ∃ bal : Int64, o.accounts symbol owner = bal.toInt ∧
      o.setEntry owner symbol (.int (bal + amount)) = .ok o' := by
  simp only [credit, bind_eq_ok] at h
  obtain ⟨bal, hbal, hset⟩ := h
  exact ⟨bal, held_of_intOf hbal, hset⟩

theorem accounts_lt (o : Overlay) (symbol : Text) (owner : Address) :
    o.accounts symbol owner < 2 ^ 63 := by
  rw [accounts, held]
  cases o.intOf (entryKey owner symbol) with
  | ok n => exact n.toInt_lt
  | error e => exact (by decide : (0 : ℤ) < 2 ^ 63)

theorem accounts_credit (h : o.credit owner symbol amount = .ok o') (ho : o.Nonneg)
    (hpos : 0 < amount.toInt) (hlt : o.accounts symbol owner + amount.toInt < 2 ^ 63) :
    o'.Nonneg ∧ o'.accounts = Function.update o.accounts symbol
      (Function.update (o.accounts symbol) owner (o.accounts symbol owner + amount.toInt)) := by
  obtain ⟨bal, hbal, hset⟩ := credit_eq_ok h
  have hnonneg := ho symbol owner
  have hsum : (bal + amount).toInt = o.accounts symbol owner + amount.toInt := by
    rw [Word.toInt_add_of_lt (by omega) (by omega), hbal]
  refine ⟨ho.set_int hset (by omega), ?_⟩
  rw [accounts_set_int hset, readInt_of_nonneg (by omega), hsum]

/-! ### Names that are not entries -/

/-- The names that are not entries are unchanged. -/
def Frame (o o' : Overlay) : Prop := ∀ name, 46 ∉ name → o'.get name = o.get name

theorem Frame.refl (o : Overlay) : o.Frame o := fun _ _ => rfl

theorem Frame.trans {o₁ o₂ : Overlay} (h : o.Frame o₁) (h' : o₁.Frame o₂) : o.Frame o₂ :=
  fun name hname => (h' name hname).trans (h name hname)

theorem frame_setEntry {a k : Text} (h : o.setEntry a k v = .ok o') :
    o.Frame o' := fun _ hname =>
  get_set_of_ne h (ne_entryKey hname a k)

theorem Frame.getString (h : o.Frame o') (hname : 46 ∉ name) :
    o'.getString name = o.getString name :=
  getString_congr (h name hname)

theorem Frame.getInt (h : o.Frame o') (hname : 46 ∉ name) : o'.getInt name = o.getInt name :=
  getInt_congr (h name hname)

end Overlay

theorem withdraw_eq_ok (h : withdraw numerals pays caller arg o = .ok (paid, o')) :
    ∃ bal : Int64, o.accounts paid.1 caller = bal.toInt ∧ 0 < paid.2.toInt ∧
      paid.2.toInt ≤ bal.toInt ∧ o.setEntry caller paid.1
        (if bal - paid.2 = 0 then .null else .int (bal - paid.2)) = .ok o' := by
  unfold withdraw at h
  split at h
  · simp only [bind_eq_ok, require_eq_ok, exists_const, pure_eq_ok, Prod.mk.injEq] at h
    obtain ⟨-, amount, -, hpos, -, balance, hbalance, hint, bal, hbal, hle, o₁, hset, -, rfl, rfl⟩ :=
      h
    rw [Int64.lt_iff_toInt_lt, Int64.toInt_zero] at hpos
    rw [Int64.lt_iff_toInt_lt, not_lt] at hle
    refine ⟨bal, Overlay.held_of_intOf ?_, hpos, hle, hset⟩
    rw [Overlay.intOf_of_get hbalance hint, hbal]
  · simp at h

/-- **The accounts after a withdrawal.** -/
theorem accounts_withdraw (h : withdraw numerals pays caller arg o = .ok (paid, o')) (ho : o.Nonneg)
    :
    o'.Nonneg ∧ o'.accounts = Function.update o.accounts paid.1
      (Function.update (o.accounts paid.1) caller
        (o.accounts paid.1 caller - paid.2.toInt)) := by
  obtain ⟨bal, hbal, hpos, hle, hset⟩ := withdraw_eq_ok h
  have hlt := bal.toInt_lt
  have hdiff : (bal - paid.2).toInt = bal.toInt - paid.2.toInt :=
    Word.toInt_sub_of_le (by omega) (by omega)
  rw [hbal, ← hdiff]
  split at hset
  · rename_i hzero
    rw [hzero]
    exact ⟨ho.set_null hset, Overlay.accounts_set_null hset⟩
  · refine ⟨ho.set_int hset (by omega), ?_⟩
    rw [Overlay.accounts_set_int hset, Overlay.readInt_of_nonneg (by omega)]

end Whitecoin.Native
