import Whitecoin.Lib.Safe
import Mathlib.Logic.Function.Basic

/-!
# Balances and supplies

The balance objects of the chain and the supply of each asset, with the functions of the database
that change them. A balance object holds what its owner may spend and, apart from it, what is
frozen for guarantee orders. An address that never held an asset has no object for it; it is
created with the first credit.
-/

namespace Whitecoin.Ledger

open Check

/-- Addresses; `0` is the empty address `address()`. -/
abbrev Address := ℕ

/-- Assets; `0` is the core asset. -/
abbrev AssetId := ℕ

structure BalanceObject where
  balance : ℤ
  frozen : ℤ
  deriving DecidableEq

structure Accounts where
  objects : Address → AssetId → Option BalanceObject
  /-- `current_supply` of the dynamic data of each asset. -/
  currentSupply : AssetId → ℤ

namespace Accounts

variable {l l' : Accounts} {addr : Address} {asset : AssetId} {delta : ℤ} {freeze : Bool}

/-- `get_balance`. -/
def balance (l : Accounts) (addr : Address) (asset : AssetId) : ℤ :=
  ((l.objects addr asset).map (·.balance)).getD 0

def frozen (l : Accounts) (addr : Address) (asset : AssetId) : ℤ :=
  ((l.objects addr asset).map (·.frozen)).getD 0

/-- Create or replace the object of `addr` for `asset`. -/
def put (l : Accounts) (addr : Address) (asset : AssetId) (b : BalanceObject) : Accounts :=
  { l with
    objects := Function.update l.objects addr
      (Function.update (l.objects addr) asset (some b)) }

theorem objects_put (l : Accounts) (addr : Address) (asset : AssetId) (b : BalanceObject)
    (a : Address) (i : AssetId) :
    (l.put addr asset b).objects a i = if a = addr ∧ i = asset then some b else l.objects a i := by
  by_cases ha : a = addr
  · subst ha
    by_cases hi : i = asset
    · subst hi
      simp [put]
    · simp [put, hi]
  · simp [put, ha]

/-- The check before a debit. -/
def requireCovered (available delta : ℤ) : Except String Unit :=
  if delta < 0 then do require ((← Safe.neg delta) ≤ available) "Insufficient Balance"
  else .ok ()

theorem requireCovered_eq_ok {available delta : ℤ} {u : Unit}
    (h : requireCovered available delta = .ok u) : 0 ≤ available + delta ∨ 0 ≤ delta := by
  unfold requireCovered at h
  split at h
  · simp only [bind_eq_ok, require_eq_ok] at h
    obtain ⟨m, hm, hle⟩ := h
    have := Safe.neg_eq_ok hm
    omega
  · omega

/-- `database::adjust_balance`. A credit that creates the object leaves nothing frozen, whatever
`freeze` says. -/
def adjustBalance (l : Accounts) (addr : Address) (asset : AssetId) (delta : ℤ) (freeze : Bool) :
    Except String Accounts :=
  if delta = 0 then .ok l else do
    require (addr ≠ 0) "invalid address."
    match l.objects addr asset with
    | none => do
      require (0 < delta) "Insufficient Balance"
      return l.put addr asset ⟨delta, 0⟩
    | some b => do
      requireCovered b.balance delta
      let balance ← Safe.add b.balance delta
      let frozen ← (if freeze then Safe.sub b.frozen delta else .ok b.frozen)
      return l.put addr asset ⟨balance, frozen⟩

/-- `database::adjust_frozen`. -/
def adjustFrozen (l : Accounts) (addr : Address) (asset : AssetId) (delta : ℤ) :
    Except String Accounts := do
  require (addr ≠ 0) "invalid address."
  if delta = 0 then return l else
    let b ← found (l.objects addr asset) "address has no this asset."
    requireCovered b.frozen delta
    return l.put addr asset ⟨b.balance, ← Safe.add b.frozen delta⟩

/-- `database::cancel_frozen`. -/
def cancelFrozen (l : Accounts) (addr : Address) (asset : AssetId) (delta : ℤ) :
    Except String Accounts := do
  require (addr ≠ 0) "invalid address."
  let b ← found (l.objects addr asset) "address has no this asset."
  return l.put addr asset ⟨← Safe.add b.balance delta, ← Safe.sub b.frozen delta⟩

/-- `current_supply += amount`. -/
def raiseSupply (l : Accounts) (asset : AssetId) (amount : ℤ) : Except String Accounts := do
  let supply ← Safe.add (l.currentSupply asset) amount
  return { l with currentSupply := Function.update l.currentSupply asset supply }

/-- `current_supply -= amount`. -/
def lowerSupply (l : Accounts) (asset : AssetId) (amount : ℤ) : Except String Accounts := do
  let supply ← Safe.sub (l.currentSupply asset) amount
  return { l with currentSupply := Function.update l.currentSupply asset supply }

theorem balance_put (l : Accounts) (addr : Address) (asset : AssetId) (b : BalanceObject)
    (a : Address) (i : AssetId) :
    (l.put addr asset b).balance a i =
      if a = addr ∧ i = asset then b.balance else l.balance a i := by
  unfold balance
  rw [objects_put]
  split <;> rfl

theorem frozen_put (l : Accounts) (addr : Address) (asset : AssetId) (b : BalanceObject)
    (a : Address) (i : AssetId) :
    (l.put addr asset b).frozen a i =
      if a = addr ∧ i = asset then b.frozen else l.frozen a i := by
  unfold frozen
  rw [objects_put]
  split <;> rfl

theorem adjustBalance_cases (h : l.adjustBalance addr asset delta freeze = .ok l')
    (hd : delta ≠ 0) :
    (l.objects addr asset = none ∧ 0 < delta ∧ l' = l.put addr asset ⟨delta, 0⟩) ∨
    ∃ b, l.objects addr asset = some b ∧ (0 ≤ b.balance + delta ∨ 0 ≤ delta) ∧
      l' = l.put addr asset ⟨b.balance + delta, if freeze then b.frozen - delta else b.frozen⟩ := by
  rw [adjustBalance, if_neg hd] at h
  simp only [bind_eq_ok, require_eq_ok, exists_and_left, exists_const] at h
  obtain ⟨-, h⟩ := h
  cases hobj : l.objects addr asset with
  | none =>
    rw [hobj] at h
    simp only [bind_eq_ok, require_eq_ok, exists_and_left, exists_const, pure_eq_ok] at h
    exact .inl ⟨rfl, h.1, h.2.symm⟩
  | some b =>
    rw [hobj] at h
    simp only [bind_eq_ok, pure_eq_ok] at h
    obtain ⟨_, hcov, balance, hbal, frozen, hfr, rfl⟩ := h
    refine .inr ⟨b, rfl, requireCovered_eq_ok hcov, ?_⟩
    have hfrozen : frozen = if freeze then b.frozen - delta else b.frozen := by
      cases freeze with
      | true => exact Safe.sub_eq_ok hfr
      | false => exact (Except.ok.inj hfr).symm
    rw [Safe.add_eq_ok hbal, hfrozen]

/-- **A debit that the balance covers does not fail for lack of it**, whatever else it fails for. -/
theorem adjustBalance_ne_insufficient (h : 0 ≤ l.balance addr asset + delta ∨ 0 ≤ delta) :
    l.adjustBalance addr asset delta false ≠ .error "Insufficient Balance" := by
  unfold adjustBalance
  split
  next =>
    intro he
    cases he
  next hd =>
    refine bind_ne_error (require_ne_error (.inr (by decide))) fun _ _ => ?_
    cases hobj : l.objects addr asset with
    | none =>
      have hbalance : l.balance addr asset = 0 := by rw [balance, hobj]; rfl
      refine bind_ne_error (require_ne_error (.inl (by omega))) fun _ _ => ?_
      intro he
      cases he
    | some b =>
      have hbalance : l.balance addr asset = b.balance := by rw [balance, hobj]; rfl
      refine bind_ne_error ?_ fun _ _ => bind_ne_error (Safe.add_ne_error (by decide) (by decide))
        fun _ _ => ?_
      · unfold requireCovered
        split
        next hneg =>
          refine bind_ne_error (Safe.neg_ne_error (by decide)) fun m hm => ?_
          have := Safe.neg_eq_ok hm
          exact require_ne_error (.inl (by omega))
        next =>
          intro he
          cases he
      · intro he
        cases he

/-- **A returned `adjust_balance` changes one balance, by exactly its delta.** -/
theorem balance_adjustBalance (h : l.adjustBalance addr asset delta freeze = .ok l')
    (a : Address) (i : AssetId) :
    l'.balance a i = l.balance a i + if a = addr ∧ i = asset then delta else 0 := by
  by_cases hd : delta = 0
  · rw [adjustBalance, if_pos hd] at h
    obtain rfl := Except.ok.inj h
    simp [hd]
  · obtain ⟨hobj, -, rfl⟩ | ⟨b, hobj, -, rfl⟩ := adjustBalance_cases h hd
    all_goals
      rw [balance_put]
      split
      next hai => simp [hai, balance, hobj]
      next => simp

theorem exists_covered {available : ℤ} (hmin : Safe.min < delta)
    (hcovered : 0 ≤ available + delta ∨ 0 ≤ delta) (hroom : 0 < delta → available + delta ≤ Safe.max) :
    requireCovered available delta = .ok () ∧
      Safe.add available delta = .ok (available + delta) := by
  refine ⟨?_, ?_⟩
  · by_cases hneg : delta < 0
    · exact (if_pos hneg).trans (bind_eq_ok.mpr ⟨-delta, if_neg hmin.ne',
        require_eq_ok.mpr (by omega)⟩)
    · exact if_neg hneg
  · unfold Safe.add
    rw [if_neg (by omega), if_neg (by unfold Safe.min; omega)]

theorem exists_adjustBalance (l : Accounts) (asset : AssetId) (haddr : addr ≠ 0)
    (hmin : Safe.min < delta) (hcovered : 0 ≤ l.balance addr asset + delta ∨ 0 ≤ delta)
    (hroom : 0 < delta → l.balance addr asset + delta ≤ Safe.max) :
    ∃ l', l.adjustBalance addr asset delta false = .ok l' := by
  unfold adjustBalance
  split
  next => exact ⟨l, rfl⟩
  next hd =>
    have haddr : require (addr ≠ 0) "invalid address." = .ok () := require_eq_ok.mpr haddr
    cases hobj : l.objects addr asset with
    | none =>
      have hbalance : l.balance addr asset = 0 := by rw [balance, hobj]; rfl
      exact ⟨_, bind_eq_ok.mpr ⟨(), haddr, bind_eq_ok.mpr
        ⟨(), require_eq_ok.mpr (by omega), rfl⟩⟩⟩
    | some b =>
      have hbalance : l.balance addr asset = b.balance := by rw [balance, hobj]; rfl
      rw [hbalance] at hcovered hroom
      obtain ⟨hcheck, hadd⟩ := exists_covered hmin hcovered hroom
      exact ⟨_, bind_eq_ok.mpr ⟨(), haddr, bind_eq_ok.mpr ⟨(), hcheck, bind_eq_ok.mpr
        ⟨_, hadd, rfl⟩⟩⟩⟩

theorem exists_adjustFrozen (l : Accounts) (asset : AssetId) (haddr : addr ≠ 0)
    (hmin : Safe.min < delta) (hneg : delta < 0) (hcovered : 0 ≤ l.frozen addr asset + delta) :
    ∃ l', l.adjustFrozen addr asset delta = .ok l' := by
  cases hobj : l.objects addr asset with
  | none =>
    have hfrozen : l.frozen addr asset = 0 := by rw [frozen, hobj]; rfl
    omega
  | some b =>
    have hfrozen : l.frozen addr asset = b.frozen := by rw [frozen, hobj]; rfl
    rw [hfrozen] at hcovered
    obtain ⟨hcheck, hadd⟩ := exists_covered hmin (.inl hcovered) (by omega)
    simp only [adjustFrozen, if_neg hneg.ne, hobj, found, ok_bind, hcheck, hadd]
    exact ⟨_, bind_eq_ok.mpr ⟨(), require_eq_ok.mpr haddr, rfl⟩⟩

theorem frozen_adjustBalance (h : l.adjustBalance addr asset delta freeze = .ok l')
    (hdebit : freeze = true → delta < 0) (a : Address) (i : AssetId) :
    l'.frozen a i = l.frozen a i - if freeze ∧ a = addr ∧ i = asset then delta else 0 := by
  by_cases hd : delta = 0
  · rw [adjustBalance, if_pos hd] at h
    obtain rfl := Except.ok.inj h
    simp [hd]
  · obtain ⟨hobj, hpos, rfl⟩ | ⟨b, hobj, -, rfl⟩ := adjustBalance_cases h hd
    · -- only a credit creates an object
      have hfreeze : freeze = false := by
        by_contra hfreeze
        have := hdebit (Bool.not_eq_false _ ▸ hfreeze)
        omega
      rw [frozen_put]
      split
      next hai => simp [hai, frozen, hobj, hfreeze]
      next hai => simp [hai]
    · rw [frozen_put]
      split
      next hai => cases freeze <;> simp [hai, frozen, hobj]
      next hai => simp [hai]

theorem adjustFrozen_eq_ok (h : l.adjustFrozen addr asset delta = .ok l') :
    l' = l ∧ delta = 0 ∨ ∃ b, l.objects addr asset = some b ∧
      l' = l.put addr asset ⟨b.balance, b.frozen + delta⟩ := by
  simp only [adjustFrozen, bind_eq_ok, require_eq_ok, exists_and_left, exists_const] at h
  obtain ⟨-, h⟩ := h
  split at h
  next hd => exact .inl ⟨(pure_eq_ok.mp h).symm, hd⟩
  next hd =>
    simp only [bind_eq_ok, found_eq_ok, pure_eq_ok] at h
    obtain ⟨b, hb, _, -, frozen, hfrozen, rfl⟩ := h
    exact .inr ⟨b, hb, by rw [Safe.add_eq_ok hfrozen]⟩

theorem frozen_adjustFrozen (h : l.adjustFrozen addr asset delta = .ok l') (a : Address)
    (i : AssetId) :
    l'.frozen a i = l.frozen a i + if a = addr ∧ i = asset then delta else 0 := by
  obtain ⟨rfl, rfl⟩ | ⟨b, hobj, rfl⟩ := adjustFrozen_eq_ok h
  · simp
  · rw [frozen_put]
    split
    next hai => simp [hai, frozen, hobj]
    next => simp

theorem balance_adjustFrozen (h : l.adjustFrozen addr asset delta = .ok l') (a : Address)
    (i : AssetId) : l'.balance a i = l.balance a i := by
  obtain ⟨rfl, -⟩ | ⟨b, hobj, rfl⟩ := adjustFrozen_eq_ok h
  · rfl
  · rw [balance_put]
    split
    next hai => simp [hai, balance, hobj]
    next => rfl

theorem frozen_cancelFrozen (h : l.cancelFrozen addr asset delta = .ok l') (a : Address)
    (i : AssetId) :
    l'.frozen a i = l.frozen a i - if a = addr ∧ i = asset then delta else 0 := by
  simp only [cancelFrozen, bind_eq_ok, require_eq_ok, found_eq_ok, exists_and_left, exists_const,
    pure_eq_ok] at h
  obtain ⟨-, b, hobj, balance, -, frozen', hfrozen, rfl⟩ := h
  rw [frozen_put, Safe.sub_eq_ok hfrozen]
  split
  next hai => simp [hai, frozen, hobj]
  next => simp

theorem currentSupply_adjustBalance (h : l.adjustBalance addr asset delta freeze = .ok l') :
    l'.currentSupply = l.currentSupply := by
  by_cases hd : delta = 0
  · rw [adjustBalance, if_pos hd] at h
    exact congrArg _ (Except.ok.inj h).symm
  · obtain ⟨-, -, rfl⟩ | ⟨b, -, -, rfl⟩ := adjustBalance_cases h hd <;> rfl

theorem raiseSupply_eq_ok {amount : ℤ} (h : l.raiseSupply asset amount = .ok l') :
    l' = { l with
      currentSupply := Function.update l.currentSupply asset (l.currentSupply asset + amount) } := by
  simp only [raiseSupply, bind_eq_ok, pure_eq_ok] at h
  obtain ⟨supply, hs, rfl⟩ := h
  rw [Safe.add_eq_ok hs]

theorem lowerSupply_eq_ok {amount : ℤ} (h : l.lowerSupply asset amount = .ok l') :
    l' = { l with
      currentSupply := Function.update l.currentSupply asset (l.currentSupply asset - amount) } := by
  simp only [lowerSupply, bind_eq_ok, pure_eq_ok] at h
  obtain ⟨supply, hs, rfl⟩ := h
  rw [Safe.sub_eq_ok hs]

end Accounts

end Whitecoin.Ledger
