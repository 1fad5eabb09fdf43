import Whitecoin.Lib.Journal
import Whitecoin.Fees.Asset

/-!
# Fees and guarantee orders

How an operation pays its fee. Usually the payer pays in the core asset. A payer who has none can
name a *guarantee order* instead: its owner has frozen an amount of the core asset (`asset_orign`)
and offers it for an amount of another one (`asset_target`). The fee is then taken from what the
owner has frozen, and the payer gives the owner what the fee is worth at the ratio of the order. The
order adds up what its owner received, in `asset_finished`.

Operations on contracts pay for all the gas they may use, and get back what they did not use, on
the way they paid (`contract_common_evaluate::pay_fee_and_refund`).

An order never becomes finished by a payment. A payment that fills it sets the flag, and the
transaction is then refused when it is entered in the records of the order, because the order is
finished.
-/

namespace Whitecoin.Fees

open Check Ledger

abbrev TrxId := ℕ

/-- The instance of a `guarantee_object_id_type`. -/
abbrev GuaranteeId := ℕ

structure GuaranteeObject where
  ownerAddr : Address
  assetOrign : Asset
  assetTarget : Asset
  assetFinished : Asset
  records : List TrxId
  finished : Bool
  orign_pos : 0 < assetOrign.amount
  target_pos : 0 < assetTarget.amount
  finished_id : assetFinished.assetId = assetTarget.assetId
  finished_le : assetFinished.amount ≤ assetTarget.amount
  deriving DecidableEq

namespace GuaranteeObject

/-- The price at which an order changes its two assets. -/
def price (g : GuaranteeObject) : Price := ⟨g.assetOrign, g.assetTarget⟩

/-- The order with another total, which is finished if nothing is missing. -/
def advance (g : GuaranteeObject) (total : Asset) : Except String GuaranteeObject :=
  if hid : total.assetId = g.assetTarget.assetId then
    if hle : total.amount ≤ g.assetTarget.amount then
      .ok { g with
        assetFinished := total
        finished := decide (total.amount = g.assetTarget.amount)
        finished_id := hid
        finished_le := hle }
    else .error "balance of guarantee order is not enough"
  else .error "a.asset_id == b.asset_id"

/-- The order with one more transaction in its records. -/
def record (g : GuaranteeObject) (trx : TrxId) : GuaranteeObject :=
  { g with records := g.records.insert trx }

/-- The order is the same, except for its total and its records. -/
structure Same (g g' : GuaranteeObject) : Prop where
  ownerAddr : g'.ownerAddr = g.ownerAddr
  assetOrign : g'.assetOrign = g.assetOrign
  assetTarget : g'.assetTarget = g.assetTarget

theorem advance_eq_ok {g g' : GuaranteeObject} {total : Asset} (h : g.advance total = .ok g') :
    Same g g' ∧ g'.assetFinished = total := by
  unfold advance at h
  split at h
  · split at h
    · obtain rfl := Except.ok.inj h
      exact ⟨⟨rfl, rfl, rfl⟩, rfl⟩
    · cases h
  · cases h

end GuaranteeObject

structure FeeState where
  accounts : Accounts
  /-- The orders by instance. -/
  guarantees : List GuaranteeObject
  /-- `_total_collected_fees`. -/
  collected : AssetId → ℤ

namespace FeeState

def adjustBalance (s : FeeState) (addr : Address) (a : Asset) : Except String FeeState := do
  return { s with accounts := ← s.accounts.adjustBalance addr a.assetId a.amount false }

def adjustFrozen (s : FeeState) (addr : Address) (a : Asset) : Except String FeeState := do
  return { s with accounts := ← s.accounts.adjustFrozen addr a.assetId a.amount }

def cancelFrozen (s : FeeState) (addr : Address) (a : Asset) : Except String FeeState := do
  return { s with accounts := ← s.accounts.cancelFrozen addr a.assetId a.amount }

/-- `modify_current_collected_fee`. -/
def collect (s : FeeState) (a : Asset) : Except String FeeState := do
  let total ← Safe.add (s.collected a.assetId) a.amount
  return { s with collected := Function.update s.collected a.assetId total }

def getGuarantee (s : FeeState) (id : GuaranteeId) : Except String GuaranteeObject :=
  found s.guarantees[id]? "get(id)"

def setGuarantee (s : FeeState) (id : GuaranteeId) (g : GuaranteeObject) : FeeState :=
  { s with guarantees := s.guarantees.set id g }

/-- `database::adjust_guarantee`. -/
def adjustGuarantee (s : FeeState) (id : GuaranteeId) (a : Asset) : Except String FeeState := do
  let g ← s.getGuarantee id
  require (g.finished = false) "guarantee order has been finished"
  return s.setGuarantee id (← g.advance (← g.assetFinished.add a))

/-- `database::record_guarantee`. -/
def recordGuarantee (s : FeeState) (id : GuaranteeId) (trx : TrxId) : Except String FeeState := do
  let g ← s.getGuarantee id
  require (g.finished = false) "guarantee order has been finished"
  return s.setGuarantee id (g.record trx)

end FeeState

/-! ### Taking the fee -/

/-- The branch of `evaluator::apply` for an operation that names an order. -/
def payByGuarantee (payer : Address) (fee : Asset) (trx : TrxId) (id : GuaranteeId)
    (s : FeeState) : Except String FeeState := do
  let g ← s.getGuarantee id
  require (g.finished = false) "guarantee order has been finished"
  let feeNeedPay ← fee.mul g.price
  let s ← s.adjustBalance payer (← feeNeedPay.neg)
  require (0 < fee.amount) "fee cost should exceed 0"
  let s ← s.adjustFrozen g.ownerAddr (← fee.neg)
  let s ← s.adjustGuarantee id feeNeedPay
  let s ← s.recordGuarantee id trx
  s.adjustBalance g.ownerAddr feeNeedPay

/-- What `evaluator::apply` does between `do_apply` and `pay_fee`. A fee in another asset than the
core asset is not taken from anybody. -/
def chargeFee (payer : Address) (fee : Asset) (guarantee : Option GuaranteeId) (trx : TrxId)
    (s : FeeState) : Except String FeeState :=
  match guarantee with
  | none => if fee.assetId = 0 then do s.adjustBalance payer (← fee.neg) else .ok s
  | some id => payByGuarantee payer fee trx id s

/-- The refund to an order in `pay_fee_and_refund`. -/
def refundByGuarantee (caller : Address) (unspent : Asset) (id : GuaranteeId) (s : FeeState) :
    Except String FeeState := do
  let g ← s.getGuarantee id
  require (g.finished = false) "guarantee order has been finished"
  let unspentToReturn ← unspent.mul g.price
  let s ← s.adjustFrozen g.ownerAddr unspent
  let s ← s.adjustGuarantee id (← unspentToReturn.neg)
  let s ← s.adjustBalance g.ownerAddr (← unspentToReturn.neg)
  s.adjustBalance caller unspentToReturn

/-- The refund in `contract_common_evaluate::pay_fee_and_refund`, in the core asset. The order is
the one of the operation that the evaluator kept, if it kept one. -/
def refundUnspent (caller : Address) (unspent : Asset) (guarantee : Option GuaranteeId)
    (trx : TrxId) (s : FeeState) : Except String FeeState :=
  match guarantee with
  | none => if unspent.amount ≠ 0 then s.adjustBalance caller unspent else .ok s
  | some id => do
    let s ← (if unspent.amount ≠ 0 then refundByGuarantee caller unspent id s else .ok s)
    s.recordGuarantee id trx

/-- `contract_common_evaluate::pay_fee_and_refund`, with the fees of the transfers that the contract
made. -/
def payFeeAndRefund (caller : Address) (totalFee unspent : Asset) (transferFees : List Asset)
    (guarantee : Option GuaranteeId) (trx : TrxId) (s : FeeState) : Except String FeeState := do
  let s ← refundUnspent caller unspent guarantee trx s
  let s ← s.collect (← Asset.of (totalFee.amount - unspent.amount) 0)
  transferFees.foldlM FeeState.collect s

/-! ### What a payment and a refund do to an order -/

variable {s s' : FeeState} {id : GuaranteeId} {g : GuaranteeObject} {a fee unspent : Asset}
  {payer caller addr : Address} {trx : TrxId}

theorem adjustBalance_eq_ok (h : s.adjustBalance addr a = .ok s') :
    ∃ l, s.accounts.adjustBalance addr a.assetId a.amount false = .ok l ∧
      s' = { s with accounts := l } := by
  simp only [FeeState.adjustBalance, bind_eq_ok, pure_eq_ok] at h
  obtain ⟨l, hl, rfl⟩ := h
  exact ⟨l, hl, rfl⟩

theorem adjustFrozen_eq_ok (h : s.adjustFrozen addr a = .ok s') :
    ∃ l, s.accounts.adjustFrozen addr a.assetId a.amount = .ok l ∧
      s' = { s with accounts := l } := by
  simp only [FeeState.adjustFrozen, bind_eq_ok, pure_eq_ok] at h
  obtain ⟨l, hl, rfl⟩ := h
  exact ⟨l, hl, rfl⟩

/-- The order stays open: `x` is taken from what is frozen for it, it counts `y` more, and some
amount goes from a party to the owner. Payments and refunds are such steps. -/
structure Draws (party : Address) (id : GuaranteeId) (g : GuaranteeObject) (x y : ℤ)
    (s s' : FeeState) : Prop where
  find : s.guarantees[id]? = some g
  unfinished : g.finished = false
  moved : ∃ g', s'.guarantees = s.guarantees.set id g' ∧ g.Same g' ∧ g'.finished = false ∧
    g'.assetFinished.amount = g.assetFinished.amount + y
  frozen : ∀ a i, s'.accounts.frozen a i = s.accounts.frozen a i -
    if a = g.ownerAddr ∧ i = g.assetOrign.assetId then x else 0
  balance : ∃ j n, ∀ a i, s'.accounts.balance a i =
    s.accounts.balance a i + Payment.effect ⟨party, g.ownerAddr, j, n, 0⟩ a i

theorem adjustGuarantee_eq_ok (h : s.adjustGuarantee id a = .ok s')
    (hg : s.guarantees[id]? = some g) :
    g.assetFinished.assetId = a.assetId ∧ s'.accounts = s.accounts ∧
      ∃ g', s'.guarantees = s.guarantees.set id g' ∧ g.Same g' ∧
        g'.assetFinished.amount = g.assetFinished.amount + a.amount := by
  simp only [FeeState.adjustGuarantee, FeeState.getGuarantee, bind_eq_ok, found_eq_ok,
    require_eq_ok, exists_and_left, exists_const, pure_eq_ok] at h
  obtain ⟨g₀, hg₀, -, total, htotal, g', hadvance, rfl⟩ := h
  obtain rfl := Option.mem_unique hg hg₀
  obtain ⟨hsame, hfinished⟩ := GuaranteeObject.advance_eq_ok hadvance
  obtain ⟨hid, hamount, -⟩ := Asset.add_eq_ok.mp htotal
  exact ⟨hid, rfl, g', rfl, hsame, (congrArg Asset.amount hfinished).trans hamount⟩

theorem recordGuarantee_eq_ok (h : s.recordGuarantee id trx = .ok s')
    (hg : s.guarantees[id]? = some g) :
    g.finished = false ∧ s'.accounts = s.accounts ∧
      s'.guarantees = s.guarantees.set id (g.record trx) := by
  simp only [FeeState.recordGuarantee, FeeState.getGuarantee, bind_eq_ok, found_eq_ok,
    require_eq_ok, exists_and_left, exists_const, pure_eq_ok] at h
  obtain ⟨g₀, hg₀, hopen, rfl⟩ := h
  obtain rfl := Option.mem_unique hg hg₀
  exact ⟨hopen, rfl, rfl⟩

theorem moved_of_record {t : FeeState} {g' : GuaranteeObject} {y : ℤ}
    (h : t.recordGuarantee id trx = .ok s') (hg : s.guarantees[id]? = some g)
    (ht : t.guarantees = s.guarantees.set id g') (hsame : g.Same g')
    (hy : g'.assetFinished.amount = g.assetFinished.amount + y) :
    s'.accounts = t.accounts ∧
      ∃ g'', s'.guarantees = s.guarantees.set id g'' ∧ g.Same g'' ∧ g''.finished = false ∧
        g''.assetFinished.amount = g.assetFinished.amount + y := by
  have hlt : id < s.guarantees.length := (List.getElem?_eq_some_iff.mp hg).1
  obtain ⟨hopen, haccounts, hguarantees⟩ := recordGuarantee_eq_ok h
    (by rw [ht, List.getElem?_set_self hlt])
  refine ⟨haccounts, g'.record trx, ?_, ⟨hsame.1, hsame.2, hsame.3⟩, hopen, hy⟩
  rw [hguarantees, ht, List.set_set]

/-- What an order converts is of the asset that it offers, if the result is counted. -/
theorem mul_price_eq_ok {a c : Asset} (h : a.mul g.price = .ok c)
    (hid : g.assetFinished.assetId = c.assetId) :
    a.assetId = g.assetOrign.assetId ∧ 0 ≤ a.amount ∧
      c.amount = a.amount * g.assetTarget.amount / g.assetOrign.amount := by
  rw [g.finished_id] at hid
  unfold Asset.mul at h
  split at h
  next hbase =>
    obtain ⟨hnonneg, -, -, hamount⟩ := Asset.convert_eq_ok g.target_pos h
    exact ⟨hbase, hnonneg, hamount⟩
  next hbase =>
    split at h
    next hquote =>
      -- the result is of the asset that is offered, and the order counts the other one
      obtain ⟨-, -, hbase', -⟩ := Asset.convert_eq_ok g.orign_pos h
      exact absurd (hquote.trans (hid.trans hbase')) hbase
    next => cases h

theorem balance_effect (a source target : Address) (i j : AssetId) (n m : ℤ) :
    m + (if a = source ∧ i = j then -n else 0) + (if a = target ∧ i = j then n else 0) =
      m + Payment.effect ⟨source, target, j, n, 0⟩ a i := by
  unfold Payment.effect
  by_cases hi : i = j
  · simp only [hi, and_true, if_true]
    split_ifs <;> omega
  · simp [hi]

theorem payByGuarantee_eq_ok (h : payByGuarantee payer fee trx id s = .ok s') :
    ∃ g, 0 < fee.amount ∧ fee.assetId = g.assetOrign.assetId ∧
      Draws payer id g fee.amount (fee.amount * g.assetTarget.amount / g.assetOrign.amount) s
        s' := by
  simp only [payByGuarantee, FeeState.getGuarantee, bind_eq_ok, found_eq_ok, require_eq_ok,
    exists_and_left, exists_const] at h
  obtain ⟨g, hg, hopen, need, hneed, debit, hdebit, s₁, h₁, hpos, drawn, hdrawn, s₂, h₂, s₃, h₃, s₄,
    h₄, h₅⟩ := h
  obtain ⟨l₁, hl₁, rfl⟩ := adjustBalance_eq_ok h₁
  obtain ⟨l₂, hl₂, rfl⟩ := adjustFrozen_eq_ok h₂
  obtain ⟨hid, haccounts, g', hset, hsame, hfinished⟩ := adjustGuarantee_eq_ok h₃ hg
  obtain ⟨horign, -, hamount⟩ := mul_price_eq_ok hneed hid
  obtain ⟨haccounts', hmoved⟩ := moved_of_record h₄ hg hset hsame (hamount ▸ hfinished)
  obtain ⟨l₅, hl₅, rfl⟩ := adjustBalance_eq_ok h₅
  refine ⟨g, hpos, horign, hg, hopen, hmoved, fun a i => ?_, need.assetId, need.amount,
    fun a i => ?_⟩
  · obtain ⟨hdrawn, hdrawnId⟩ := Asset.neg_eq_ok.mp hdrawn
    have e₁ := Accounts.frozen_adjustBalance hl₁ (by simp) a i
    have e₂ := Accounts.frozen_adjustFrozen hl₂ a i
    have e₅ := Accounts.frozen_adjustBalance hl₅ (by simp) a i
    rw [haccounts', haccounts] at e₅
    rw [hdrawn, hdrawnId, horign] at e₂
    simp only [Bool.false_eq_true, false_and, if_false, Int.sub_zero] at e₁ e₅
    rw [e₅, e₂, e₁]
    split <;> omega
  · obtain ⟨hdebit, hdebitId⟩ := Asset.neg_eq_ok.mp hdebit
    have e₁ := Accounts.balance_adjustBalance hl₁ a i
    have e₂ := Accounts.balance_adjustFrozen hl₂ a i
    have e₅ := Accounts.balance_adjustBalance hl₅ a i
    rw [haccounts', haccounts] at e₅
    rw [hdebit, hdebitId] at e₁
    rw [e₅, e₂, e₁]
    exact balance_effect ..

theorem refundByGuarantee_eq_ok {t : FeeState} (h : refundByGuarantee caller unspent id s = .ok t)
    (h' : t.recordGuarantee id trx = .ok s') :
    ∃ g, unspent.assetId = g.assetOrign.assetId ∧
      Draws caller id g (-unspent.amount)
        (-(unspent.amount * g.assetTarget.amount / g.assetOrign.amount)) s s' := by
  simp only [refundByGuarantee, FeeState.getGuarantee, bind_eq_ok, found_eq_ok, require_eq_ok,
    exists_and_left, exists_const] at h
  obtain ⟨g, hg, hopen, back, hback, s₁, h₁, debit, hdebit, s₂, h₂, debit', hdebit', s₃, h₃, h₄⟩ :=
    h
  obtain ⟨l₁, hl₁, rfl⟩ := adjustFrozen_eq_ok h₁
  obtain ⟨hid, haccounts, g', hset, hsame, hfinished⟩ := adjustGuarantee_eq_ok h₂ hg
  obtain ⟨l₃, hl₃, rfl⟩ := adjustBalance_eq_ok h₃
  obtain ⟨l₄, hl₄, rfl⟩ := adjustBalance_eq_ok h₄
  obtain ⟨hdebit, hdebitId⟩ := Asset.neg_eq_ok.mp hdebit
  obtain ⟨horign, -, hamount⟩ := mul_price_eq_ok hback (hid.trans hdebitId)
  rw [hdebit, hamount] at hfinished
  obtain ⟨haccounts', hmoved⟩ := moved_of_record h' hg hset hsame hfinished
  refine ⟨g, horign, hg, hopen, hmoved, fun a i => ?_, back.assetId, -back.amount, fun a i => ?_⟩
  · have e₁ := Accounts.frozen_adjustFrozen hl₁ a i
    have e₃ := Accounts.frozen_adjustBalance hl₃ (by simp) a i
    have e₄ := Accounts.frozen_adjustBalance hl₄ (by simp) a i
    rw [haccounts] at e₃
    rw [horign] at e₁
    simp only [Bool.false_eq_true, false_and, if_false, Int.sub_zero] at e₃ e₄
    rw [haccounts', e₄, e₃, e₁]
    split <;> omega
  · obtain ⟨hdebit', hdebitId'⟩ := Asset.neg_eq_ok.mp hdebit'
    have e₁ := Accounts.balance_adjustFrozen hl₁ a i
    have e₃ := Accounts.balance_adjustBalance hl₃ a i
    have e₄ := Accounts.balance_adjustBalance hl₄ a i
    rw [haccounts] at e₃
    rw [hdebit', hdebitId'] at e₃
    rw [haccounts', e₄, e₃, e₁, ← balance_effect, Int.neg_neg, Int.add_right_comm]

end Whitecoin.Fees
