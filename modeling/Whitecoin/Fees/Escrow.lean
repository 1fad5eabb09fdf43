import Mathlib.Algebra.BigOperators.Intervals
import Mathlib.Algebra.Order.BigOperators.Group.Finset
import Whitecoin.Fees.Guarantee

/-!
# What is frozen for guarantee orders

The owner of an order freezes `asset_orign` when the order is created. Every fee that is paid
through the order is taken from what is frozen, and what is left should return when the order is
cancelled. What is frozen is kept for each owner and asset only, not for each order; so it should
always be the sum of what is left of the owner's open orders.

Creating an order, paying and refunding keep that sum to the unit. Cancelling does not look at what
was taken: it converts what the order *counts*, which was rounded down with each payment, back, and
rounds down again. Each payment that is not exact is returned to the owner, at least in part,
although it was spent, at the expense of the other orders or of a frozen amount that becomes
negative. And for an order between two amounts of one asset the conversion back goes in the wrong
direction.

If every conversion is exact the books agree. Then the order counts exactly what was taken, at its
price, and since it counts no more than it asks for, no more was taken than it offered.
-/

namespace Whitecoin.Fees

open Check Ledger Finset

/-! ### The operations -/

structure GuranteeCreateOp where
  fee : Asset
  ownerAddr : Address
  assetOrigin : Asset
  assetTarget : Asset

structure GuranteeCancelOp where
  fee : Asset
  ownerAddr : Address
  cancelGuaranteeId : GuaranteeId

/-- How an operation on a contract ends: the fee for the gas that was not used, and the fees of the
transfers that the contract made. Not every evaluator keeps the operation that it evaluates, and
with it the order that paid. -/
structure Refund where
  unspent : Asset
  transferFees : List Asset
  keepsOperation : Bool

/-- Any other operation. What it does itself leaves alone what is frozen. -/
structure OtherOp where
  payer : Address
  fee : Asset
  guaranteeId : Option GuaranteeId
  doApply : Accounts → Except String Accounts
  frozen_doApply : ∀ {l l'}, doApply l = .ok l' → ∀ a i, l'.frozen a i = l.frozen a i
  contract : Option Refund

inductive Operation where
  | create (o : GuranteeCreateOp)
  | cancel (o : GuranteeCancelOp)
  | other (o : OtherOp)

/-- What the chain shows when an operation is applied. -/
structure Context where
  trx : TrxId
  assetExists : AssetId → Bool
  skipFeeScheduleCheck : Bool
  /-- The fee that the schedule asks for the operation. -/
  requiredFee : ℤ

/-- `prepare_fee` and the check of the fee in `evaluator::evaluate`. -/
def prepareFee (c : Context) (fee : Asset) : Except String Unit := do
  require (0 ≤ fee.amount) "fee.amount >= 0"
  require (c.assetExists fee.assetId = true) "fee.asset_id(d)"
  require (c.skipFeeScheduleCheck = true ∨ c.requiredFee ≤ fee.amount) "Insufficient Fee Paid"

/-- `gurantee_create_evaluator::do_evaluate`, with the order that is then created. -/
def evaluateCreate (o : GuranteeCreateOp) (s : FeeState) : Except String GuaranteeObject := do
  let b ← found (s.accounts.objects o.ownerAddr o.assetOrigin.assetId)
    "balance_obj != balances.end()"
  require (o.assetOrigin.amount ≤ b.balance) "balance_obj->balance >= o.asset_origin"
  if horign : 0 < o.assetOrigin.amount then
    if htarget : 0 < o.assetTarget.amount then
      return {
        ownerAddr := o.ownerAddr
        assetOrign := o.assetOrigin
        assetTarget := o.assetTarget
        assetFinished := ⟨0, o.assetTarget.assetId, by decide⟩
        records := []
        finished := false
        orign_pos := horign
        target_pos := htarget
        finished_id := rfl
        finished_le := Int.le_of_lt htarget }
    else .error "o.asset_target.amount > 0"
  else .error "o.asset_origin.amount >0"

def guranteeCreate (c : Context) (o : GuranteeCreateOp) (s : FeeState) :
    Except String FeeState := do
  prepareFee c o.fee
  let g ← evaluateCreate o s
  let debit ← o.assetOrigin.neg
  let accounts ← s.accounts.adjustBalance o.ownerAddr debit.assetId debit.amount true
  let s := { s with accounts, guarantees := s.guarantees ++ [g] }
  let s ← chargeFee o.ownerAddr o.fee none c.trx s
  s.collect o.fee

/-- What `gurantee_cancel_evaluator::do_apply` returns to the owner. -/
def GuaranteeObject.left (g : GuaranteeObject) : Except String Asset := do
  g.assetOrign.sub (← g.assetFinished.mul g.price)

def guranteeCancel (c : Context) (o : GuranteeCancelOp) (s : FeeState) :
    Except String FeeState := do
  prepareFee c o.fee
  let g ← s.getGuarantee o.cancelGuaranteeId
  require (g.ownerAddr = o.ownerAddr) "gurantee_obj.owner_addr == o.owner_addr"
  require (g.finished = false) "gurantee_obj.finished == false"
  let s := s.setGuarantee o.cancelGuaranteeId { g with finished := true }
  let s ← s.cancelFrozen g.ownerAddr (← g.left)
  let s ← chargeFee o.ownerAddr o.fee none c.trx s
  s.collect o.fee

/-- `pay_fee`, in the version of the operation. -/
def OtherOp.payFee (o : OtherOp) (trx : TrxId) (s : FeeState) : Except String FeeState :=
  match o.contract with
  | none => s.collect o.fee
  | some r => payFeeAndRefund o.payer o.fee r.unspent r.transferFees
      (if r.keepsOperation then o.guaranteeId else none) trx s

def applyOther (c : Context) (o : OtherOp) (s : FeeState) : Except String FeeState := do
  prepareFee c o.fee
  let s := { s with accounts := ← o.doApply s.accounts }
  let s ← chargeFee o.payer o.fee o.guaranteeId c.trx s
  o.payFee c.trx s

def applyOperation (c : Context) (op : Operation) (s : FeeState) : Except String FeeState :=
  match op with
  | .create o => guranteeCreate c o s
  | .cancel o => guranteeCancel c o s
  | .other o => applyOther c o s

/-- The states after accepted operations that meet a condition. -/
inductive Reached (P : Operation → FeeState → Prop) (s₀ : FeeState) :
    List Operation → FeeState → Prop
  | start : Reached P s₀ [] s₀
  | step {done : List Operation} {s s' : FeeState} (c : Context) (op : Operation)
      (hs : Reached P s₀ done s) (hP : P op s) (h : applyOperation c op s = .ok s') :
      Reached P s₀ (done ++ [op]) s'

/-! ### What is left of the orders -/

/-- What an operation on a contract returns to the order that paid. -/
def OtherOp.refunded (o : OtherOp) : ℤ :=
  match o.contract with
  | some r => if r.keepsOperation then r.unspent.amount else 0
  | none => 0

/-- What an operation takes from an order. -/
def Operation.draws (id : GuaranteeId) : Operation → ℤ
  | .other o => if o.guaranteeId = some id then o.fee.amount - o.refunded else 0
  | _ => 0

def drawn (done : List Operation) (id : GuaranteeId) : ℤ := (done.map (Operation.draws id)).sum

/-- What is left of an order, if it is an open one of the owner for the asset. -/
def GuaranteeObject.share (a : Address) (i : AssetId) (d : ℤ) (g : GuaranteeObject) : ℤ :=
  if g.finished = false ∧ g.ownerAddr = a ∧ g.assetOrign.assetId = i then g.assetOrign.amount - d
  else 0

def shareOf (d : GuaranteeId → ℤ) (s : FeeState) (a : Address) (i : AssetId) (id : GuaranteeId) :
    ℤ :=
  ((s.guarantees[id]?).map (·.share a i (d id))).getD 0

/-- What is left of the open orders of an owner for an asset. -/
def remaining (d : GuaranteeId → ℤ) (s : FeeState) (a : Address) (i : AssetId) : ℤ :=
  ∑ id ∈ range s.guarantees.length, shareOf d s a i id

/-- What is frozen is what is left of the open orders, and is not negative. -/
def Solvent (done : List Operation) (s : FeeState) : Prop :=
  ∀ a i, s.accounts.frozen a i = remaining (drawn done) s a i ∧ 0 ≤ s.accounts.frozen a i

/-- The conversions of an operation are exact: of the fee and of the refund, and at the end of an
order that of what it counts. -/
def Exact (op : Operation) (s : FeeState) : Prop :=
  match op with
  | .create _ => True
  | .cancel o => ∀ g, s.guarantees[o.cancelGuaranteeId]? = some g →
      g.assetFinished.amount = 0 ∨ g.assetOrign.assetId ≠ g.assetTarget.assetId ∨
        g.assetOrign.amount = g.assetTarget.amount
  | .other o => ∀ id g, o.guaranteeId = some id → s.guarantees[id]? = some g →
      g.assetOrign.amount ∣ o.fee.amount * g.assetTarget.amount ∧
        g.assetOrign.amount ∣ o.refunded * g.assetTarget.amount

/-! ### The steps -/

variable {d : GuaranteeId → ℤ} {s s' : FeeState} {id : GuaranteeId} {g : GuaranteeObject}

/-- What was taken from the orders agrees with what is frozen and with what the orders count. -/
structure Escrowed (d : GuaranteeId → ℤ) (s : FeeState) : Prop where
  frozen : ∀ a i, s.accounts.frozen a i = remaining d s a i
  exact : ∀ {id g}, s.guarantees[id]? = some g →
    d id * g.assetTarget.amount = g.assetFinished.amount * g.assetOrign.amount
  fresh : ∀ {id}, s.guarantees.length ≤ id → d id = 0

theorem sum_range_of_ne {f f' : ℕ → ℤ} {n k : ℕ} (hk : k < n) (h : ∀ j, j ≠ k → f' j = f j) :
    ∑ j ∈ range n, f' j = ∑ j ∈ range n, f j + (f' k - f k) := by
  have hsum : ∑ j ∈ (range n).erase k, f' j = ∑ j ∈ (range n).erase k, f j :=
    sum_congr rfl fun j hj => h j (ne_of_mem_erase hj)
  have e := add_sum_erase (range n) f (mem_range.mpr hk)
  have e' := add_sum_erase (range n) f' (mem_range.mpr hk)
  omega

theorem shareOf_eq (hg : s.guarantees[id]? = some g) (a : Address) (i : AssetId) :
    shareOf d s a i id = g.share a i (d id) := by
  rw [shareOf, hg]
  rfl

namespace Escrowed

theorem congr (hs : Escrowed d s) (hfrozen : ∀ a i, s'.accounts.frozen a i = s.accounts.frozen a i)
    (hguarantees : s'.guarantees = s.guarantees) : Escrowed d s' := by
  refine ⟨fun a i => ?_, ?_, ?_⟩
  · rw [hfrozen, hs.frozen]
    simp only [remaining, shareOf, hguarantees]
  · rw [hguarantees]
    exact hs.exact
  · rw [hguarantees]
    exact hs.fresh

variable {d' : GuaranteeId → ℤ}

theorem of_eq (hs : Escrowed d s) (h : ∀ k, d' k = d k) : Escrowed d' s := by
  rwa [show d' = d from funext h]

theorem change (hs : Escrowed d s) {g' : GuaranteeObject} (hg : s.guarantees[id]? = some g)
    (hset : s'.guarantees = s.guarantees.set id g') (hd' : ∀ k, k ≠ id → d' k = d k)
    (hexact : d' id * g'.assetTarget.amount = g'.assetFinished.amount * g'.assetOrign.amount)
    (hfrozen : ∀ a i, s'.accounts.frozen a i = s.accounts.frozen a i +
      (g'.share a i (d' id) - g.share a i (d id)))
    :
    Escrowed d' s' := by
  have hlt : id < s.guarantees.length := (List.getElem?_eq_some_iff.mp hg).1
  have hself : s'.guarantees[id]? = some g' := by rw [hset, List.getElem?_set_self hlt]
  have hother : ∀ k, k ≠ id → s'.guarantees[k]? = s.guarantees[k]? := fun k hk => by
    rw [hset, List.getElem?_set_ne (Ne.symm hk)]
  have hlength : s'.guarantees.length = s.guarantees.length := by rw [hset, List.length_set]
  refine ⟨fun a i => ?_, fun {k h} hk => ?_, fun {k} hk => ?_⟩
  · have hsame : ∀ k, k ≠ id → shareOf d' s' a i k = shareOf d s a i k := fun k hk => by
      rw [shareOf, shareOf, hother k hk, hd' k hk]
    rw [hfrozen, hs.frozen, remaining, remaining, hlength, sum_range_of_ne hlt hsame,
      shareOf_eq hself, shareOf_eq hg]
  · by_cases hkid : k = id
    · subst hkid
      obtain rfl := Option.mem_unique hself hk
      exact hexact
    · rw [hd' k hkid]
      exact hs.exact ((hother k hkid).symm.trans hk)
  · rw [hlength] at hk
    rw [hd' k (Nat.ne_of_gt (Nat.lt_of_lt_of_le hlt hk))]
    exact hs.fresh hk

theorem draw (hs : Escrowed d s) {p : Address} {x y : ℤ} (h : Draws p id g x y s s')
    (hxy : x * g.assetTarget.amount = y * g.assetOrign.amount) :
    Escrowed (fun k => d k + if k = id then x else 0) s' := by
  obtain ⟨g', hset, hsame, hopen, hfinished⟩ := h.moved
  refine hs.change h.find hset (fun k hk => by simp [hk]) ?_ fun a i => ?_
  · have hexact := hs.exact h.find
    rw [if_pos rfl, hsame.assetTarget, hsame.assetOrign, hfinished, Int.add_mul, Int.add_mul,
      hexact, hxy]
  · rw [h.frozen]
    simp only [GuaranteeObject.share, hopen, h.unfinished, hsame.ownerAddr, hsame.assetOrign,
      true_and, eq_comm, if_true]
    split <;> omega

theorem create (hs : Escrowed d s) (hopen : g.finished = false)
    (hfinished : g.assetFinished.amount = 0) (hguarantees : s'.guarantees = s.guarantees ++ [g])
    (hfrozen : ∀ a i, s'.accounts.frozen a i = s.accounts.frozen a i +
      if a = g.ownerAddr ∧ i = g.assetOrign.assetId then g.assetOrign.amount else 0) :
    Escrowed d s' := by
  have hnew : s'.guarantees[s.guarantees.length]? = some g := by simp [hguarantees]
  have hold : ∀ k, k < s.guarantees.length → s'.guarantees[k]? = s.guarantees[k]? := fun k hk => by
    rw [hguarantees, List.getElem?_append_left hk]
  refine ⟨fun a i => ?_, fun {k h} hk => ?_, fun {k} hk => ?_⟩
  · have hsum : ∑ k ∈ range s.guarantees.length, shareOf d s' a i k = remaining d s a i :=
      sum_congr rfl fun k hk => by rw [shareOf, shareOf, hold k (mem_range.mp hk)]
    have hlength : s'.guarantees.length = s.guarantees.length + 1 := by simp [hguarantees]
    rw [hfrozen, hs.frozen, remaining.eq_def d s', hlength, sum_range_succ, hsum, shareOf_eq hnew,
      hs.fresh (Nat.le_refl _), GuaranteeObject.share]
    simp only [hopen, true_and, eq_comm, Int.sub_zero]
  · by_cases hlt : k < s.guarantees.length
    · exact hs.exact ((hold k hlt).symm.trans hk)
    · have hlt' := (List.getElem?_eq_some_iff.mp hk).1
      rw [hguarantees, List.length_append, List.length_singleton] at hlt'
      obtain rfl : k = s.guarantees.length :=
        Nat.le_antisymm (Nat.le_of_lt_succ hlt') (Nat.not_lt.mp hlt)
      obtain rfl := Option.mem_unique hnew hk
      rw [hs.fresh (Nat.le_refl _), hfinished]
      simp
  · rw [hguarantees, List.length_append, List.length_singleton] at hk
    exact hs.fresh (Nat.le_of_succ_le hk)

theorem close (hs : Escrowed d s) (hg : s.guarantees[id]? = some g) (hopen : g.finished = false)
    (hset : s'.guarantees = s.guarantees.set id { g with finished := true })
    (hfrozen : ∀ a i, s'.accounts.frozen a i = s.accounts.frozen a i -
      if a = g.ownerAddr ∧ i = g.assetOrign.assetId then g.assetOrign.amount - d id else 0) :
    Escrowed d s' := by
  have hexact := hs.exact hg
  refine hs.change hg hset (fun _ _ => rfl) hexact fun a i => ?_
  have hclosed : GuaranteeObject.share a i (d id) { g with finished := true } = 0 :=
    if_neg fun h => Bool.noConfusion h.1
  rw [hfrozen, hclosed, GuaranteeObject.share]
  simp only [hopen, true_and, eq_comm]
  split <;> omega

theorem drawn_le (hs : Escrowed d s) (hg : s.guarantees[id]? = some g) :
    d id ≤ g.assetOrign.amount := by
  have hexact := hs.exact hg
  have hle := Int.mul_le_mul_of_nonneg_right g.finished_le (Int.le_of_lt g.orign_pos)
  rw [← hexact, Int.mul_comm g.assetTarget.amount] at hle
  exact Int.le_of_mul_le_mul_right hle g.target_pos

theorem nonneg (hs : Escrowed d s) (a : Address) (i : AssetId) : 0 ≤ s.accounts.frozen a i := by
  rw [hs.frozen]
  refine Finset.sum_nonneg fun k hk => ?_
  obtain ⟨g, hg⟩ : ∃ g, s.guarantees[k]? = some g :=
    ⟨_, List.getElem?_eq_getElem (mem_range.mp hk)⟩
  have hle := hs.drawn_le hg
  rw [shareOf_eq hg, GuaranteeObject.share]
  split <;> omega

theorem left_eq (hs : Escrowed d s) (hg : s.guarantees[id]? = some g)
    (hside : g.assetFinished.amount = 0 ∨ g.assetOrign.assetId ≠ g.assetTarget.assetId ∨
      g.assetOrign.amount = g.assetTarget.amount) {left : Asset} (h : g.left = .ok left) :
    left.amount = g.assetOrign.amount - d id ∧ left.assetId = g.assetOrign.assetId := by
  simp only [GuaranteeObject.left, bind_eq_ok, Asset.sub_eq_ok] at h
  obtain ⟨back, hback, hid, hleft, hleftId⟩ := h
  refine ⟨?_, hleftId⟩
  have hexact := hs.exact hg
  suffices hb : back.amount = d id by rw [hleft, hb]
  unfold Asset.mul at hback
  split at hback
  next hbase =>
    -- one asset: the conversion goes the wrong way
    obtain ⟨-, -, -, hamount⟩ := Asset.convert_eq_ok g.target_pos hback
    rcases hside with hzero | hne | heq
    · rw [hzero, Int.zero_mul] at hexact
      rw [hamount, hzero, Int.zero_mul, Int.zero_ediv]
      exact ((Int.mul_eq_zero.mp hexact).resolve_right (Int.ne_of_gt g.target_pos)).symm
    · exact absurd (hbase.symm.trans g.finished_id) hne
    · have htarget := Int.ne_of_gt g.target_pos
      rw [hamount]
      change g.assetFinished.amount * g.assetTarget.amount / g.assetOrign.amount = d id
      rw [heq] at hexact ⊢
      rw [Int.mul_ediv_cancel _ htarget]
      exact (Int.eq_of_mul_eq_mul_right htarget hexact).symm
  next hbase =>
    split at hback
    next =>
      obtain ⟨-, -, -, hamount⟩ := Asset.convert_eq_ok g.orign_pos hback
      rw [hamount]
      change g.assetFinished.amount * g.assetOrign.amount / g.assetTarget.amount = d id
      rw [← hexact, Int.mul_ediv_cancel _ (Int.ne_of_gt g.target_pos)]
    next => cases hback

end Escrowed

/-! ### The operations keep the books -/

/-- The step touches no order and nothing that is frozen. -/
structure Apart (s s' : FeeState) : Prop where
  frozen : ∀ a i, s'.accounts.frozen a i = s.accounts.frozen a i
  guarantees : s'.guarantees = s.guarantees

theorem Apart.trans {t : FeeState} (h : Apart s t) (h' : Apart t s') : Apart s s' :=
  ⟨fun a i => (h'.frozen a i).trans (h.frozen a i), h'.guarantees.trans h.guarantees⟩

theorem Escrowed.apart (hs : Escrowed d s) (h : Apart s s') : Escrowed d s' :=
  hs.congr h.frozen h.guarantees

variable {a fee unspent : Asset} {payer caller : Address} {trx : TrxId}
  {guarantee : Option GuaranteeId} {x : ℤ} {o : OtherOp} {c : Context}

theorem apart_adjustBalance {addr : Address} (h : s.adjustBalance addr a = .ok s') :
    Apart s s' := by
  obtain ⟨l, hl, rfl⟩ := adjustBalance_eq_ok h
  refine ⟨fun a i => ?_, rfl⟩
  rw [Accounts.frozen_adjustBalance hl (by simp)]
  simp

theorem apart_collect (h : s.collect a = .ok s') : Apart s s' := by
  simp only [FeeState.collect, bind_eq_ok, pure_eq_ok] at h
  obtain ⟨total, -, rfl⟩ := h
  exact ⟨fun _ _ => rfl, rfl⟩

theorem apart_chargeFee (h : chargeFee payer fee none trx s = .ok s') : Apart s s' := by
  simp only [chargeFee] at h
  split at h
  · obtain ⟨debit, -, h⟩ := bind_eq_ok.mp h
    exact apart_adjustBalance h
  · obtain rfl := Except.ok.inj h
    exact ⟨fun _ _ => rfl, rfl⟩

theorem apart_refundUnspent (h : refundUnspent caller unspent none trx s = .ok s') :
    Apart s s' := by
  simp only [refundUnspent] at h
  split at h
  · exact apart_adjustBalance h
  · obtain rfl := Except.ok.inj h
    exact ⟨fun _ _ => rfl, rfl⟩

theorem payFeeAndRefund_eq_ok {totalFee : Asset} {transferFees : List Asset}
    (h : payFeeAndRefund caller totalFee unspent transferFees guarantee trx s = .ok s') :
    ∃ t, refundUnspent caller unspent guarantee trx s = .ok t ∧ Apart t s' := by
  simp only [payFeeAndRefund, bind_eq_ok] at h
  obtain ⟨t, ht, kept, -, t', ht', hfees⟩ := h
  refine ⟨t, ht, ?_⟩
  exact foldlM_induction (P := Apart t) (apart_collect ht')
    (fun u u' a _ hu hstep => hu.trans (apart_collect hstep)) hfees

theorem refundUnspent_draws (h : refundUnspent caller unspent (some id) trx s = .ok s') :
    ∃ g, (unspent.amount ≠ 0 → unspent.assetId = g.assetOrign.assetId) ∧
      Draws caller id g (-unspent.amount)
        (-(unspent.amount * g.assetTarget.amount / g.assetOrign.amount)) s s' := by
  obtain ⟨t, ht, hrecord⟩ := bind_eq_ok.mp h
  split at ht
  · obtain ⟨g, hid, hdraws⟩ := refundByGuarantee_eq_ok ht hrecord
    exact ⟨g, fun _ => hid, hdraws⟩
  next hzero =>
    obtain rfl := Except.ok.inj ht
    rw [not_not] at hzero
    obtain ⟨g, hg⟩ : ∃ g, s.guarantees[id]? = some g := by
      simp only [FeeState.recordGuarantee, FeeState.getGuarantee, bind_eq_ok, found_eq_ok]
        at hrecord
      obtain ⟨g, hg, -⟩ := hrecord
      exact ⟨g, hg⟩
    obtain ⟨hopen, haccounts, hset⟩ := recordGuarantee_eq_ok hrecord hg
    refine ⟨g, fun h => absurd hzero h, hg, hopen,
      ⟨g.record trx, hset, ⟨rfl, rfl, rfl⟩, hopen, ?_⟩, fun a i => ?_, 0, 0, fun a i => ?_⟩
    · simp [hzero, GuaranteeObject.record]
    · simp [hzero, haccounts]
    · simp [haccounts, Payment.effect]

theorem mul_eq_of_dvd {t o : ℤ} (h : o ∣ x * t) : x * t = x * t / o * o :=
  (Int.ediv_mul_cancel h).symm

/-- The orders of a later state are those of an earlier one, as far as their terms go. -/
theorem Draws.same {p : Address} {y : ℤ} (h : Draws p id g x y s s') {k : GuaranteeId}
    {g' : GuaranteeObject} (hg' : s'.guarantees[k]? = some g') :
    ∃ g₀, s.guarantees[k]? = some g₀ ∧ g₀.Same g' := by
  obtain ⟨g₁, hset, hsame, -⟩ := h.moved
  have hlt : id < s.guarantees.length := (List.getElem?_eq_some_iff.mp h.find).1
  by_cases hk : id = k
  · subst hk
    rw [hset, List.getElem?_set_self hlt] at hg'
    exact ⟨g, h.find, Option.some.inj hg' ▸ hsame⟩
  · rw [hset, List.getElem?_set_ne hk] at hg'
    exact ⟨g', hg', rfl, rfl, rfl⟩

theorem Escrowed.chargeFee (hs : Escrowed d s)
    (hexact : ∀ id g, guarantee = some id → s.guarantees[id]? = some g →
      g.assetOrign.amount ∣ fee.amount * g.assetTarget.amount)
    (h : chargeFee payer fee guarantee trx s = .ok s') :
    Escrowed (fun k => d k + if guarantee = some k then fee.amount else 0) s' ∧
      ∀ {k : GuaranteeId} {g' : GuaranteeObject}, s'.guarantees[k]? = some g' →
        ∃ g₀ : GuaranteeObject, s.guarantees[k]? = some g₀ ∧ g₀.Same g' := by
  cases guarantee with
  | none =>
    have hapart := apart_chargeFee h
    refine ⟨by simpa using hs.apart hapart, fun {k g'} hg' => ?_⟩
    exact ⟨g', hapart.guarantees ▸ hg', rfl, rfl, rfl⟩
  | some id =>
    obtain ⟨g, -, -, hdraws⟩ := payByGuarantee_eq_ok h
    refine ⟨?_, hdraws.same⟩
    have := hs.draw hdraws (mul_eq_of_dvd (hexact id g rfl hdraws.find))
    simpa only [Option.some.injEq, eq_comm] using this

theorem Escrowed.payFee (hs : Escrowed d s)
    (hexact : ∀ id g, o.guaranteeId = some id → s.guarantees[id]? = some g →
      g.assetOrign.amount ∣ o.refunded * g.assetTarget.amount)
    (h : o.payFee trx s = .ok s') :
    Escrowed (fun k => d k - if o.guaranteeId = some k then o.refunded else 0) s' := by
  unfold OtherOp.payFee at h
  cases hcontract : o.contract with
  | none =>
    rw [hcontract] at h
    simpa [OtherOp.refunded, hcontract] using hs.apart (apart_collect h)
  | some r =>
    rw [hcontract] at h
    obtain ⟨t, ht, hapart⟩ := payFeeAndRefund_eq_ok h
    by_cases hkeeps : r.keepsOperation = true
    · have hrefunded : o.refunded = r.unspent.amount := by
        simp [OtherOp.refunded, hcontract, hkeeps]
      rw [if_pos hkeeps] at ht
      cases hid : o.guaranteeId with
      | none =>
        rw [hid] at ht
        simpa using hs.apart ((apart_refundUnspent ht).trans hapart)
      | some id =>
        rw [hid] at ht
        obtain ⟨g, -, hdraws⟩ := refundUnspent_draws ht
        have hdvd := hexact id g hid hdraws.find
        rw [hrefunded] at hdvd
        have := (hs.draw hdraws (by
          rw [Int.neg_mul, Int.neg_mul, ← mul_eq_of_dvd hdvd])).apart hapart
        refine this.of_eq fun k => ?_
        simp only [hrefunded, Option.some.injEq, eq_comm]
        split <;> omega
    · rw [if_neg hkeeps] at ht
      have hrefunded : o.refunded = 0 := by simp [OtherOp.refunded, hcontract, hkeeps]
      simpa [hrefunded] using hs.apart ((apart_refundUnspent ht).trans hapart)

theorem Escrowed.other (hs : Escrowed d s) (hexact : Exact (.other o) s)
    (h : applyOther c o s = .ok s') :
    Escrowed (fun k => d k + Operation.draws k (.other o)) s' := by
  simp only [applyOther, bind_eq_ok] at h
  obtain ⟨_, -, l, hl, t, hcharge, hpay⟩ := h
  have hs₁ : Escrowed d { s with accounts := l } := hs.congr (o.frozen_doApply hl) rfl
  obtain ⟨hs₂, hsame⟩ := hs₁.chargeFee (fun id g hid hg => (hexact id g hid hg).1) hcharge
  refine (hs₂.payFee (fun id g hid hg => ?_) hpay).of_eq fun k => ?_
  · obtain ⟨g₀, hg₀, hterms⟩ := hsame hg
    rw [hterms.assetOrign, hterms.assetTarget]
    exact (hexact id g₀ hid hg₀).2
  · simp only [Operation.draws]
    split <;> omega

theorem Escrowed.guranteeCreate {o : GuranteeCreateOp} (hs : Escrowed d s)
    (h : guranteeCreate c o s = .ok s') : Escrowed d s' := by
  simp only [Fees.guranteeCreate, bind_eq_ok] at h
  obtain ⟨_, -, g, hg, debit, hdebit, l, hl, t, hcharge, hcollect⟩ := h
  obtain ⟨hdebit, hid⟩ := Asset.neg_eq_ok.mp hdebit
  have hnew : g.ownerAddr = o.ownerAddr ∧ g.assetOrign = o.assetOrigin ∧ g.finished = false ∧
      g.assetFinished.amount = 0 := by
    simp only [evaluateCreate, bind_eq_ok, found_eq_ok, require_eq_ok, exists_and_left,
      exists_const] at hg
    obtain ⟨b, -, -, hg⟩ := hg
    split at hg
    · split at hg
      · obtain rfl := pure_eq_ok.mp hg
        exact ⟨rfl, rfl, rfl, rfl⟩
      · cases hg
    · cases hg
  obtain ⟨howner, horign, hopen, hfinished⟩ := hnew
  have hs₁ : Escrowed d { s with accounts := l, guarantees := s.guarantees ++ [g] } := by
    refine hs.create hopen hfinished rfl fun a i => ?_
    have hpos := g.orign_pos
    rw [horign] at hpos
    rw [Accounts.frozen_adjustBalance hl (fun _ => by omega), howner, horign, hdebit, hid]
    simp only [true_and]
    split <;> omega
  exact (hs₁.apart (apart_chargeFee hcharge)).apart (apart_collect hcollect)

theorem Escrowed.guranteeCancel {o : GuranteeCancelOp} (hs : Escrowed d s)
    (hexact : Exact (.cancel o) s) (h : guranteeCancel c o s = .ok s') :
    Escrowed d s' ∧ ∃ g left, s.guarantees[o.cancelGuaranteeId]? = some g ∧ g.left = .ok left ∧
      left.amount = g.assetOrign.amount - d o.cancelGuaranteeId := by
  simp only [Fees.guranteeCancel, FeeState.getGuarantee, FeeState.cancelFrozen, bind_eq_ok,
    found_eq_ok, require_eq_ok, exists_and_left, exists_const, pure_eq_ok] at h
  obtain ⟨_, -, g, hg, -, hopen, left, hleft, _, ⟨l, hl, rfl⟩, t, hcharge, hcollect⟩ := h
  obtain ⟨hamount, hid⟩ := hs.left_eq hg (hexact g hg) hleft
  have hs₁ : Escrowed d { s.setGuarantee o.cancelGuaranteeId { g with finished := true } with
      accounts := l } := by
    refine hs.close hg hopen rfl fun a i => ?_
    rw [Accounts.frozen_cancelFrozen hl, hamount, hid]
    rfl
  exact ⟨(hs₁.apart (apart_chargeFee hcharge)).apart (apart_collect hcollect),
    g, left, hg, hleft, hamount⟩

theorem drawn_append (done : List Operation) (op : Operation) (id : GuaranteeId) :
    drawn (done ++ [op]) id = drawn done id + op.draws id := by
  simp [drawn]

theorem Reached.escrowed {s₀ : FeeState} {done : List Operation}
    (hguarantees : s₀.guarantees = []) (hfrozen : ∀ a i, s₀.accounts.frozen a i = 0)
    (h : Reached Exact s₀ done s) : Escrowed (drawn done) s := by
  induction h with
  | start =>
    refine ⟨fun a i => ?_, fun hg => ?_, fun _ => rfl⟩
    · simp [hfrozen, remaining, hguarantees]
    · simp [hguarantees] at hg
  | step c op _ hexact h ih =>
    refine Escrowed.of_eq ?_ (drawn_append _ op)
    cases op with
    | create o => simpa [Operation.draws] using ih.guranteeCreate h
    | cancel o => simpa [Operation.draws] using (ih.guranteeCancel hexact h).1
    | other o => exact ih.other hexact h

/-- **With exact conversions the frozen amounts are right**: they are what is left of the open
orders, and a cancelled order returns what is left of it. -/
theorem reached_solvent {s₀ : FeeState} {done : List Operation} (hguarantees : s₀.guarantees = [])
    (hfrozen : ∀ a i, s₀.accounts.frozen a i = 0) (h : Reached Exact s₀ done s) :
    Solvent done s ∧
      ∀ {c : Context} {o : GuranteeCancelOp} {t : FeeState}, Exact (.cancel o) s →
        applyOperation c (.cancel o) s = .ok t →
        ∃ g left, s.guarantees[o.cancelGuaranteeId]? = some g ∧ g.left = .ok left ∧
          left.amount = g.assetOrign.amount - drawn done o.cancelGuaranteeId := by
  have hs := h.escrowed hguarantees hfrozen
  exact ⟨fun a i => ⟨hs.frozen a i, hs.nonneg a i⟩,
    fun hexact hcancel => (hs.guranteeCancel hexact hcancel).2⟩

/-! ### An order that returns too much -/

/-- Nothing is asked for an operation. -/
def freeContext : Context := ⟨1, fun _ => true, false, 0⟩

def core (amount : ℤ) (h : Safe.Fits amount) : Asset := ⟨amount, 0, h⟩

/-- The address 1 has a hundred units of the core asset, and the address 2 a hundred of both. -/
def hundreds : FeeState where
  accounts := ⟨fun addr asset => if (addr = 1 ∧ asset = 0) ∨ (addr = 2 ∧ asset ≤ 5) then
    some ⟨100, 0⟩ else none, fun _ => 1000⟩
  guarantees := []
  collected _ := 0

/-- The address 1 offers some units of the core asset. -/
def offer (amount : ℤ) (h : Safe.Fits amount) (target : Asset) : Operation :=
  .create ⟨core 0 (by decide), 1, core amount h, target⟩

/-- The address 2 pays a fee through the first order. -/
def payThrough (amount : ℤ) (h : Safe.Fits amount) : Operation :=
  .other ⟨2, core amount h, some 0, .ok, by rintro l l' ⟨⟩ a i; rfl, none⟩

def cancelOrder : Operation := .cancel ⟨core 0 (by decide), 1, 0⟩

/-- After the operations, if they are all accepted. -/
def after (ops : List Operation) : FeeState :=
  attempted hundreds (ops.foldlM (fun s op => applyOperation freeContext op s) hundreds)

theorem after_append (ops : List Operation) (op : Operation)
    (h : (ops.foldlM (fun s op => applyOperation freeContext op s) hundreds).isOk = true)
    (h' : (applyOperation freeContext op (after ops)).isOk = true) :
    applyOperation freeContext op (after ops) = .ok (after (ops ++ [op])) := by
  obtain ⟨s, hs⟩ := exists_eq_ok h
  obtain ⟨s', hs'⟩ := exists_eq_ok h'
  have hafter : after ops = s := by rw [after, hs, attempted_ok]
  rw [hafter] at hs' ⊢
  rw [after, List.foldlM_append, hs, hs']
  simp only [bind, Except.bind, List.foldlM, hs']
  rfl

/-- Ten units are offered for twenty of another asset, and three of them pay a fee. -/
def exactRun : List Operation :=
  [offer 10 Safe.fits_ten ⟨20, 5, by decide⟩, payThrough 3 (by decide)]

theorem reached_solvent_exact :
    Solvent exactRun (after exactRun) ∧ (after exactRun).accounts.frozen 1 0 = 7 := by
  have hoffer := after_append [] (offer 10 Safe.fits_ten ⟨20, 5, by decide⟩) (by decide +kernel)
    (by decide +kernel)
  have hpay := after_append [offer 10 Safe.fits_ten ⟨20, 5, by decide⟩] (payThrough 3 (by decide))
    (by decide +kernel) (by decide +kernel)
  have hexact : ∀ g ∈ (after [offer 10 Safe.fits_ten ⟨20, 5, by decide⟩]).guarantees,
      g.assetOrign.amount ∣ 3 * g.assetTarget.amount ∧
        g.assetOrign.amount ∣ 0 * g.assetTarget.amount := by decide +kernel
  refine ⟨(reached_solvent rfl ?_
    (.step _ _ (.step _ (.create _) .start trivial hoffer) ?_ hpay)).1, by decide +kernel⟩
  · intro a i
    show Accounts.frozen hundreds.accounts a i = 0
    simp only [Accounts.frozen, hundreds]
    split <;> rfl
  · rintro id g ⟨⟩ hg
    exact hexact g (List.mem_of_getElem? hg)

/-- Ten units are offered for three of another asset, and one pays a fee. -/
def roundedRun : List Operation :=
  [offer 10 Safe.fits_ten ⟨3, 5, by decide⟩, payThrough 1 Safe.fits_one]

/-- A hundred units are offered for fifty of the same asset, and ten pay a fee. -/
def sameAssetRun : List Operation :=
  [offer 100 (by decide) (core 50 (by decide)), payThrough 10 Safe.fits_ten]

/-- **A spent fee is returned.** The fee of one unit costs its payer nothing, and the order returns
all ten units, of which nine are left. The order between two amounts of one asset returns
ninety-eight units, of which ninety are left. -/
theorem cancel_returns_spent :
    ((after roundedRun).accounts.frozen 1 0 = 9 ∧
      (after (roundedRun ++ [cancelOrder])).accounts.frozen 1 0 = -1) ∧
    ((after sameAssetRun).accounts.frozen 1 0 = 90 ∧
      (after (sameAssetRun ++ [cancelOrder])).accounts.frozen 1 0 = -8) ∧
    ¬ Solvent (roundedRun ++ [cancelOrder]) (after (roundedRun ++ [cancelOrder])) := by
  have hnegative : (after (roundedRun ++ [cancelOrder])).accounts.frozen 1 0 = -1 := by
    decide +kernel
  refine ⟨⟨by decide +kernel, hnegative⟩, ⟨by decide +kernel, by decide +kernel⟩, fun h => ?_⟩
  have := (h 1 0).2
  rw [hnegative] at this
  omega

end Whitecoin.Fees
