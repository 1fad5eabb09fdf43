import Whitecoin.Fees.Escrow

/-!
# Orders that are filled

A payment through a guarantee order adds what it is worth to the total of the order. If the total
then is what the order asks for, the order is finished. The next thing that `evaluator::apply` does
is to enter the transaction in the records of the order, and that is refused for an order that is
finished. So the payment that would fill an order always fails, and an order can only be filled up
to its last unit.
-/

namespace Whitecoin.Fees

open Check Ledger

/-- A payment through an order that has nothing against it: the order is open and asks for at least
that much, the owner has frozen the fee, and the payer has what it is worth. -/
structure Covered (payer : Address) (fee : Asset) (id : GuaranteeId) (g : GuaranteeObject)
    (need : Asset) (s : FeeState) : Prop where
  find : s.guarantees[id]? = some g
  unfinished : g.finished = false
  orign : fee.assetId = g.assetOrign.assetId
  converted : fee.mul g.price = .ok need
  fee_pos : 0 < fee.amount
  within : g.assetFinished.amount + need.amount ≤ g.assetTarget.amount
  frozen : fee.amount ≤ s.accounts.frozen g.ownerAddr fee.assetId
  balance : need.amount ≤ s.accounts.balance payer need.assetId
  payer : payer ≠ 0
  owner : g.ownerAddr ≠ 0
  /-- The owner's balance does not overflow. -/
  room : s.accounts.balance g.ownerAddr need.assetId + need.amount ≤ Safe.max

variable {payer : Address} {fee need : Asset} {id : GuaranteeId} {g : GuaranteeObject}
  {s : FeeState} {trx : TrxId}

theorem Asset.exists_neg {a : Asset} (h : 0 ≤ a.amount) :
    ∃ b, a.neg = .ok b ∧ b.amount = -a.amount ∧ b.assetId = a.assetId := by
  have hfits : Safe.Fits (-a.amount) := by
    obtain ⟨-, hmax⟩ := a.fits
    unfold Safe.max at hmax
    unfold Safe.Fits Safe.min Safe.max
    omega
  exact ⟨⟨-a.amount, a.assetId, hfits⟩, Asset.neg_eq_ok.mpr ⟨rfl, rfl⟩, rfl, rfl⟩

namespace Covered

theorem need_eq (h : Covered payer fee id g need s) :
    need.assetId = g.assetTarget.assetId ∧ 0 ≤ need.amount := by
  have hconverted := h.converted
  rw [Asset.mul, if_pos (show fee.assetId = g.price.base.assetId from h.orign)] at hconverted
  obtain ⟨hnonneg, hbase, hid, hamount⟩ := Asset.convert_eq_ok g.target_pos hconverted
  refine ⟨hid, ?_⟩
  rw [hamount]
  exact Int.ediv_nonneg (Int.mul_nonneg hnonneg g.target_pos.le) hbase.le

theorem exists_advance (h : Covered payer fee id g need s) :
    ∃ total g', g.assetFinished.add need = .ok total ∧ g.advance total = .ok g' ∧
      g'.assetFinished.amount = g.assetFinished.amount + need.amount ∧
      g'.finished = decide (g.assetFinished.amount + need.amount = g.assetTarget.amount) := by
  obtain ⟨hid, hneed⟩ := h.need_eq
  have hwithin := h.within
  have hfits : Safe.Fits (g.assetFinished.amount + need.amount) := by
    have hfinished := g.assetFinished.fits.1
    have htarget := g.assetTarget.fits.2
    exact ⟨by omega, by omega⟩
  have htotal : g.assetFinished.add need =
      .ok ⟨g.assetFinished.amount + need.amount, g.assetFinished.assetId, hfits⟩ :=
    Asset.add_eq_ok.mpr ⟨g.finished_id.trans hid.symm, rfl, rfl⟩
  exact ⟨_, _, htotal, (dif_pos g.finished_id).trans (dif_pos hwithin), rfl, rfl⟩

theorem exists_moved (h : Covered payer fee id g need s) :
    ∃ debit drawn l₁ l₂ l₃, need.neg = .ok debit ∧ fee.neg = .ok drawn ∧
      s.accounts.adjustBalance payer debit.assetId debit.amount false = .ok l₁ ∧
      l₁.adjustFrozen g.ownerAddr drawn.assetId drawn.amount = .ok l₂ ∧
      l₂.adjustBalance g.ownerAddr need.assetId need.amount false = .ok l₃ := by
  obtain ⟨-, hneed⟩ := h.need_eq
  have hfee := h.fee_pos
  have hbalance := h.balance
  have hfrozen := h.frozen
  have hroom := h.room
  obtain ⟨debit, hdebit, hdebitAmount, hdebitId⟩ := Asset.exists_neg hneed
  obtain ⟨drawn, hdrawn, hdrawnAmount, hdrawnId⟩ := Asset.exists_neg hfee.le
  have hneedMax := need.fits.2
  have hfeeMax := fee.fits.2
  unfold Safe.max at hneedMax hfeeMax
  have hmin : Safe.min < debit.amount := by unfold Safe.min; omega
  have hmin' : Safe.min < drawn.amount := by unfold Safe.min; omega
  have hmin'' : Safe.min < need.amount := by unfold Safe.min; omega
  obtain ⟨l₁, hl₁⟩ := s.accounts.exists_adjustBalance debit.assetId h.payer hmin
    (.inl (by rw [hdebitId]; omega)) (by omega)
  have hfrozen₁ : l₁.frozen g.ownerAddr fee.assetId = s.accounts.frozen g.ownerAddr fee.assetId := by
    have := Accounts.frozen_adjustBalance hl₁ (by simp) g.ownerAddr fee.assetId
    simpa using this
  obtain ⟨l₂, hl₂⟩ := l₁.exists_adjustFrozen drawn.assetId h.owner hmin' (by omega)
    (by rw [hdrawnId]; omega)
  have hbalance₂ : l₂.balance g.ownerAddr need.assetId ≤
      s.accounts.balance g.ownerAddr need.assetId := by
    rw [Accounts.balance_adjustFrozen hl₂, Accounts.balance_adjustBalance hl₁]
    split <;> omega
  obtain ⟨l₃, hl₃⟩ := l₂.exists_adjustBalance need.assetId h.owner hmin'' (.inr hneed)
    fun _ => by omega
  exact ⟨debit, drawn, l₁, l₂, l₃, hdebit, hdrawn, hl₁, hl₂, hl₃⟩

/-- The payment up to the entry in the records: everything passes, and the order that is then to be
recorded is finished if the payment fills it. -/
theorem exists_recorded (h : Covered payer fee id g need s) (trx : TrxId) :
    ∃ (g' : GuaranteeObject) (t : FeeState), t.guarantees[id]? = some g' ∧
      g'.finished = decide (g.assetFinished.amount + need.amount = g.assetTarget.amount) ∧
      g'.assetFinished.amount = g.assetFinished.amount + need.amount ∧
      chargeFee payer fee (some id) trx s = (do
        let t ← t.recordGuarantee id trx
        t.adjustBalance g.ownerAddr need) ∧
      t.collected = s.collected ∧
      ∃ l, t.accounts.adjustBalance g.ownerAddr need.assetId need.amount false = .ok l := by
  obtain ⟨total, g', htotal, hadvance, hamount, hfinished⟩ := h.exists_advance
  obtain ⟨debit, drawn, l₁, l₂, l₃, hdebit, hdrawn, hl₁, hl₂, hl₃⟩ := h.exists_moved
  have hlt : id < s.guarantees.length := (List.getElem?_eq_some_iff.mp h.find).1
  refine ⟨g', { s with accounts := l₂, guarantees := s.guarantees.set id g' },
    List.getElem?_set_self hlt, hfinished, hamount, ?_, rfl, l₃, hl₃⟩
  have hfind : s.getGuarantee id = .ok g := found_eq_ok.mpr h.find
  have hopen : require (g.finished = false) "guarantee order has been finished" = .ok () :=
    require_eq_ok.mpr h.unfinished
  have hpos : require (0 < fee.amount) "fee cost should exceed 0" = .ok () :=
    require_eq_ok.mpr h.fee_pos
  have hfind₂ : FeeState.getGuarantee { s with accounts := l₂ } id = .ok g := hfind
  simp only [chargeFee, payByGuarantee, hfind, hopen, h.converted, hdebit, FeeState.adjustBalance,
    hl₁, hpos, hdrawn, FeeState.adjustFrozen, hl₂, FeeState.adjustGuarantee, hfind₂, htotal, hadvance,
    ok_bind, FeeState.setGuarantee, pure_bind]

theorem ne_of_chargeFee (h : Covered payer fee id g need s) {s' : FeeState}
    (hs' : chargeFee payer fee (some id) trx s = .ok s') :
    g.assetFinished.amount + need.amount ≠ g.assetTarget.amount := by
  obtain ⟨g', t, hfind, hfinished, -, hcharge, -⟩ := h.exists_recorded trx
  rw [hcharge] at hs'
  obtain ⟨s₁, h₁, -⟩ := bind_eq_ok.mp hs'
  obtain ⟨hopen, -, -⟩ := recordGuarantee_eq_ok h₁ hfind
  rw [hfinished, decide_eq_false_iff_not] at hopen
  exact hopen

theorem exists_chargeFee (h : Covered payer fee id g need s) (trx : TrxId)
    (hne : g.assetFinished.amount + need.amount ≠ g.assetTarget.amount) :
    ∃ s', chargeFee payer fee (some id) trx s = .ok s' ∧ s'.collected = s.collected := by
  obtain ⟨g', t, hfind, hfinished, -, hcharge, hcollected, l, hl⟩ := h.exists_recorded trx
  have hopen : g'.finished = false := by rw [hfinished, decide_eq_false_iff_not]; exact hne
  have hrecord : t.recordGuarantee id trx = .ok (t.setGuarantee id (g'.record trx)) :=
    bind_eq_ok.mpr ⟨g', found_eq_ok.mpr hfind, bind_eq_ok.mpr ⟨(), require_eq_ok.mpr hopen, rfl⟩⟩
  rw [hcharge, hrecord, ok_bind]
  exact ⟨_, bind_eq_ok.mpr ⟨l, hl, rfl⟩, hcollected⟩

end Covered

/-- **No payment fills an order.** An operation that pays through an order, and whose payment has
nothing against it, is refused if the payment fills the order. If it does not, an operation other
than on a contract is applied. -/
theorem apply_fill_iff {c : Context} {o : OtherOp} {l : Accounts}
    (hdo : o.doApply s.accounts = .ok l) (hprepare : prepareFee c o.fee = .ok ())
    (hid : o.guaranteeId = some id)
    (h : Covered o.payer o.fee id g need { s with accounts := l }) :
    (∀ s', applyOther c o s = .ok s' →
      g.assetFinished.amount + need.amount ≠ g.assetTarget.amount) ∧
    (g.assetFinished.amount + need.amount ≠ g.assetTarget.amount → o.contract = none →
      s.collected o.fee.assetId + o.fee.amount ≤ Safe.max →
      ∃ s', applyOther c o s = .ok s') := by
  have happly : applyOther c o s =
      (chargeFee o.payer o.fee (some id) c.trx { s with accounts := l }).bind (o.payFee c.trx) := by
    rw [applyOther, hprepare, ok_bind, hdo, ok_bind, hid]
    rfl
  refine ⟨fun s' hs' => ?_, fun hne hplain hroom => ?_⟩
  · rw [happly] at hs'
    obtain ⟨s₁, h₁, -⟩ := bind_eq_ok.mp hs'
    exact h.ne_of_chargeFee h₁
  · obtain ⟨s₁, h₁, hcollected⟩ := h.exists_chargeFee c.trx hne
    have hcollected : s₁.collected = s.collected := hcollected
    have hadd : Safe.add (s₁.collected o.fee.assetId) o.fee.amount =
        .ok (s₁.collected o.fee.assetId + o.fee.amount) :=
      Safe.add_of_le h.fee_pos.le (hcollected ▸ hroom)
    have hpay : o.payFee c.trx s₁ = s₁.collect o.fee := by rw [OtherOp.payFee, hplain]
    rw [happly, h₁]
    exact ⟨_, hpay.trans (bind_eq_ok.mpr ⟨_, hadd, rfl⟩)⟩

/-! ### An order of ten units -/

theorem fits_five : Safe.Fits 5 := by decide

theorem ten_pos : (0 : ℤ) < 10 := by decide

/-- Ten units of the core asset are offered for ten of another one. -/
def tenOffered : GuaranteeObject where
  ownerAddr := 1
  assetOrign := core 10 Safe.fits_ten
  assetTarget := ⟨10, 5, Safe.fits_ten⟩
  assetFinished := ⟨0, 5, Safe.fits_zero⟩
  records := []
  finished := false
  orign_pos := ten_pos
  target_pos := ten_pos
  finished_id := rfl
  finished_le := ten_pos.le

def tenFrozen : FeeState where
  accounts := ⟨fun addr asset => if addr = 1 ∧ asset = 0 then some ⟨0, 10⟩
    else if addr = 2 ∧ asset = 5 then some ⟨100, 0⟩ else none, fun _ => 1000⟩
  guarantees := [tenOffered]
  collected _ := 0

theorem frozen_of_ok {l l' : Accounts} (h : (.ok l : Except String Accounts) = .ok l') (a : Address)
    (i : AssetId) : l'.frozen a i = l.frozen a i := by
  rw [Except.ok.inj h]

/-- An operation that does nothing but pay a fee through the order. -/
def payingOp (fee : Asset) : OtherOp := ⟨2, fee, some 0, .ok, frozen_of_ok, none⟩

theorem covered_five :
    Covered 2 (core 5 fits_five) 0 tenOffered ⟨5, 5, fits_five⟩ tenFrozen :=
  ⟨rfl, rfl, rfl, by decide +kernel, by decide, by decide, by decide, by decide, by decide, by decide,
    by decide⟩

theorem apply_fill_iff_five :
    ∃ s', applyOther freeContext (payingOp (core 5 fits_five)) tenFrozen = .ok s' :=
  (apply_fill_iff (c := freeContext) (o := payingOp (core 5 fits_five)) (s := tenFrozen) rfl
    (by decide +kernel) rfl covered_five).2 (by decide) rfl (by decide)

/-- **The whole order cannot be paid.** Nothing is missing, and the operation is refused because it
finished the order. -/
theorem full_payment_refused :
    Covered 2 (core 10 Safe.fits_ten) 0 tenOffered ⟨10, 5, Safe.fits_ten⟩ tenFrozen ∧
      tenOffered.assetFinished.amount + 10 = tenOffered.assetTarget.amount ∧
      (applyOther freeContext (payingOp (core 10 Safe.fits_ten)) tenFrozen).map (fun _ => ()) =
        .error "guarantee order has been finished" :=
  ⟨⟨rfl, rfl, rfl, by decide +kernel, by decide, by decide, by decide, by decide, by decide,
    by decide, by decide⟩, by decide, by decide +kernel⟩

end Whitecoin.Fees
