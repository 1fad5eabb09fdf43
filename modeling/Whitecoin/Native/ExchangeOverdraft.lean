import Whitecoin.Native.ExchangeBalances

/-!
# Overdrawn balances

The contract compares the balance of an owner with the sum of what is spent and the fee, which may
overflow, and adds what is received to a balance without a check. A number of `-2 ^ 32` is read back
as zero.
-/

namespace Whitecoin.Native

open Check Cbor

namespace Exchange

variable {env : Env} {m : FillOrder} {o : Overlay} {f : Fill}

/-- The owner's balance suffices for what is spent and the fee, the fee is less than what is spent
unless it is the minimum, and all balances stay in range. -/
def Fill.NotOverdrawn (f : Fill) : Prop :=
  f.order.spentNum.toInt + f.spentFee.toInt ≤ f.before.accounts f.info.payAsset f.owner ∧
  (f.spentFee.toInt < f.order.spentNum.toInt ∨
    f.spentFee.toInt = f.before.held (entryKey f.info.payAsset (text "minFee"))) ∧
  ∀ o ∈ [f.charged, f.credited, f.after], ∀ symbol owner,
    0 ≤ o.accounts symbol owner ∧ o.accounts symbol owner ≤ 2 ^ 63 - 1

/-- What is spent and the fee together fit into 64 bits, and so does the balance with what is
received. The one sum that overflows to the number which is read back as zero does no harm. -/
def Fill.Fits (f : Fill) : Prop :=
  f.order.spentNum.toInt + f.spentFee.toInt < 2 ^ 63 ∧
  (f.charged.accounts f.info.purchaseAsset f.owner + f.order.getNum.toInt < 2 ^ 63 ∨
    f.charged.accounts f.info.purchaseAsset f.owner + f.order.getNum.toInt = 2 ^ 64 - 2 ^ 32)

theorem Accepted.credited_nonneg_iff (h : Accepted env m o f) (hc : f.charged.Nonneg) :
    f.credited.Nonneg ↔
      f.charged.accounts f.info.purchaseAsset f.owner + m.getNum.toInt < 2 ^ 63 ∨
      f.charged.accounts f.info.purchaseAsset f.owner + m.getNum.toInt = 2 ^ 64 - 2 ^ 32 := by
  obtain ⟨bal, hbal, hset⟩ := Overlay.credit_eq_ok h.credit
  have hget := h.getNum
  have hgetlt := m.getNum.toInt_lt
  have hnonneg := hc f.info.purchaseAsset f.owner
  have hlt := bal.toInt_lt
  have hacc := Overlay.accounts_set_int hset
  have hvalue : f.credited.accounts f.info.purchaseAsset f.owner =
      (Overlay.readInt (bal + m.getNum)).toInt := by
    rw [hacc, Function.update_self, Function.update_self]
  rw [hbal] at hnonneg ⊢
  have hsum : (bal + m.getNum).toInt = if bal.toInt + m.getNum.toInt < 2 ^ 63
      then bal.toInt + m.getNum.toInt else bal.toInt + m.getNum.toInt - 2 ^ 64 := by
    rw [Int64.toInt_add, Int.bmod_def]
    split_ifs <;> omega
  constructor
  · intro hcredited
    have hge := hcredited f.info.purchaseAsset f.owner
    rw [hvalue, Overlay.readInt] at hge
    by_cases hfits : bal.toInt + m.getNum.toInt < 2 ^ 63
    · exact .inl hfits
    · rw [if_neg hfits] at hsum
      split_ifs at hge <;> omega
  · rintro (hfits | hquirk)
    · rw [if_pos hfits] at hsum
      exact hc.set_int hset (by omega)
    · have hread : Overlay.readInt (bal + m.getNum) = 0 := by
        rw [Overlay.readInt, if_pos]
        rw [hsum, if_neg (by omega)]
        omega
      intro symbol owner
      rw [hacc, hread]
      by_cases hs : symbol = f.info.purchaseAsset
      · subst hs
        rw [Function.update_self]
        by_cases ha : owner = f.owner
        · rw [ha, Function.update_self]
          rfl
        · rw [Function.update_of_ne ha]
          exact hc _ owner
      · rw [Function.update_of_ne hs]
        exact hc symbol owner

theorem Accepted.notOverdrawn_iff (h : Accepted env m o f) (ho : o.Nonneg) :
    f.NotOverdrawn ↔ f.Fits := by
  have hrange : ∀ {p : Overlay}, p.Nonneg → ∀ symbol owner,
      0 ≤ p.accounts symbol owner ∧ p.accounts symbol owner ≤ 2 ^ 63 - 1 := fun {p} hp s a =>
    ⟨hp s a, Int.le_sub_one_of_lt (p.accounts_lt s a)⟩
  obtain ⟨hfee, hmin⟩ := spentFeeOf_eq_ok h.fee
  unfold Fill.NotOverdrawn Fill.Fits
  rw [h.order, h.before]
  constructor
  · rintro ⟨hle, -, hall⟩
    have hlt := (o.accounts_lt f.info.payAsset f.owner)
    obtain ⟨-, hc, -⟩ := h.charge ho (by omega)
    exact ⟨by omega, (h.credited_nonneg_iff hc).mp fun s a => (hall f.credited (by simp) s a).1⟩
  · rintro ⟨hlt, hcredit⟩
    obtain ⟨hle, hc, -⟩ := h.charge ho hlt
    have hcredited := (h.credited_nonneg_iff hc).mpr hcredit
    refine ⟨hle, hmin.imp_right fun heq => ?_, ?_⟩
    · rw [heq, Overlay.held_of_intOf h.minFee]
    · simp only [List.forall_mem_cons]
      exact ⟨hrange hc, hrange hcredited, hrange (h.nonneg_after hcredited), by simp⟩

theorem Filled.notOverdrawn_iff {orders : List FillOrder} {fills : List Fill}
    (h : Filled env orders o fills) (ho : o.Nonneg) :
    (∀ f ∈ fills, f.NotOverdrawn) ↔ ∀ f ∈ fills, f.Fits := by
  induction h with
  | nil => simp
  | cons hf _ ih =>
    rw [List.forall_mem_cons, List.forall_mem_cons, hf.notOverdrawn_iff ho]
    refine and_congr_right fun hfits => ih ?_
    have hnot := (hf.notOverdrawn_iff ho).mpr hfits
    exact fun s a => (hnot.2.2 _ (by simp) s a).1

/-- **A fill does not overdraw exactly when its sums fit.** -/
theorem not_overdrawn_iff {s s' : Storage} {call : Invocation} {matched : MatchInfo}
    {receipt : Receipt} (hs : s.view.Nonneg) (hapi : call.api = .fillOrder matched)
    (hcall : invoke env call s = .ok (receipt, s')) :
    (∀ f ∈ receipt.fills, f.NotOverdrawn) ↔ ∀ f ∈ receipt.fills, f.Fits := by
  obtain ⟨o, ho, -⟩ := invoke_eq_ok hcall
  rw [execute, hapi] at ho
  simp only [bind_eq_ok, pure_eq_ok, Prod.mk.injEq] at ho
  obtain ⟨-, -, fills, hfills, rfl, -⟩ := ho
  obtain ⟨taker, makers, rfl, hmatched⟩ := checkMatchedOrders_eq_ok hfills
  exact hmatched.filled.notOverdrawn_iff hs

/-- A fill of the two orders after deposits of `alice` and `bob`. -/
def sampleFill (env : Env) (ofAlice ofBob getNum spentNum : Int64) :
    Except String ((List Receipt × Storage) × Receipt × Storage) := do
  let reached ← sampleRun env InRange
    [⟨.onDepositAsset ofAlice (text "P"), alice, 0, true⟩,
      ⟨.onDepositAsset ofBob (text "Q"), bob, 0, true⟩]
  let result ← invoke env ⟨.fillOrder (sampleMatch getNum spentNum), alice, 0, true⟩ reached.2
  pure (reached, result)

theorem sampleFill_eq_ok {ofAlice ofBob getNum spentNum : Int64}
    {result : (List Receipt × Storage) × Receipt × Storage}
    (h : sampleFill env ofAlice ofBob getNum spentNum = .ok result) :
    result.1.2.view.Nonneg ∧
      invoke env ⟨.fillOrder (sampleMatch getNum spentNum), alice, 0, true⟩ result.1.2 =
        .ok result.2 := by
  simp only [sampleFill, bind_eq_ok, pure_eq_ok] at h
  obtain ⟨reached, hreached, filled, hfilled, rfl⟩ := h
  exact ⟨((runs_sampleRun hreached).balanced isSymbol_P).nonneg, hfilled⟩

instance (f : Fill) : Decidable f.Fits := inferInstanceAs (Decidable (_ ∧ (_ ∨ _)))

theorem not_overdrawn_iff_sample : ∃ env s s' call matched receipt,
    s.view.Nonneg ∧ call.api = .fillOrder matched ∧ invoke env call s = .ok (receipt, s') ∧
    ∀ f ∈ receipt.fills, f.NotOverdrawn := by
  have hfill : (sampleFill feeEnv 110 100 100 100).map (fun r => decide (∀ f ∈ r.2.1.fills, f.Fits))
      = .ok true := by decide +kernel
  obtain ⟨⟨⟨_, s⟩, receipt, s'⟩, hresult, hfits⟩ := map_eq_ok.mp hfill
  obtain ⟨hnonneg, hcall⟩ := sampleFill_eq_ok hresult
  exact ⟨feeEnv, s, s', _, _, receipt, hnonneg, rfl, hcall,
    (not_overdrawn_iff hnonneg rfl hcall).mpr (of_decide_eq_true hfits)⟩

/-- `alice` pays `6 * 10 ^ 18` units and a fee of 60 %. -/
def overflowEnv : Env :=
  sampleEnv (sampleInfo "Q" 1 "P" 6000000000000000000 "0.6" "buy")
    (sampleInfo "P" 6000000000000000000 "Q" 1 "0.0" "sell")

/-- **The sum that is compared with the balance overflows**: one unit suffices. -/
theorem overdrawn : ∃ env s s' call matched receipt f,
    s.view.Nonneg ∧ call.api = .fillOrder matched ∧ invoke env call s = .ok (receipt, s') ∧
    receipt.fills.head? = some f ∧ f.order.spentNum.toInt = 6 * 10 ^ 18 ∧
    f.spentFee.toInt = 36 * 10 ^ 17 ∧ f.before.accounts f.info.payAsset f.owner = 1 ∧
    ¬ f.NotOverdrawn := by
  have hfill : (sampleFill overflowEnv 1 1 1 6000000000000000000).map (fun r =>
      r.2.1.fills.head?.map fun f => (f.order.spentNum.toInt, f.spentFee.toInt,
        f.before.accounts f.info.payAsset f.owner)) =
      .ok (some (6 * 10 ^ 18, 36 * 10 ^ 17, 1)) := by decide +kernel
  obtain ⟨⟨⟨_, s⟩, receipt, s'⟩, hresult, hfirst⟩ := map_eq_ok.mp hfill
  obtain ⟨hnonneg, hcall⟩ := sampleFill_eq_ok hresult
  obtain ⟨f, hf, hfacts⟩ := Option.map_eq_some_iff.mp hfirst
  simp only [Prod.mk.injEq] at hfacts
  obtain ⟨hspent, hfee, hbalance⟩ := hfacts
  refine ⟨overflowEnv, s, s', _, _, receipt, f, hnonneg, rfl, hcall, hf, hspent, hfee, hbalance, ?_⟩
  rintro ⟨hle, -⟩
  omega

end Exchange

end Whitecoin.Native
