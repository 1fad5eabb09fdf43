import Whitecoin.Contract.Transfer

/-!
# The notes as an overlay of the chain

While a contract runs, the chain together with the notes is the state that the contract sees. The
notes are sound if that state is: a contract never has less than nothing, what was deposited is
found again in the notes, and the chain can carry them out.

`validate` is a second look at finished notes. It is meant to check that contracts pay at least what
is received and charged. The fees never get into the sums that it compares.
-/

namespace Whitecoin.Contract

open Check Ledger Fees

namespace InvokeResult

/-- The amounts of a book that are of one asset. -/
def total (b : Book Index) (i : AssetId) : ℤ := b.sumBy (·.2 = i)

/-- What the notes come to for all addresses, with the fees. -/
def booked (r : InvokeResult) (i : AssetId) : ℤ :=
  total r.depositContract i - total r.contractWithdraw i + total r.depositToAddress i + r.fee i

variable {b b' : Book Index} {k : Index} {n : ℤ}

theorem total_of_amount {d : ℤ} (h : ∀ j, b'.amount j = b.amount j + if j = k then d else 0)
    (i : AssetId) : total b' i = total b i + if k.2 = i then d else 0 :=
  Book.sumBy_of_amount (fun k : Index => k.2 = i) h

theorem total_setOff {rest : ℤ} (h : setOff b k n = .ok (b', rest)) (i : AssetId) :
    total b' i = total b i + if k.2 = i then rest - n else 0 := by
  refine total_of_amount (fun j => ?_) i
  rw [amount_setOff h]
  split <;> omega

theorem total_addTo (h : addTo b k n = .ok b') (i : AssetId) :
    total b' i = total b i + if k.2 = i then n else 0 :=
  total_of_amount (amount_addTo h) i

end InvokeResult

open InvokeResult

/-! ### Calls -/

/-- A view with another share as the fee of a transfer. -/
def ChainView.sharing (v : ChainView) (share : ℕ) : ChainView :=
  { v with
    feeShare _ _ := share
    feeShare_nonneg _ _ := Int.natCast_nonneg share }

/-- What a running contract can do to the notes. The share that the code computes in floating point
is a part of the call. -/
inductive Call where
  | deposit (contract : Address) (amount : Asset)
  | transfer (contract : Address) (amount : Asset) (toAddr : Address) (share : ℕ)
  | balance (contract : Address) (assetId : AssetId)

namespace Call

/-- Amounts are positive, and the share is at most the amount that it is taken from. -/
def Allowed : Call → Prop
  | deposit _ a => 0 < a.amount
  | transfer _ a _ share => 0 < a.amount ∧ share ≤ a.amount
  | balance _ _ => True

instance : DecidablePred Allowed
  | deposit _ _ => inferInstanceAs (Decidable (_ < _))
  | transfer _ _ _ _ => inferInstanceAs (Decidable (_ ∧ _))
  | balance _ _ => inferInstanceAs (Decidable True)

/-- What a call deposits. -/
def deposited (i : AssetId) : Call → ℤ
  | deposit _ a => if a.assetId = i then a.amount else 0
  | transfer _ _ _ _ => 0
  | balance _ _ => 0

end Call

/-- One call. A transfer for which there is not enough returns to the contract, which goes on. -/
def perform (v : ChainView) (l : Accounts) (r : InvokeResult) : Call → Except String InvokeResult
  | .deposit contract a => depositToContract v r contract a
  | .transfer contract a toAddr share =>
    (transferToAddress (v.sharing share) l r contract a toAddr).map (·.2)
  | .balance contract assetId => (getContractBalance l r contract assetId).map (·.2)

/-! ### The invariant -/

section Invariant

variable {κ : Type} [DecidableEq κ] {b b' : Book κ} {k : κ} {n rest : ℤ}

theorem setOff_nonneg (hn : 0 ≤ n) (hb : ∀ j, 0 ≤ b.amount j)
    (h : setOff b k n = .ok (b', rest)) : 0 ≤ rest ∧ ∀ j, 0 ≤ b'.amount j := by
  have hamount := amount_setOff h
  unfold setOff at h
  split at h
  next =>
    obtain ⟨rfl, rfl⟩ := Prod.mk.inj (Except.ok.inj h)
    exact ⟨hn, hb⟩
  next m hk =>
    have hm := Book.amount_of_lookup hk
    split at h
    all_goals
      simp only [bind_eq_ok, pure_eq_ok, Prod.mk.injEq] at h
      obtain ⟨d, hd, rfl, rfl⟩ := h
      have hd := Safe.sub_eq_ok hd
      refine ⟨by omega, fun j => ?_⟩
      have hj := hb j
      rw [Book.amount_insert]
      split <;> omega

theorem addTo_nonneg (hn : 0 ≤ n) (hb : ∀ j, 0 ≤ b.amount j) (h : addTo b k n = .ok b') (j : κ) :
    0 ≤ b'.amount j := by
  have hj := hb j
  rw [amount_addTo h]
  split <;> omega

end Invariant

/-- The notes can be carried out on the chain, and what is noted as read from it is right. -/
structure Sound (l : Accounts) (r : InvokeResult) : Prop where
  read : ∀ k n, r.contractBalances.lookup k = some n → n = l.balance k.1 k.2
  depositContract : ∀ k, 0 ≤ r.depositContract.amount k
  contractWithdraw : ∀ k, 0 ≤ r.contractWithdraw.amount k
  depositToAddress : ∀ k, 0 ≤ r.depositToAddress.amount k
  covered : ∀ k, r.contractWithdraw.amount k ≤ l.balance k.1 k.2 + r.depositContract.amount k

variable {v : ChainView} {l : Accounts} {r r' : InvokeResult} {contract toAddr : Address} {a : Asset}

theorem sound_empty (hl : ∀ c i, 0 ≤ l.balance c i) : Sound l .empty where
  read k n h := by cases h
  depositContract k := Int.le_refl _
  contractWithdraw k := Int.le_refl _
  depositToAddress k := Int.le_refl _
  covered k := Int.add_nonneg (hl _ _) (Int.le_refl _)

namespace Sound

theorem balance_eq (h : Sound l r) (c : Address) (i : AssetId) :
    (r.contractBalances.lookup (c, i)).getD (l.balance c i) = l.balance c i := by
  cases hk : r.contractBalances.lookup (c, i) with
  | none => rfl
  | some n => exact h.read _ _ hk

theorem reading (h : Sound l r) (c : Address) (i : AssetId) :
    Sound l { r with
      contractBalances := r.contractBalances.insert (c, i)
        ((r.contractBalances.lookup (c, i)).getD (l.balance c i)) } where
  read k n hk := by
    by_cases hkey : k = (c, i)
    · rw [hkey, AList.lookup_insert, h.balance_eq] at hk
      rw [hkey]
      exact (Option.some.inj hk).symm
    · rw [AList.lookup_insert_ne hkey] at hk
      exact h.read k n hk
  depositContract := h.depositContract
  contractWithdraw := h.contractWithdraw
  depositToAddress := h.depositToAddress
  covered := h.covered

theorem deposit (h : Sound l r) (ha : 0 < a.amount)
    (hr : depositToContract v r contract a = .ok r') : Sound l r' := by
  simp only [depositToContract, bind_eq_ok, require_eq_ok, exists_and_left, exists_const,
    Prod.exists] at hr
  obtain ⟨-, withdraw, rest, hoff, hr⟩ := hr
  obtain ⟨hrest, hwithdraw⟩ := setOff_nonneg ha.le h.contractWithdraw hoff
  split at hr
  next hzero =>
    obtain rfl := pure_eq_ok.mp hr
    refine { h with contractWithdraw := hwithdraw, covered := fun k => ?_ }
    have := h.covered k
    show withdraw.amount k ≤ _ + r.depositContract.amount k
    rw [amount_setOff hoff]
    split <;> omega
  next =>
    simp only [bind_eq_ok, pure_eq_ok] at hr
    obtain ⟨deposit, hadd, rfl⟩ := hr
    refine { h with
      contractWithdraw := hwithdraw
      depositContract := addTo_nonneg hrest h.depositContract hadd
      covered := fun k => ?_ }
    have := h.covered k
    show withdraw.amount k ≤ _ + deposit.amount k
    rw [amount_setOff hoff, amount_addTo hadd]
    split <;> omega

theorem withdraw {enough : Bool} (h : Sound l r) (ha : 0 < a.amount)
    (hr : withdrawFrom l r contract a = .ok (enough, r')) : Sound l r' := by
  have hread := h.reading contract a.assetId
  obtain ⟨-, rfl⟩ | ⟨-, hle, deposit, rest, withdraw, hoff, hadd, rfl⟩ := withdrawFrom_cases hr
  · exact hread
  · obtain ⟨hrest, hdeposit⟩ := setOff_nonneg ha.le h.depositContract hoff
    refine { hread with
      depositContract := hdeposit
      contractWithdraw := addTo_nonneg hrest h.contractWithdraw hadd
      covered := fun k => ?_ }
    have := h.covered k
    show withdraw.amount k ≤ l.balance k.1 k.2 + deposit.amount k
    rw [amount_setOff hoff, amount_addTo hadd]
    split
    next hk =>
      subst hk
      -- the check that the contract has enough
      rw [h.balance_eq] at hle
      simp only at hle ⊢
      omega
    next => omega

end Sound

variable {share : ℕ} {enough : Bool}

theorem transferFee_sharing {amount fee : ℤ} (hamount : 0 ≤ amount) (hshare : share ≤ amount)
    (h : transferFee (v.sharing share) contract toAddr amount = .ok fee) :
    0 ≤ fee ∧ fee ≤ amount := by
  refine ⟨transferFee_nonneg hamount h, ?_⟩
  simp only [transferFee, bind_eq_ok] at h
  obtain ⟨con, -, h⟩ := h
  split at h
  next => exact (pure_eq_ok.mp h) ▸ hamount
  next =>
    simp only [bind_eq_ok, require_eq_ok, exists_const, pure_eq_ok] at h
    exact h.2 ▸ hshare

theorem Sound.transfer (h : Sound l r) (ha : 0 < a.amount) (hshare : share ≤ a.amount)
    (hr : transferToAddress (v.sharing share) l r contract a toAddr = .ok (enough, r')) :
    Sound l r' := by
  obtain ⟨r₁, hwithdraw, hcases⟩ := transferToAddress_cases ha.le hr
  have h₁ := h.withdraw ha hwithdraw
  obtain ⟨-, rfl⟩ | ⟨-, fee, n, deposit, fees, hfee, rfl, hadd, -, rfl⟩ := hcases
  · exact h₁
  · have hle := (transferFee_sharing ha.le hshare hfee).2
    exact { h₁ with
      depositToAddress := addTo_nonneg (Int.sub_nonneg.mpr hle) h₁.depositToAddress hadd }

theorem Sound.getContractBalance_nonneg {c : Address} {i : AssetId} {n : ℤ} (h : Sound l r)
    (hr : getContractBalance l r c i = .ok (n, r')) : 0 ≤ n ∧ Sound l r' := by
  simp only [getContractBalance, bind_eq_ok, pure_eq_ok, Prod.mk.injEq] at hr
  obtain ⟨deposited, hdeposited, balance, hbalance, rfl, rfl⟩ := hr
  refine ⟨?_, h.reading c i⟩
  have hcovered := h.covered (c, i)
  rw [Safe.sub_eq_ok hbalance, Safe.add_eq_ok hdeposited, h.balance_eq]
  exact Int.sub_nonneg.mpr hcovered

/-! ### What is booked -/

theorem booked_deposit (h : depositToContract v r contract a = .ok r') (i : AssetId) :
    r'.booked i = r.booked i + if a.assetId = i then a.amount else 0 := by
  simp only [depositToContract, bind_eq_ok, require_eq_ok, exists_and_left, exists_const,
    Prod.exists] at h
  obtain ⟨-, withdraw, rest, hoff, h⟩ := h
  split at h
  next hzero =>
    obtain rfl := pure_eq_ok.mp h
    simp only [booked, fee, total_setOff hoff]
    split <;> omega
  next =>
    simp only [bind_eq_ok, pure_eq_ok] at h
    obtain ⟨deposit, hadd, rfl⟩ := h
    simp only [booked, fee, total_setOff hoff, total_addTo hadd]
    split <;> omega

theorem booked_withdraw (h : withdrawFrom l r contract a = .ok (enough, r')) (i : AssetId) :
    r'.booked i = r.booked i - if enough = true ∧ a.assetId = i then a.amount else 0 := by
  obtain ⟨rfl, rfl⟩ | ⟨rfl, -, deposit, rest, withdraw, hoff, hadd, rfl⟩ := withdrawFrom_cases h
  · simp [booked, fee]
  · simp only [booked, fee, total_setOff hoff, total_addTo hadd, true_and]
    split <;> omega

theorem booked_transfer (ha : 0 < a.amount)
    (h : transferToAddress v l r contract a toAddr = .ok (enough, r')) (i : AssetId) :
    r'.booked i = r.booked i := by
  obtain ⟨r₁, hwithdraw, hcases⟩ := transferToAddress_cases ha.le h
  have hbooked := booked_withdraw hwithdraw i
  obtain ⟨rfl, rfl⟩ | ⟨rfl, fee, n, deposit, fees, -, rfl, hadd, hfees, rfl⟩ := hcases
  · simpa using hbooked
  · simp only [booked, InvokeResult.fee, total_addTo hadd, hfees, true_and] at hbooked ⊢
    by_cases hi : a.assetId = i
    · simp only [hi, if_true] at hbooked ⊢
      omega
    · simp only [hi, Ne.symm hi, if_false] at hbooked ⊢
      omega

theorem Sound.perform {c : Call} (h : Sound l r) (hc : c.Allowed)
    (hr : perform v l r c = .ok r') :
    Sound l r' ∧ ∀ i, r'.booked i = r.booked i + c.deposited i := by
  cases c with
  | deposit contract a => exact ⟨h.deposit hc hr, booked_deposit hr⟩
  | transfer contract a toAddr share =>
    obtain ⟨⟨enough, r₁⟩, htransfer, rfl⟩ := map_eq_ok.mp hr
    refine ⟨h.transfer hc.1 hc.2 htransfer, fun i => ?_⟩
    rw [Call.deposited, Int.add_zero, booked_transfer hc.1 htransfer]
  | balance contract i =>
    obtain ⟨⟨n, r₁⟩, hbalance, rfl⟩ := map_eq_ok.mp hr
    refine ⟨(h.getContractBalance_nonneg hbalance).2, fun j => ?_⟩
    simp only [getContractBalance, bind_eq_ok, pure_eq_ok, Prod.mk.injEq] at hbalance
    obtain ⟨_, -, _, -, -, rfl⟩ := hbalance
    simp [booked, fee, Call.deposited]

theorem Sound.run {calls : List Call} (h : Sound l r) (hcalls : ∀ c ∈ calls, c.Allowed)
    (hr : calls.foldlM (Contract.perform v l) r = .ok r') :
    Sound l r' ∧ ∀ i, r'.booked i = r.booked i + (calls.map (·.deposited i)).sum := by
  induction calls generalizing r with
  | nil =>
    obtain rfl := pure_eq_ok.mp hr
    exact ⟨h, fun i => by simp⟩
  | cons c calls ih =>
    rw [List.foldlM_cons, bind_eq_ok] at hr
    obtain ⟨r₁, hc, hr⟩ := hr
    obtain ⟨h₁, hbooked⟩ := h.perform (hcalls c (List.mem_cons_self ..)) hc
    obtain ⟨h', hbooked'⟩ := ih h₁ (fun c hc => hcalls c (List.mem_cons_of_mem _ hc)) hr
    refine ⟨h', fun i => ?_⟩
    rw [hbooked', hbooked, List.map_cons, List.sum_cons, Int.add_assoc]

/-! ### Carrying the notes out -/

namespace InvokeResult

variable {b : Book Index}

theorem adjustAll_credit (hb : ∀ k, 0 ≤ b.amount k) (l : Accounts) :
    adjustAll .ok b l ≠ .error "Insufficient Balance" := by
  have hentries : ∀ e ∈ b.entries, 0 ≤ e.2 := fun e he => Book.amount_of_mem he ▸ hb e.1
  refine foldlM_ne_error (P := fun es _ => ∀ e ∈ es, 0 ≤ e.2) (fun e es s hes => ?_) hentries
  refine ⟨?_, fun _ _ e he => hes e (List.mem_cons_of_mem _ he)⟩
  split
  next =>
    intro he
    cases he
  next =>
    exact bind_ne_error (by simp) fun n hn => Accounts.adjustBalance_ne_insufficient
      (.inr (Except.ok.inj hn ▸ hes e (List.mem_cons_self ..)))

/-- A loop that debits what is there. Each balance is debited once, so that what the loop has not
come to yet is still there. -/
theorem adjustAll_debit (hb : ∀ k, b.amount k ≤ l.balance k.1 k.2) :
    adjustAll (Safe.sub 0) b l ≠ .error "Insufficient Balance" := by
  refine foldlM_ne_error
    (P := fun es l => es.NodupKeys ∧ ∀ e ∈ es, e.2 ≤ l.balance e.1.1 e.1.2)
    (fun e es s hes => ?_) ⟨b.nodupKeys, fun e he => Book.amount_of_mem he ▸ hb e.1⟩
  obtain ⟨hnodup, hle⟩ := hes
  obtain ⟨hfresh, hnodup⟩ := List.nodupKeys_cons.mp hnodup
  have hrest : ∀ e ∈ es, e.2 ≤ s.balance e.1.1 e.1.2 := fun e he =>
    hle e (List.mem_cons_of_mem _ he)
  split
  next =>
    refine ⟨fun he => by simp at he, fun s' hs' => ?_⟩
    obtain rfl := Except.ok.inj hs'
    exact ⟨hnodup, hrest⟩
  next =>
    have hcovered := hle e (List.mem_cons_self ..)
    refine ⟨bind_ne_error (Safe.sub_ne_error (by decide) (by decide)) fun n hn => ?_,
      fun s' hs' => ⟨hnodup, fun e' he' => ?_⟩⟩
    · have := Safe.sub_eq_ok hn
      exact Accounts.adjustBalance_ne_insufficient (.inl (by omega))
    · obtain ⟨n, -, hs'⟩ := bind_eq_ok.mp hs'
      have hne : ¬(e'.1.1 = e.1.1 ∧ e'.1.2 = e.1.2) := fun h =>
        hfresh (Prod.ext h.1 h.2 ▸ List.mem_keys_of_mem he')
      rw [Accounts.balance_adjustBalance hs', if_neg hne, Int.add_zero]
      exact hrest e' he'

end InvokeResult

theorem Sound.applyBalance (h : Sound l r) : r.applyBalance l ≠ .error "Insufficient Balance" := by
  refine bind_ne_error (adjustAll_credit h.depositContract l) fun l₁ h₁ => ?_
  refine bind_ne_error (adjustAll_debit fun k => ?_) fun l₂ _ =>
    adjustAll_credit h.depositToAddress l₂
  have hbalance : l₁.balance k.1 k.2 = l.balance k.1 k.2 + 1 * r.depositContract.amount k :=
    (adjustAll_eq_ok (.inl rfl) (fun h => by
      rw [Int.one_mul]
      exact (Except.ok.inj h).symm) h₁).1 k.1 k.2
  have := h.covered k
  omega

/-- **The overlay is sound.** After any deposits, transfers and readings of one evaluation, the
notes of an asset come to what was deposited, no contract has a negative balance, and the chain
does not lack the balances to carry the notes out. -/
theorem overlay_sound {calls : List Call} (hl : ∀ c i, 0 ≤ l.balance c i)
    (hcalls : ∀ c ∈ calls, c.Allowed) (h : calls.foldlM (perform v l) .empty = .ok r) :
    (∀ i, total r.depositContract i - total r.contractWithdraw i + total r.depositToAddress i +
      r.transferFees.amount i = (calls.map (·.deposited i)).sum) ∧
    (∀ c i n r', getContractBalance l r c i = .ok (n, r') → 0 ≤ n) ∧
    r.applyBalance l ≠ .error "Insufficient Balance" := by
  obtain ⟨hsound, hbooked⟩ := (sound_empty hl).run hcalls h
  refine ⟨fun i => ?_, fun c i n r' hn => (hsound.getContractBalance_nonneg hn).1,
    hsound.applyBalance⟩
  have hi := hbooked i
  rwa [show InvokeResult.empty.booked i = 0 from rfl, Int.zero_add] at hi

/-- The contract 8 receives ten units, pays one of them, which is kept as the fee, and reads its
balance. -/
def tenIn : List Call :=
  [.deposit 8 ⟨10, 0, Safe.fits_ten⟩, .transfer 8 ⟨1, 0, Safe.fits_one⟩ 2 1, .balance 8 0]

theorem overlay_sound_tenIn :
    ∃ r, tenIn.foldlM (perform twoContracts oneHundred.accounts) .empty = .ok r ∧
      total r.depositContract 0 - total r.contractWithdraw 0 + total r.depositToAddress 0 +
        r.transferFees.amount 0 = 10 ∧
      r.applyBalance oneHundred.accounts ≠ .error "Insufficient Balance" := by
  have hrun : ((tenIn.foldlM (perform twoContracts oneHundred.accounts) .empty).isOk) = true := by
    decide +kernel
  obtain ⟨r, hr⟩ := exists_eq_ok hrun
  have hl : ∀ c i, 0 ≤ oneHundred.accounts.balance c i := by
    intro c i
    show (0 : ℤ) ≤ ((if c = 1 ∧ i = 0 then some (⟨100, 0⟩ : BalanceObject) else none).map
      (·.balance)).getD 0
    split <;> decide
  obtain ⟨hbooked, -, happly⟩ := overlay_sound hl (by decide) hr
  exact ⟨r, hr, hbooked 0, happly⟩

/-! ### The check of a finished result -/

namespace InvokeResult

/-- What contracts and addresses receive. -/
def received (r : InvokeResult) (i : AssetId) : ℤ :=
  total r.depositContract i + total r.depositToAddress i

/-- `in >= out + fee`. -/
def Covers (r : InvokeResult) : Prop :=
  ∀ i, r.received i + r.fee i ≤ total r.contractWithdraw i

theorem totals_eq_ok {b : Book Index} {sums sums' : Book AssetId} (h : totals b sums = .ok sums')
    (i : AssetId) : sums'.amount i = sums.amount i + total b i := by
  refine Book.foldlM_sumBy (g := (Book.amount · i)) (p := fun k : Index => k.2 = i) ?_ h
  intro s s' e hs
  split at hs
  next hzero =>
    obtain rfl := Except.ok.inj hs
    rw [hzero, ite_self, Int.add_zero]
  next => rw [amount_addTo hs, ite_cond_congr (eq_comm ..).eq]

theorem validate_eq_ok (h : r.validate = .ok ()) {i : AssetId} (hi : r.received i ≠ 0) :
    r.received i ≤ total r.contractWithdraw i := by
  simp only [validate, bind_eq_ok, forM_eq_ok, require_eq_ok] at h
  obtain ⟨inTotals, hin, out₁, hout₁, outTotals, hout, _, -, h⟩ := h
  have hwithdraw : inTotals.amount i = total r.contractWithdraw i := by
    rw [totals_eq_ok hin, Book.amount_empty, Int.zero_add]
  have hreceived : outTotals.amount i = r.received i := by
    rw [totals_eq_ok hout, totals_eq_ok hout₁, Book.amount_empty, Int.zero_add, received]
  obtain hzero | ⟨n, hn, hle⟩ :=
    h _ (Book.exists_mem_of_amount_ne_zero (hreceived ▸ hi))
  · exact absurd (hreceived ▸ hzero) hi
  · rw [← hwithdraw, ← hreceived, Book.amount_of_lookup (b := inTotals) hn]
    exact hle

end InvokeResult

/-- **The fees are not in the comparison**, and neither is an asset that nobody receives. A result
that passed `validate` covers what it pays and charges exactly if what is withdrawn leaves the fees
in the assets that have some, and is not negative in the assets without receivers and fees. -/
theorem validate_covers_iff (h : r.validate = .ok ()) :
    r.Covers ↔ (∀ i, r.fee i ≠ 0 → r.fee i ≤ total r.contractWithdraw i - r.received i) ∧
      ∀ i, r.received i = 0 → r.fee i = 0 → 0 ≤ total r.contractWithdraw i := by
  constructor
  · intro hcovers
    refine ⟨fun i _ => ?_, fun i hreceived hfee => ?_⟩
    · have := hcovers i
      omega
    · have := hcovers i
      omega
  · rintro ⟨hfees, hsilent⟩ i
    by_cases hfee : r.fee i = 0
    · by_cases hreceived : r.received i = 0
      · have := hsilent i hreceived hfee
        omega
      · have := validate_eq_ok h hreceived
        omega
    · have := hfees i hfee
      omega

/-- The contract 8 pays ten units, of which the address 2 receives some. -/
def paysTen (received fee : ℤ) : InvokeResult :=
  { empty with
    contractWithdraw := AList.insert (8, 0) 10 ∅
    depositToAddress := AList.insert (2, 0) received ∅
    transferFees := AList.insert 0 fee ∅ }

theorem validate_covers_iff_six :
    (paysTen 6 4).validate = .ok () ∧ ((paysTen 6 4).Covers ↔
      (∀ i, (paysTen 6 4).fee i ≠ 0 →
        (paysTen 6 4).fee i ≤ total (paysTen 6 4).contractWithdraw i - (paysTen 6 4).received i) ∧
      ∀ i, (paysTen 6 4).received i = 0 → (paysTen 6 4).fee i = 0 →
        0 ≤ total (paysTen 6 4).contractWithdraw i) := by
  have h : (paysTen 6 4).validate = .ok () := by decide +kernel
  exact ⟨h, validate_covers_iff h⟩

/-- All ten units are received, and the fee of four comes from nowhere. -/
theorem validate_not_covers : (paysTen 10 4).validate = .ok () ∧ ¬ (paysTen 10 4).Covers := by
  refine ⟨by decide +kernel, fun h => ?_⟩
  have h0 := h 0
  revert h0
  decide +kernel

end Whitecoin.Contract
