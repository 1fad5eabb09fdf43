import Mathlib.Data.List.Dedup
import Whitecoin.Crosschain.Accounted
import Whitecoin.Crosschain.Settlement

/-!
# Payouts are backed by withdrawals

A node that has a handle for a chain compares the external transaction of a batch with the
withdrawals the batch lists: what is paid, with the miner fee and the fee of the chain, is the sum
of the withdrawals. The comparison goes through the list as it was submitted. A withdrawal that is
listed twice is counted twice, and only the sums of each external account are compared, so that a
payment of twice the amount passes.

The comparison reads the amount of a withdrawal with the asset that its symbol names, and the
external transaction with the asset that the symbol or the id of the batch names. None of these is
compared with the asset that was debited.
-/

namespace Whitecoin.Crosschain

open Check Ledger

variable {env : Env} {trx : Transaction} {s s' : State} {all : AssetTable} {o : WithoutSignOp}
  {turned : CrosschainTrx} {hdl : Handle} {id : TrxId}

/-! ### The comparison -/

/-- What the comparison read about a listed withdrawal: the operation, the payment to its account,
the asset its symbol names, and its amount. -/
structure Counted (env : Env) (s : State) (o : WithoutSignOp) (turned : CrosschainTrx) (id : TrxId)
    (r : Record) (w : WithdrawOp) (paid : HdTrx) (asset : Asset) (amount : ℤ) : Prop where
  find : s.find id = some r
  first : r.realTransaction.withdrawOp = some w
  lookup : turned.trxs.lookup (externalAccount env o.assetSymbol w) = some paid
  symbol : paid.assetSymbol = w.assetSymbol
  bySymbol : env.assets.bySymbol w.assetSymbol = some asset
  amount_eq : asset.amount w.amount = .ok amount

/-- The sum of the withdrawals that were counted. -/
def sumTotals (totals : List Total) : ℤ := (totals.map (·.amount)).sum

variable {fee : ℤ} {totals totals' : List Total} {ids : List TrxId} {asset : Asset} {u : Unit}
  {α : Type} {l : List α} {v : α → ℤ}

theorem addTotal_eq_ok {account : String} {asset : AssetId} {amount : ℤ}
    (h : addTotal account asset amount fee totals = .ok totals') :
    sumTotals totals' = sumTotals totals + amount := by
  induction totals generalizing totals' with
  | nil =>
    simp only [addTotal, bind_eq_ok, pure_eq_ok] at h
    obtain ⟨_, -, rfl⟩ := h
    simp [sumTotals]
  | cons t totals ih =>
    simp only [addTotal] at h
    split at h
    · simp only [bind_eq_ok, require_eq_ok, exists_and_left, pure_eq_ok] at h
      obtain ⟨-, _, sum, hsum, _, -, rfl⟩ := h
      simp only [sumTotals, List.map_cons, List.sum_cons, Safe.add_eq_ok hsum]
      omega
    · simp only [bind_eq_ok, pure_eq_ok] at h
      obtain ⟨rest, hrest, rfl⟩ := h
      have := ih hrest
      simp only [sumTotals, List.map_cons, List.sum_cons] at this ⊢
      omega

theorem countWithdrawal_eq_ok (h : countWithdrawal env s o fee turned totals id = .ok totals') :
    ∃ r w paid asset amount, Counted env s o turned id r w paid asset amount ∧
      sumTotals totals' = sumTotals totals + amount := by
  simp only [countWithdrawal, bind_eq_ok, found_eq_ok, require_eq_ok, exists_and_left,
    exists_const] at h
  obtain ⟨r, hr, -, w, hw, paid, hpaid, -, asset, hasset, hsymbol, amount, hamount, hadd⟩ := h
  exact ⟨r, w, paid, asset, amount, ⟨hr, hw, hpaid, hsymbol, hasset, hamount⟩, addTotal_eq_ok hadd⟩

/-- The totals add up to what the withdrawals are worth, each as often as it is listed. -/
theorem countWithdrawals_eq_ok {worth : TrxId → ℤ}
    (hworth : ∀ id ∈ ids, ∀ r w paid asset amount,
      Counted env s o turned id r w paid asset amount → amount = worth id)
    (h : ids.foldlM (countWithdrawal env s o fee turned) totals = .ok totals') :
    sumTotals totals' = sumTotals totals + (ids.map worth).sum := by
  induction ids generalizing totals with
  | nil =>
    rw [List.foldlM_nil, pure_eq_ok] at h
    simp [h]
  | cons id ids ih =>
    rw [List.foldlM_cons, bind_eq_ok] at h
    obtain ⟨t, ht, h⟩ := h
    obtain ⟨r, w, paid, asset, amount, hcounted, hsum⟩ := countWithdrawal_eq_ok ht
    have hrest := ih (fun x hx => hworth x (List.mem_cons_of_mem _ hx)) h
    have hamount := hworth id (List.mem_cons_self ..) r w paid asset amount hcounted
    rw [hrest, hsum, hamount, List.map_cons, List.sum_cons, Int.add_assoc]

theorem counted_of_foldlM (h : ids.foldlM (countWithdrawal env s o fee turned) totals = .ok totals')
    (hid : id ∈ ids) :
    ∃ r w paid asset amount, Counted env s o turned id r w paid asset amount := by
  induction ids generalizing totals with
  | nil => cases hid
  | cons x ids ih =>
    rw [List.foldlM_cons, bind_eq_ok] at h
    obtain ⟨t, ht, h⟩ := h
    rcases List.mem_cons.mp hid with rfl | hid
    · obtain ⟨r, w, paid, asset, amount, hcounted, -⟩ := countWithdrawal_eq_ok ht
      exact ⟨r, w, paid, asset, amount, hcounted⟩
    · exact ih h hid

theorem compareTotals_eq_ok {total : ℤ} (h : compareTotals asset turned totals = .ok total) :
    total = sumTotals totals := by
  have hfold : ∀ {totals : List Total} {a b : ℤ}, totals.foldlM (fun total t => do
      let trx ← found (turned.trxs.lookup t.account) "create_trxs.trxs.count == 1"
      require (t.amount = (← Safe.add (← asset.amount trx.amount) t.fee)) "one_balance.second.amount"
      Safe.add total t.amount) a = .ok b → b = a + sumTotals totals := by
    intro totals
    induction totals with
    | nil =>
      intro a b h
      rw [List.foldlM_nil, pure_eq_ok] at h
      simp [sumTotals, h]
    | cons t totals ih =>
      intro a b h
      rw [List.foldlM_cons, bind_eq_ok] at h
      obtain ⟨c, hc, h⟩ := h
      simp only [bind_eq_ok] at hc
      obtain ⟨_, -, _, -, _, -, _, -, hadd⟩ := hc
      rw [ih h, Safe.add_eq_ok hadd]
      simp only [sumTotals, List.map_cons, List.sum_cons]
      omega
  have := hfold h
  omega

/-- The payments of the external transaction are worth `paid`, as the asset reads them. -/
def Pays (asset : Asset) (turned : CrosschainTrx) (paid : ℤ) : Prop :=
  ∃ amounts, turned.trxs.mapM (fun t => asset.amount t.2.amount) = .ok amounts ∧ paid = amounts.sum

/-- What the comparison says: every listed withdrawal was counted, and the sum is what the external
transaction pays, read with the asset the batch names by id, with the fees. -/
structure Reconciled (env : Env) (s : State) (o : WithoutSignOp) (turned : CrosschainTrx)
    (optAsset : Asset) (paid fee : ℤ) : Prop where
  counted : ∀ id ∈ o.ccwTrxIds, ∃ r w paid asset amount,
    Counted env s o turned id r w paid asset amount
  byId : env.assets.byId o.assetId = some optAsset
  pays : Pays optAsset turned paid
  fee_eq : crossFee optAsset turned = .ok fee
  sum : ∀ worth : TrxId → ℤ, (∀ id ∈ o.ccwTrxIds, ∀ r w paid asset amount,
      Counted env s o turned id r w paid asset amount → amount = worth id) →
    (o.ccwTrxIds.map worth).sum = paid + o.crosschainFee + fee

theorem reconcile_eq_ok {symbolAsset : Asset} (h : reconcile env s o symbolAsset turned = .ok u) :
    ∃ optAsset paid fee, Reconciled env s o turned optAsset paid fee := by
  simp only [reconcile, bind_eq_ok, found_eq_ok, require_eq_ok, exists_and_left, exists_const] at h
  obtain ⟨totals, hcount, -, optAsset, hopt, fee, hfee, total, hcompare, paid, hpaid, -, sum, hsum,
    sum', hsum', heq⟩ := h
  obtain ⟨amounts, hamounts, rfl⟩ := Safe.sum_eq_ok hpaid
  refine ⟨optAsset, amounts.sum, fee, fun id hid => counted_of_foldlM hcount hid, hopt,
    ⟨amounts, hamounts, rfl⟩, hfee, fun worth hworth => ?_⟩
  have htotals := countWithdrawals_eq_ok hworth hcount
  rw [← compareTotals_eq_ok hcompare, heq, Safe.add_eq_ok hsum', Safe.add_eq_ok hsum] at htotals
  simp only [sumTotals, List.map_nil, List.sum_nil] at htotals
  omega

/-- The external transaction of a batch, as the handle reads it. -/
def Turned (env : Env) (hdl : Handle) (o : WithoutSignOp) (turned : CrosschainTrx) : Prop :=
  ∃ symbolAsset, env.assets.bySymbol o.assetSymbol = some symbolAsset ∧
    turnWithoutSign env hdl o symbolAsset = .ok turned

theorem evaluateWithoutSign_reconciled (h : evaluateWithoutSign env trx o s = .ok u)
    (hactive : env.handle o.assetSymbol = some hdl) (hlate : env.late = false)
    (hturned : Turned env hdl o turned) :
    ∃ optAsset paid fee, Reconciled env s o turned optAsset paid fee := by
  obtain ⟨asset, hasset, hturn⟩ := hturned
  simp only [evaluateWithoutSign, bind_eq_ok, found_eq_ok, require_eq_ok, exists_and_left,
    exists_const, hactive, hlate, Bool.false_eq_true, if_false] at h
  obtain ⟨asset', hasset', -, -, -, -, turned', hturn', hreconcile⟩ := h
  obtain rfl := Option.mem_unique hasset hasset'
  obtain rfl := Except.ok.inj (hturn.symm.trans hturn')
  exact reconcile_eq_ok hreconcile

/-! ### The asset that is paid -/

/-- The withdrawal debited once, in the asset and with the amount with which it is counted. -/
def PaysDebited (env : Env) (s : State) (o : WithoutSignOp) (turned : CrosschainTrx)
    (id : TrxId) : Prop :=
  ∃ r w paid asset amount, Counted env s o turned id r w paid asset amount ∧
    debits s.history id = [(w.withdrawAccount, asset.id, amount)]

/-- The id and the symbol of the withdrawal name one asset. -/
def NamesItsAsset (all : AssetTable) (s : State) (id : TrxId) : Prop :=
  ∀ r w, s.find id = some r → r.realTransaction.withdrawOp = some w →
    all.Names w.assetId w.assetSymbol

variable {s₀ : State} {done : List Operation}

theorem paysDebited_iff (hs : Accounted all s) (henv : all.Within env.assets)
    (hcounted : ∃ r w paid asset amount, Counted env s o turned id r w paid asset amount) :
    PaysDebited env s o turned id ↔ NamesItsAsset all s id := by
  obtain ⟨r, w, paid, asset, amount, hc⟩ := hcounted
  obtain ⟨hhas, hsymbol⟩ := henv.has_bySymbol hc.bySymbol
  obtain ⟨debitedAsset, debitedAmount, hhas', hid', hamount', hdebits⟩ :=
    hs.debited id r w hc.find hc.first
  have hnames : all.Names w.assetId w.assetSymbol ↔ w.assetId = asset.id :=
    hsymbol ▸ hhas.names_iff
  constructor
  · rintro ⟨r', w', paid', asset', amount', hc', hdebits'⟩ x y hx hy
    obtain rfl := Option.mem_unique hc.find hx
    obtain rfl := Option.mem_unique hc.first hy
    obtain rfl := Option.mem_unique hc.find hc'.find
    obtain rfl := Option.mem_unique hc.first hc'.first
    obtain rfl := Option.mem_unique hc.bySymbol hc'.bySymbol
    rw [hdebits'] at hdebits
    simp only [List.cons.injEq, Prod.mk.injEq, and_true, true_and] at hdebits
    exact hnames.mpr hdebits.1.symm
  · intro h
    have heq := hnames.mp (h r w hc.find hc.first)
    have hamount := hhas'.amount_eq hhas (hid'.trans heq) hamount' hc.amount_eq
    exact ⟨r, w, paid, asset, amount, hc, by rw [hdebits, heq, hamount]⟩

/-- **A withdrawal that a batch lists is counted as what it debited exactly when its id and its
symbol name one asset.** -/
theorem withoutSign_paysDebited_iff
    (hrecords : s₀.records = []) (hhistory : s₀.history = [])
    (hreached : Reached (fun env _ _ _ => all.Within env.assets) s₀ done env trx (.withoutSign o) s)
    (henv : all.Within env.assets) (hactive : env.handle o.assetSymbol = some hdl)
    (hlate : env.late = false) (hturned : Turned env hdl o turned)
    (h : applyOperation env trx (.withoutSign o) s = .ok s') (hid : id ∈ o.ccwTrxIds) :
    PaysDebited env s o turned id ↔ NamesItsAsset all s id := by
  obtain ⟨first, hw⟩ := withoutSign_eq_ok h
  obtain ⟨optAsset, paid, fee, hreconciled⟩ :=
    evaluateWithoutSign_reconciled hw.evaluated hactive hlate hturned
  exact paysDebited_iff (hreached.accounted hrecords hhistory) henv (hreconciled.counted id hid)

/-! ### The amount that is paid -/

theorem sum_dedup_le [DecidableEq α] (hv : ∀ a ∈ l, 0 < v a) :
    (l.dedup.map v).sum ≤ (l.map v).sum := by
  induction l with
  | nil => rfl
  | cons a l ih =>
    have hle := ih fun b hb => hv b (List.mem_cons_of_mem _ hb)
    have hpos := hv a (List.mem_cons_self ..)
    by_cases ha : a ∈ l
    · rw [List.dedup_cons_of_mem ha, List.map_cons, List.sum_cons]
      omega
    · rw [List.dedup_cons_of_notMem ha, List.map_cons, List.map_cons, List.sum_cons, List.sum_cons]
      omega

/-- With positive values, the sum over the distinct elements is the whole sum only if all elements
are distinct. -/
theorem sum_dedup_eq_iff [DecidableEq α] (hv : ∀ a ∈ l, 0 < v a) :
    (l.dedup.map v).sum = (l.map v).sum ↔ l.Nodup := by
  refine ⟨fun h => ?_, fun h => by rw [h.dedup]⟩
  induction l with
  | nil => exact List.nodup_nil
  | cons a l ih =>
    have hle := sum_dedup_le fun b hb => hv b (List.mem_cons_of_mem _ hb)
    have hpos := hv a (List.mem_cons_self ..)
    by_cases ha : a ∈ l
    · rw [List.dedup_cons_of_mem ha, List.map_cons, List.sum_cons] at h
      omega
    · rw [List.dedup_cons_of_notMem ha, List.map_cons, List.map_cons, List.sum_cons,
        List.sum_cons] at h
      exact List.nodup_cons.mpr
        ⟨ha, ih (fun b hb => hv b (List.mem_cons_of_mem _ hb)) (by omega)⟩

/-- What a withdrawal debited. -/
def debited (history : List Event) (id : TrxId) : ℤ := ((debits history id).map (·.2.2)).sum

/-- What the external transaction pays, with its fee and the fee of the chain, is what the distinct
withdrawals of the batch debited, and none of them was in a batch before. -/
def Backed (env : Env) (s : State) (o : WithoutSignOp) (turned : CrosschainTrx) : Prop :=
  (∃ asset paid fee, env.assets.bySymbol o.assetSymbol = some asset ∧ Pays asset turned paid ∧
    crossFee asset turned = .ok fee ∧
    paid + fee + o.crosschainFee = (o.ccwTrxIds.dedup.map (debited s.history)).sum) ∧
  ∀ id ∈ o.ccwTrxIds, ∃ r, s.find id = some r ∧ r.trxState = .withoutSignTrxUncreate

theorem Pays.unique {paid paid' : ℤ} (h : Pays asset turned paid) (h' : Pays asset turned paid') :
    paid = paid' := by
  obtain ⟨xs, hxs, rfl⟩ := h
  obtain ⟨ys, hys, rfl⟩ := h'
  rw [Except.ok.inj (hxs.symm.trans hys)]

/-! ### A handle that pays -/

/-- An external transaction of one payment, without a fee. -/
def onePayment (paid : HdTrx) : CrosschainTrx := ⟨[(paid.toAccount, paid)], by simp, fun _ => "0"⟩

/-- A handle that reads every external transaction as that one. -/
def payingHandle (paid : HdTrx) : Handle where
  validateAddress _ := true
  turnTrxs _ := .ok (onePayment paid)
  turnTrx _ _ := .ok paid
  getFromAddress _ := .ok paid.fromAccount
  validateLinkTrx _ := true
  validateLinkTrxV1 _ := true
  validateSignature _ _ _ := true
  validateTransaction _ _ _ := true
  transactionQuery _ := none

/-- A coin of which one smallest unit is a whole coin. -/
def dust : Asset := ⟨3, "DUST", 0, 1000000, true, "", 1, 0⟩

def payingEnv (paid : HdTrx) : Env :=
  { quietEnv with
    assets := ⟨[bitcoin, ether, dust], by decide, by decide⟩
    handle := fun _ => some (payingHandle paid) }

/-- Bitcoins are paid to the account that the withdrawals name. -/
def bitcoins (amount : String) : HdTrx := ⟨"", "", "somewhere", amount, "BTC"⟩

/-- After a withdrawal of two bitcoins, on a node whose handle reads a payment of `amount`. -/
def withdrawn (amount : String) : State :=
  run tenBitcoins [(payingEnv (bitcoins amount), twoBitcoins)]

/-- A batch of withdrawals of bitcoins. -/
def batchOp (ids : List TrxId) : WithoutSignOp := ⟨ids, "source", "BTC", 1, 0⟩

theorem find_withdrawn : (withdrawn "2").find 1 = some (withdrawRecord twoBitcoins) := by
  decide +kernel

theorem namesItsAsset_withdrawn :
    NamesItsAsset (payingEnv (bitcoins "2")).assets (withdrawn "2") 1 := by
  intro r w hr hw
  obtain rfl := Option.mem_unique find_withdrawn hr
  obtain rfl := Option.some.inj hw
  decide +kernel

theorem reached_withdrawn : Reached
    (fun env _ _ _ => (payingEnv (bitcoins "2")).assets.Within env.assets) tenBitcoins
    twoBitcoins.operations (payingEnv (bitcoins "2")) (bitcoinBatch [1]) (.withoutSign (batchOp [1]))
    (withdrawn "2") :=
  ⟨[(payingEnv (bitcoins "2"), twoBitcoins)], [], [], rfl, by decide +kernel, trivial, rfl,
    by decide +kernel⟩

theorem withoutSign_paysDebited_two : ∃ s', applyOperation (payingEnv (bitcoins "2"))
      (bitcoinBatch [1]) (.withoutSign (batchOp [1])) (withdrawn "2") = .ok s' ∧
    PaysDebited (payingEnv (bitcoins "2")) (withdrawn "2") (batchOp [1])
      (onePayment (bitcoins "2")) 1 := by
  obtain ⟨s', h⟩ := exists_eq_ok (x := applyOperation (payingEnv (bitcoins "2"))
    (bitcoinBatch [1]) (.withoutSign (batchOp [1])) (withdrawn "2")) (by decide +kernel)
  refine ⟨s', h, (withoutSign_paysDebited_iff rfl rfl reached_withdrawn (by decide +kernel) rfl rfl
    ⟨bitcoin, by decide +kernel, rfl⟩ h (by decide)).mpr namesItsAsset_withdrawn⟩

/-- The account 7 has dust, withdraws two of them as if they were bitcoins, and is paid in
bitcoins. -/
def dusty : State :=
  { tenBitcoins with
    accounts := ⟨fun addr asset => if addr = 7 ∧ asset = 3 then some ⟨1000, 0⟩ else none,
      fun asset => if asset = 3 then 1000 else 0⟩ }

def dustAsBitcoins : Transaction :=
  .numbered 0 [.withdraw ⟨7, "2", "BTC", 3, "somewhere"⟩] [7]

/-- **Two units of a worthless coin are debited, and two hundred units of another one are paid.** -/
theorem withoutSign_pays_other_asset :
    (applyOperation (payingEnv (bitcoins "2")) (bitcoinBatch [1]) (.withoutSign (batchOp [1]))
      (run dusty [(payingEnv (bitcoins "2"), dustAsBitcoins)])).isOk = true ∧
    debits (run dusty [(payingEnv (bitcoins "2"), dustAsBitcoins)]).history 1 = [(7, 3, 2)] ∧
    Pays bitcoin (onePayment (bitcoins "2")) 200 ∧
    ¬ PaysDebited (payingEnv (bitcoins "2")) (run dusty [(payingEnv (bitcoins "2"), dustAsBitcoins)])
      (batchOp [1]) (onePayment (bitcoins "2")) 1 := by
  have hdebits : debits (run dusty [(payingEnv (bitcoins "2"), dustAsBitcoins)]).history 1 =
      [(7, 3, 2)] := by decide +kernel
  have hfind : (run dusty [(payingEnv (bitcoins "2"), dustAsBitcoins)]).find 1 =
      some (withdrawRecord dustAsBitcoins) := by decide +kernel
  refine ⟨by decide +kernel, hdebits, ⟨[200], by decide +kernel, rfl⟩, ?_⟩
  rintro ⟨r, w, paid, asset, amount, hc, hd⟩
  obtain rfl := Option.mem_unique hfind hc.find
  obtain rfl := Option.some.inj hc.first
  obtain rfl : bitcoin = asset := Option.some.inj
    ((by decide +kernel : (payingEnv (bitcoins "2")).assets.bySymbol "BTC" = some bitcoin).symm.trans
      hc.bySymbol)
  rw [hdebits] at hd
  cases hd

end Whitecoin.Crosschain
