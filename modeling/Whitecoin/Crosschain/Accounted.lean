import Whitecoin.Crosschain.Step

/-!
# What a withdrawal debited

A withdrawal names its asset twice, by id and by symbol. It debits the asset with the id; the batch
that pays it out counts the asset with the symbol, possibly much later, and reads the amount again
from the text. This module says what is known at that time: a record whose transaction begins with a
withdrawal stands for exactly one debit, of the asset with the id the withdrawal names.

## What is taken as given

The evaluators read assets and never write them. Between two operations the table of assets may
grow, and the limits, supplies and pools in it change; the code that does so is not modelled here.
It sets the id, the symbol and the precision of an asset when it creates the asset, and never again.
So there is one table with the ids, symbols and precisions of all assets of the run, and the table
of each environment is `Within` it.
-/

namespace Whitecoin.Crosschain

open Check Ledger

/-! ### Assets along a run -/

namespace AssetTable

variable {all t : AssetTable} {a b : Asset}

/-- The asset, up to what may change, is in the table. -/
def Has (all : AssetTable) (a : Asset) : Prop :=
  ∃ b ∈ all.assets, b.id = a.id ∧ b.symbol = a.symbol ∧ b.precision = a.precision

def Within (all t : AssetTable) : Prop := ∀ a ∈ t.assets, all.Has a

/-- An asset with the id has the symbol. -/
def Names (all : AssetTable) (id : AssetId) (symbol : String) : Prop :=
  ∃ b ∈ all.assets, b.id = id ∧ b.symbol = symbol

instance (all : AssetTable) (a : Asset) : Decidable (all.Has a) :=
  inferInstanceAs (Decidable (∃ b ∈ _, _))

instance (all t : AssetTable) : Decidable (all.Within t) :=
  inferInstanceAs (Decidable (∀ a ∈ _, _))

instance (all : AssetTable) (id : AssetId) (symbol : String) : Decidable (all.Names id symbol) :=
  inferInstanceAs (Decidable (∃ b ∈ _, _))

theorem Has.of_id (ha : all.Has a) (hb : all.Has b) (h : a.id = b.id) :
    a.symbol = b.symbol ∧ a.precision = b.precision := by
  obtain ⟨x, hx, hxid, hxs, hxp⟩ := ha
  obtain ⟨y, hy, hyid, hys, hyp⟩ := hb
  obtain rfl := List.inj_on_of_nodup_map all.nodup_id hx hy (hxid.trans (h.trans hyid.symm))
  exact ⟨hxs.symm.trans hys, hxp.symm.trans hyp⟩

variable {id : AssetId}

/-- The asset with an id is the one with the symbol exactly when the id goes with the symbol. -/
theorem Has.names_iff (ha : all.Has a) : all.Names id a.symbol ↔ id = a.id := by
  obtain ⟨x, hx, hxid, hxs, -⟩ := ha
  constructor
  · rintro ⟨y, hy, rfl, hys⟩
    obtain rfl := List.inj_on_of_nodup_map all.nodup_symbol hx hy (hxs.trans hys.symm)
    exact hxid
  · rintro rfl
    exact ⟨x, hx, hxid, hxs⟩

theorem Within.has_byId (h : all.Within t) (ha : t.byId id = some a) : all.Has a ∧ a.id = id :=
  ⟨h a (id_of_byId ha).1, (id_of_byId ha).2⟩

theorem Within.has_bySymbol (h : all.Within t) {symbol : String} (ha : t.bySymbol symbol = some a) :
    all.Has a ∧ a.symbol = symbol :=
  ⟨h a (symbol_of_bySymbol ha).1, (symbol_of_bySymbol ha).2⟩

theorem Has.amount_eq (ha : all.Has a) (hb : all.Has b) (h : a.id = b.id) {text : String}
    {x y : ℤ} (hx : a.amount text = .ok x) (hy : b.amount text = .ok y) : x = y := by
  rw [Asset.amount, (ha.of_id hb h).2] at hx
  exact amountFromString_congr hx hy

end AssetTable

/-! ### Debits -/

variable {env : Env} {trx : Transaction} {op : Operation} {s s' : State} {all : AssetTable}

/-- **Only withdrawals debit.** -/
theorem applyOperation_debits (hop : ∀ o, op ≠ .withdraw o)
    (h : applyOperation env trx op s = .ok s') (id : TrxId) :
    debits s'.history id = debits s.history id := by
  cases op with
  | accountBind o =>
    obtain ⟨b, rfl⟩ := accountBind_eq_ok h
    rfl
  | accountUnbind o =>
    obtain ⟨b, rfl⟩ := accountUnbind_eq_ok h
    rfl
  | record o =>
    obtain ⟨_, _, _, hr⟩ := record_eq_ok h
    rw [hr.history]
  | withdraw o => exact absurd rfl (hop o)
  | withoutSign o =>
    obtain ⟨_, hw⟩ := withoutSign_eq_ok h
    rw [hw.history]
  | withSign o => rw [(withSign_eq_ok h).2.2]
  | combineSign o =>
    obtain ⟨_, _, _, hc⟩ := combineSign_eq_ok h
    rw [hc.history]
  | withdrawResult t =>
    obtain ⟨_, _, hr⟩ := withdrawResult_eq_ok h
    exact hr.debits id
  | ethSignFinal o =>
    obtain ⟨_, _, _, -, -, hs⟩ := ethSignFinal_eq_ok h
    rw [hs.history]
  | ethChangeSigner o =>
    obtain ⟨_, _, _, -, -, -, hs⟩ := ethChangeSigner_eq_ok h
    rw [hs.history]
  | refundBalance o =>
    obtain ⟨_, hr⟩ := refundBalance_eq_ok h
    rw [hr.history, debits_cons_refunded]
  | refundCrosschainTrx o =>
    obtain ⟨_, _, -, -, -, hc⟩ := refundCrosschainTrx_eq_ok h
    exact hc.debits id
  | cancelCombineTrx o =>
    obtain ⟨_, _, _, -, -, -, -, hc⟩ := cancelCombineTrx_eq_ok h
    exact hc.debits id
  | passSuccessTrx o =>
    obtain ⟨_, _, _, hp⟩ := passSuccessTrx_eq_ok h
    exact hp.debits id
  | ethCancelFailCrosschainTrx o =>
    obtain ⟨_, _, _, -, -, -, -, -, hc⟩ := ethCancelFailCrosschainTrx_eq_ok h
    exact hc.debits id
  | ethsCancelUnsignedTransaction o =>
    obtain ⟨t, _, _, _, hb, rfl⟩ := ethsCancelUnsignedTransaction_eq_ok h
    change debits t.history id = _
    rw [hb.history]
  | coldhot o => rw [(Coldhot.apply_frame h).2.1]
  | other =>
    obtain rfl := Except.ok.inj h
    rfl

theorem Writes.find_of_withdraw (h : Writes trx op s s') {id : TrxId} {r : Record}
    {w : WithdrawOp} (hr : s.find id = some r) (hw : r.realTransaction.withdrawOp = some w) :
    ∃ r', s'.find id = some r' ∧ r'.realTransaction.withdrawOp = some w := by
  cases h with
  | same f t _ ht _ hrewrites =>
    refine ⟨f r, ?_, by rw [hrewrites.frame.realTransaction, hw]⟩
    rw [hrewrites.find_same, State.find_congr ht, hr, Option.map_some]
  | left f x _ _ _ hrewrites =>
    refine ⟨f r, ?_, by rw [hrewrites.frame.realTransaction, hw]⟩
    rw [hrewrites.find_new, if_neg, hr, Option.map_some]
    rintro rfl
    have hfresh := hrewrites.fresh x (List.mem_singleton_self x)
    rw [hr] at hfresh
    cases hfresh
  | dropped f t x y _ hrewrites hs' hx _ hfirst =>
    refine ⟨f r, ?_, by rw [hrewrites.frame.realTransaction, hw]⟩
    rw [hs', State.find_remove, if_neg, hrewrites.find_same, hr, Option.map_some]
    -- what is dropped is a combined signature
    rintro rfl
    obtain rfl := Option.mem_unique hr hx
    obtain ⟨c, hc⟩ := hfirst
    rw [Transaction.withdrawOp_eq_some] at hw
    rw [Transaction.combineSignOp_eq_some, hw] at hc
    cases hc

/-- Every record whose transaction begins with a withdrawal stands for one debit, of the asset with
the id that the withdrawal names; and every debit has such a record. -/
structure Accounted (all : AssetTable) (s : State) : Prop where
  debited : ∀ id r w, s.find id = some r → r.realTransaction.withdrawOp = some w →
    ∃ asset amount, all.Has asset ∧ asset.id = w.assetId ∧ asset.amount w.amount = .ok amount ∧
      debits s.history id = [(w.withdrawAccount, w.assetId, amount)]
  recorded : ∀ id, debits s.history id ≠ [] →
    ∃ r w, s.find id = some r ∧ r.realTransaction.withdrawOp = some w

variable {o : WithdrawOp} {asset : Asset} {amount : ℤ}

theorem Withdrawn.find (h : Withdrawn env trx o s s' asset amount) (id : TrxId) :
    s'.find id = if id = trx.id then some (withdrawRecord trx) else s.find id := by
  rw [h.rewrites.find_new, Option.map_id']
  rfl

theorem Withdrawn.debits (h : Withdrawn env trx o s s' asset amount) (id : TrxId) :
    debits s'.history id = if id = trx.id
      then (o.withdrawAccount, o.assetId, amount) :: debits s.history id
      else debits s.history id := by
  rw [h.history, debits_cons_debited]
  simp only [eq_comm]

theorem accounted_withdraw (hready : Ready trx (.withdraw o) s) (hs : Accounted all s)
    (henv : all.Within env.assets) (h : withdraw env trx o s = .ok s') : Accounted all s' := by
  obtain ⟨asset, amount, hw⟩ := withdraw_eq_ok h
  have hnone : debits s.history trx.id = [] := by
    by_contra hne
    obtain ⟨x, y, hx, -⟩ := hs.recorded trx.id hne
    rw [hw.fresh] at hx
    cases hx
  refine ⟨fun id r w hr hrw => ?_, fun id hne => ?_⟩
  · rw [hw.find] at hr
    rw [hw.debits]
    split at hr
    · -- the new record stands for the operation that is applied
      next hid =>
      obtain rfl := Option.some.inj hr
      have hhead : trx.operations.head? = some (.withdraw w) :=
        Transaction.withdrawOp_eq_some.mp hrw
      have hready' := hready.head hw.fresh
        (show trx.operations.head?.bind Operation.opType = some .withdraw by rw [hhead]; rfl)
      obtain rfl : o = w := Operation.withdraw.inj (Option.mem_unique hready' hhead)
      obtain ⟨hhas, hasset⟩ := henv.has_byId hw.byId
      refine ⟨asset, amount, hhas, hasset, hw.amount_eq, ?_⟩
      rw [if_pos hid, hid, hnone]
    · next hid =>
      rw [if_neg hid]
      exact hs.debited id r w hr hrw
  · rw [hw.find]
    rw [hw.debits] at hne
    split at hne
    · next hid =>
      obtain ⟨o', ho'⟩ := hw.first
      exact ⟨withdrawRecord trx, o', if_pos hid, ho'⟩
    · next hid =>
      rw [if_neg hid]
      exact hs.recorded id hne

theorem accounted_applyOperation (hready : Ready trx op s) (hs : Accounted all s)
    (henv : all.Within env.assets) (h : applyOperation env trx op s = .ok s') :
    Accounted all s' := by
  by_cases hop : ∃ o, op = .withdraw o
  · obtain ⟨o, rfl⟩ := hop
    exact accounted_withdraw hready hs henv h
  have hdebits := applyOperation_debits (fun o ho => hop ⟨o, ho⟩) h
  have hwrites := applyOperation_writes h
  refine ⟨fun id r' w hr' hw => ?_, fun id hne => ?_⟩
  · rw [hdebits]
    rcases hwrites.find_cases hr' with ⟨f, r, hf, hr, rfl⟩ | ⟨hnone, -, htrx, -⟩
    · rw [hf.realTransaction] at hw
      exact hs.debited id r w hr hw
    · -- a new record under a withdrawal is left by the withdrawal
      rw [htrx, Transaction.withdrawOp_eq_some] at hw
      have hhead := hready.head hnone
        (show trx.operations.head?.bind Operation.opType = some .withdraw by rw [hw]; rfl)
      exact absurd ⟨w, Option.mem_unique hhead hw⟩ hop
  · rw [hdebits] at hne
    obtain ⟨r, w, hr, hw⟩ := hs.recorded id hne
    obtain ⟨r', hr', hw'⟩ := hwrites.find_of_withdraw hr hw
    exact ⟨r', w, hr', hw'⟩

theorem Accounted.of_empty (hrecords : s.records = []) (hhistory : s.history = []) :
    Accounted all s := by
  refine ⟨?_, ?_⟩
  · simp [State.find, hrecords]
  · simp [debits, hhistory]

/-- **In every state that is reached, every withdrawal that is found stands for one debit.** -/
theorem Reached.accounted {s₀ : State} {done : List Operation}
    (h : Reached (fun env _ _ _ => all.Within env.assets) s₀ done env trx op s)
    (hrecords : s₀.records = []) (hhistory : s₀.history = []) : Accounted all s :=
  (h.invariant (fun _ s => Accounted all s) accounted_applyOperation
    (Accounted.of_empty hrecords hhistory)).1

end Whitecoin.Crosschain
