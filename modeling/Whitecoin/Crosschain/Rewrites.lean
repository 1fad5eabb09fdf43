import Whitecoin.Crosschain.Payout
import Whitecoin.Crosschain.Refund
import Whitecoin.Crosschain.Withdraw

/-!
# What the evaluators do to the records

Whatever an operation decides, it writes the records in one of three ways: it changes the states of
records in place, it appends the record of its own transaction, and one operation drops a record.
The first two are `Rewrites f new s s'`: every record went through `f`, which keeps the links, and
the fresh records `new` were appended.

There is one theorem for each evaluator, with what it checked and the `f` it applied. The later
modules use these theorems and do not unfold the evaluators.
-/

namespace Whitecoin.Crosschain

open Check Ledger

/-! ### Unique ids -/

namespace State

variable {s s' : State} {r : Record} {id : TrxId}

/-- The index by transaction id is unique. -/
def Indexed (s : State) : Prop := (s.records.map (·.transactionId)).Nodup

theorem Indexed.find (h : s.Indexed) (hr : r ∈ s.records) : s.find r.transactionId = some r :=
  Table.find_of_mem h hr

theorem Indexed.of_records (h : s.Indexed) (heq : s'.records = s.records) : s'.Indexed := by
  rwa [Indexed, heq]

theorem Indexed.remove (h : s.Indexed) (x : TrxId) : (s.remove x).Indexed :=
  h.sublist (List.filter_sublist.map _)

theorem find_congr (h : s'.records = s.records) : s'.find = s.find := by
  funext id
  rw [State.find, State.find, h]

end State

/-! ### Rewrites -/

/-- Every record went through `f`, and the records `new` were appended. -/
structure Rewrites (f : Record → Record) (new : List Record) (s s' : State) : Prop where
  frame : Record.Frame f
  records : s'.records = s.records.map f ++ new
  fresh : ∀ r ∈ new, s.find r.transactionId = none
  transfers : s'.transfers = s.transfers
  acquired : s'.acquired = s.acquired

theorem Record.frame_id : Record.Frame id := ⟨fun _ => rfl, fun _ => rfl, fun _ => rfl, fun _ => rfl,
  fun _ => rfl⟩

namespace Rewrites

variable {f : Record → Record} {new : List Record} {s t s' : State} {r : Record} {id : TrxId}

theorem refl (hrecords : s'.records = s.records) (htransfers : s'.transfers = s.transfers)
    (hacquired : s'.acquired = s.acquired) : Rewrites (fun r => r) [] s s' :=
  ⟨Record.frame_id, by simp [hrecords], by simp, htransfers, hacquired⟩

theorem congr (h : Rewrites f new s t) (hrecords : s'.records = t.records)
    (htransfers : s'.transfers = t.transfers) (hacquired : s'.acquired = t.acquired) :
    Rewrites f new s s' :=
  ⟨h.frame, hrecords.trans h.records, h.fresh, htransfers.trans h.transfers,
    hacquired.trans h.acquired⟩

variable {g : Record → Record}

/-- One rewrite after the other; the second one also changes what the first one appended. -/
theorem comp (hg : Rewrites g [] t s') (hf : Rewrites f new s t) :
    Rewrites (g ∘ f) (new.map g) s s' := by
  refine ⟨hg.frame.comp hf.frame, ?_, ?_, hg.transfers.trans hf.transfers,
    hg.acquired.trans hf.acquired⟩
  · rw [hg.records, hf.records]
    simp
  · simpa [hg.frame.transactionId] using hf.fresh

theorem modify (s : State) (hg : Record.Frame g) : Rewrites g [] s (s.modify g) :=
  ⟨hg, by simp [State.modify], by simp, rfl, rfl⟩

theorem move (s : State) (p : Record → Bool) (st : TrxState) :
    Rewrites (Record.setState p st) [] s (s.move p st) :=
  (modify s (Record.frame_setState p st)).congr rfl rfl rfl

theorem nameExternal (s : State) (p : Record → Bool) (external : String) :
    Rewrites (Record.setExternal p external) [] s (s.nameExternal p external) :=
  modify s (Record.frame_setExternal p external)

theorem find_same (h : Rewrites f [] s s') (id : TrxId) : s'.find id = (s.find id).map f := by
  rw [State.find, h.records, List.append_nil]
  exact Table.find_map h.frame.transactionId s.records id

theorem create (h : Rewrites f [] s t) (hr : t.create r = .ok s') : Rewrites f [r] s s' := by
  obtain ⟨hnone, rfl⟩ := State.create_eq_ok hr
  rw [h.find_same, Option.map_eq_none_iff] at hnone
  refine ⟨h.frame, ?_, by simpa using hnone, h.transfers, h.acquired⟩
  change t.records ++ [r] = _
  rw [h.records, List.append_nil]

theorem fresh_map (h : Rewrites f [r] s s') :
    Table.find (·.transactionId) (s.records.map f) r.transactionId = none := by
  rw [Table.find_map h.frame.transactionId, Option.map_eq_none_iff]
  exact h.fresh r (List.mem_singleton_self r)

theorem find_new (h : Rewrites f [r] s s') (id : TrxId) :
    s'.find id = if id = r.transactionId then some r else (s.find id).map f := by
  rw [State.find, h.records]
  refine (Table.find_append h.fresh_map id).trans ?_
  rw [Table.find_map h.frame.transactionId]
  rfl

theorem indexed_same (h : Rewrites f [] s s') (hs : s.Indexed) : s'.Indexed := by
  rw [State.Indexed, h.records, List.append_nil]
  exact Table.nodup_map h.frame.transactionId hs

theorem indexed_new (h : Rewrites f [r] s s') (hs : s.Indexed) : s'.Indexed := by
  rw [State.Indexed, h.records]
  exact Table.nodup_append (Table.nodup_map h.frame.transactionId hs) h.fresh_map

theorem split (h : Rewrites f [r] s s') :
    ∃ t, Rewrites f [] s t ∧ Rewrites (fun r => r) [r] t s' ∧ t.history = s'.history := by
  have hrecords : s'.records = s.records.map f ++ [r] := h.records
  refine ⟨{ s' with records := s.records.map f },
    ⟨h.frame, by simp, by simp, h.transfers, h.acquired⟩,
    ⟨Record.frame_id, by rw [hrecords, List.map_id'], ?_, rfl, rfl⟩, rfl⟩
  intro x hx
  obtain rfl := List.mem_singleton.mp hx
  exact h.fresh_map

end Rewrites

theorem State.history_move (s : State) (p : Record → Bool) {st : TrxState}
    (h : st ≠ .transactionConfirm) : (s.move p st).history = s.history := by
  simp [State.move, State.log, State.modify, h]

theorem Record.setState_mem_cons (id : TrxId) (ids : List TrxId) (st : TrxState) :
    Record.setState (fun r => r.transactionId ∈ id :: ids) st =
      Record.setState (fun r => r.transactionId ∈ ids) st ∘
        Record.setState (fun r => r.transactionId = id) st := by
  funext r
  by_cases h : r.transactionId = id <;>
    by_cases h' : r.transactionId ∈ ids <;> simp [Record.setState, h, h']

variable {env : Env} {trx : Transaction} {s s' : State}

variable {asset : Asset} {ids : List TrxId} {t : HdTrx} {batch : TrxId} {o : WallfacerOp}

theorem Withdrawn.rewrites {o : WithdrawOp} {amount : ℤ} (h : Withdrawn env trx o s s' asset amount)
    :
    Rewrites (fun r => r) [withdrawRecord trx] s s' := by
  refine ⟨Record.frame_id, ?_, ?_, h.transfers, h.acquired⟩
  · rw [h.records, List.map_id']
  · rintro r hr
    obtain rfl := List.mem_singleton.mp hr
    exact h.fresh

/-! ### A batch is made -/

/-- Set the fee, at the record of the transaction. -/
def setFee (id : TrxId) (fee : ℤ) (r : Record) : Record :=
  if r.transactionId = id then { r with crosschainFee := fee } else r

theorem frame_setFee (id : TrxId) (fee : ℤ) : Record.Frame (setFee id fee) := by
  constructor <;> intro r <;> unfold setFee <;> split <;> rfl

theorem trxState_setFee (id : TrxId) (fee : ℤ) (r : Record) :
    (setFee id fee r).trxState = r.trxState := by
  unfold setFee
  split <;> rfl

theorem adjustWithoutSign_rest {o : WithoutSignOp} (hsome : (s.find trx.id).isSome)
    (h : ids.foldlM (adjustWithoutSign trx o) s = .ok s') :
    Rewrites (Record.setState (fun r => r.transactionId ∈ ids) .withoutSignTrxCreate) [] s s' ∧
      s'.history = s.history := by
  induction ids generalizing s with
  | nil =>
    rw [List.foldlM_nil, pure_eq_ok] at h
    subst h
    exact ⟨Rewrites.refl rfl rfl rfl, rfl⟩
  | cons id ids ih =>
    rw [List.foldlM_cons, bind_eq_ok] at h
    obtain ⟨t, ht, h⟩ := h
    rw [adjustWithoutSign, if_pos hsome, Except.ok.injEq] at ht
    subst ht
    have hmove := Rewrites.move s (fun r => r.transactionId = id) .withoutSignTrxCreate
    obtain ⟨hrest, hhistory⟩ := ih (by rwa [hmove.find_same, Option.isSome_map]) h
    rw [Record.setState_mem_cons]
    exact ⟨hrest.comp hmove, hhistory⟩

/-- The record of a batch, as `do_apply` leaves it. -/
def batchRecord (trx : Transaction) (o : WithoutSignOp) (first : TrxId) : Record :=
  { withoutSignRecord trx o first with crosschainFee := o.crosschainFee }

/-- The moves of the rest of the list leave the new record as it is, and the fee is written. -/
theorem setFee_setState_withoutSignRecord (o : WithoutSignOp) (first : TrxId) (p : Record → Bool) :
    setFee trx.id o.crosschainFee
      (Record.setState p .withoutSignTrxCreate (withoutSignRecord trx o first)) =
      batchRecord trx o first := by
  unfold Record.setState
  split <;> exact if_pos rfl

/-- What an accepted without-sign operation checked and did. -/
structure WithoutSigned (env : Env) (trx : Transaction) (o : WithoutSignOp) (s s' : State)
    (first : TrxId) : Prop where
  evaluated : evaluateWithoutSign env trx o s = .ok ()
  head : o.ccwTrxIds.head? = some first
  uncreate : ∀ id ∈ o.ccwTrxIds, ∃ r, s.find id = some r ∧
    (crosschainRecordEvaluate310000 ≤ env.headBlockNum → r.trxState = .withoutSignTrxUncreate)
  rewrites : Rewrites (setFee trx.id o.crosschainFee ∘
      Record.setState (fun r => r.transactionId ∈ o.ccwTrxIds) .withoutSignTrxCreate)
    [batchRecord trx o first] s s'
  history : s'.history = s.history

theorem withoutSign_eq_ok {o : WithoutSignOp} (h : withoutSign env trx o s = .ok s') :
    ∃ first, WithoutSigned env trx o s s' first := by
  simp only [withoutSign, applyWithoutSign, bind_eq_ok, found_eq_ok, pure_eq_ok] at h
  obtain ⟨_, heval, t, hloop, U, hU, accounts, -, rfl⟩ := h
  have huncreate : ∀ id ∈ o.ccwTrxIds, ∃ r, s.find id = some r ∧
      (crosschainRecordEvaluate310000 ≤ env.headBlockNum →
        r.trxState = .withoutSignTrxUncreate) := by
    simp only [evaluateWithoutSign, bind_eq_ok, found_eq_ok, forM_eq_ok, require_eq_ok] at heval
    obtain ⟨_, -, _, hlisted, -⟩ := heval
    exact hlisted
  have hnone : s.find trx.id = none := by
    simp only [evaluateWithoutSign, bind_eq_ok, found_eq_ok, forM_eq_ok, require_eq_ok,
      exists_and_left, exists_const] at heval
    obtain ⟨_, -, -, -, hnone, -⟩ := heval
    exact hnone
  cases hids : o.ccwTrxIds with
  | nil =>
    -- an empty list leaves no record to write the fee to
    rw [hids, List.foldlM_nil, pure_eq_ok] at hloop
    rw [← hloop, hnone] at hU
    cases hU
  | cons first rest =>
    rw [hids, List.foldlM_cons, bind_eq_ok] at hloop
    obtain ⟨t₁, ht₁, hloop⟩ := hloop
    rw [adjustWithoutSign, hnone, if_neg (by simp)] at ht₁
    have hfirst :=
      (Rewrites.move s (fun r => r.transactionId = first) .withoutSignTrxCreate).create ht₁
    obtain ⟨hrest, hhistory⟩ := adjustWithoutSign_rest
      (by rw [hfirst.find_new, if_pos (by rfl), Option.isSome_some]) hloop
    have hall := (Rewrites.modify t (frame_setFee trx.id o.crosschainFee)).comp (hrest.comp hfirst)
    rw [List.map_map, List.map_singleton, Function.comp_apply, setFee_setState_withoutSignRecord]
      at hall
    refine ⟨first, heval, by rw [hids]; rfl, huncreate, ?_, ?_⟩
    · rw [hids, Record.setState_mem_cons]
      exact hall.congr rfl rfl rfl
    · change t.history = _
      rw [hhistory, (State.create_eq_ok ht₁).2]
      exact State.history_move s _ (by decide)

/-! ### A batch is signed -/

theorem withSign_eq_ok {o : WithSignOp} (h : withSign env trx o s = .ok s') :
    evaluateWithSign env trx o s = .ok () ∧
      Rewrites (fun r => r) [withSignRecord trx o.ccwTrxId] s s' ∧ s'.history = s.history := by
  simp only [withSign, bind_eq_ok] at h
  obtain ⟨_, heval, hcreate⟩ := h
  refine ⟨heval, (Rewrites.refl rfl rfl rfl).create hcreate, ?_⟩
  rw [(State.create_eq_ok hcreate).2]

/-- A batch is combined: it, its withdrawals and its signatures. -/
def combineChange (batch : TrxId) (listed : List TrxId) (o : CombineSignOp) : Record → Record :=
  Record.setState (fun r => r.relateTransactionId = batch ∧ r.trxState = .signTrx)
      (combinedState o.assetSymbol) ∘
    Record.setExternal (fun r => r.transactionId ∈ listed) o.crosschainTrxId ∘
    Record.setState (fun r => r.transactionId ∈ listed) (combinedState o.assetSymbol) ∘
    Record.setState (fun r => r.transactionId = batch) (combinedState o.assetSymbol)

theorem trxState_combineChange (batch : TrxId) (listed : List TrxId) (o : CombineSignOp)
    (r : Record) : (combineChange batch listed o r).trxState =
      if r.transactionId = batch ∨ r.transactionId ∈ listed ∨
        (r.relateTransactionId = batch ∧ r.trxState = .signTrx)
      then combinedState o.assetSymbol else r.trxState := by
  simp only [combineChange, Function.comp_apply, Record.trxState_setState, Record.relate_setState,
    Record.relate_setExternal, Record.transactionId_setState, Record.trxState_setExternal,
    decide_eq_true_eq]
  split_ifs <;> simp_all

theorem combinedState_ne_uncreate (symbol : String) :
    combinedState symbol ≠ .withoutSignTrxUncreate := by
  unfold combinedState
  split <;> decide

/-- What an accepted combined signature checked and did. -/
structure CombineSigned (env : Env) (trx : Transaction) (o : CombineSignOp) (s s' : State)
    (batch : TrxId) (u : Record) (o' : CombineSignOp) : Prop where
  named : ∃ first r, o.signedTrxIds.head? = some first ∧ s.find first = some r ∧
    r.relateTransactionId = batch
  findBatch : s.find batch = some u
  listed : ∀ id ∈ u.allRelatedOriginTransactionIds, ∃ w, s.find id = some w ∧
    (crosschainRecordEvaluate480000 < env.headBlockNum → w.trxState = .withoutSignTrxCreate)
  single : trx.operations.length = 1
  first : trx.combineSignOp = some o'
  rewrites : Rewrites (combineChange batch u.allRelatedOriginTransactionIds o')
    [combineSignRecord trx o' batch] s s'
  history : s'.history = s.history

theorem combinedState_ne_confirm (symbol : String) : combinedState symbol ≠ .transactionConfirm := by
  unfold combinedState
  split <;> decide

theorem combineSign_eq_ok {o : CombineSignOp} (h : combineSign env trx o s = .ok s') :
    ∃ batch u o', CombineSigned env trx o s s' batch u o' := by
  simp only [combineSign, evaluateCombineSign, adjustCombineSign, bind_eq_ok, found_eq_ok,
    forM_eq_ok, require_eq_ok, exists_and_left, exists_const, pure_eq_ok] at h
  obtain ⟨_, ⟨first, hfirst, r, hr, u, hu, -, hlisted, -, hsingle, rfl⟩, o', ho', u', hu',
    hcreate⟩ := h
  obtain rfl := Option.mem_unique hu hu'
  refine ⟨_, u, o', ⟨first, r, hfirst, hr, rfl⟩, hu, hlisted, hsingle, ho', ?_, ?_⟩
  · exact ((Rewrites.move _ _ _).comp <| (Rewrites.nameExternal _ _ _).comp <|
      (Rewrites.move _ _ _).comp <| Rewrites.move s _ _).create hcreate
  · rw [(State.create_eq_ok hcreate).2]
    simp only [State.nameExternal, State.history_move _ _ (combinedState_ne_confirm _)]
    exact (State.history_move _ _ (combinedState_ne_confirm _)).trans
      (State.history_move _ _ (combinedState_ne_confirm _))

/-- A batch is finally signed: the combined signature, the batch, its withdrawals, and what else
waits for it. -/
def ethSignChange (combine batch : TrxId) (listed : List TrxId) (external : String) :
    Record → Record :=
  Record.setState (fun r => r.relateTransactionId = batch ∧ r.trxState = .ethWallfacerNeedSign)
      .ethWallfacerSign ∘
    Record.setExternal (fun r => r.relateTransactionId = batch ∧ r.trxState = .ethWallfacerNeedSign)
      external ∘
    Record.setExternal (fun r => r.transactionId ∈ listed) external ∘
    Record.setState (fun r => r.transactionId ∈ listed) .ethWallfacerSign ∘
    Record.setState (fun r => r.transactionId = batch) .ethWallfacerSign ∘
    Record.setExternal (fun r => r.transactionId = combine) external ∘
    Record.setState (fun r => r.transactionId = combine) .ethWallfacerSign

theorem trxState_ethSignChange (combine batch : TrxId) (listed : List TrxId) (external : String)
    (r : Record) : (ethSignChange combine batch listed external r).trxState =
      if r.transactionId = combine ∨ r.transactionId = batch ∨ r.transactionId ∈ listed ∨
        (r.relateTransactionId = batch ∧ r.trxState = .ethWallfacerNeedSign)
      then .ethWallfacerSign else r.trxState := by
  simp only [ethSignChange, Function.comp_apply, Record.trxState_setState, Record.relate_setState,
    Record.relate_setExternal, Record.transactionId_setState, Record.transactionId_setExternal,
    Record.trxState_setExternal, decide_eq_true_eq]
  split_ifs <;> simp_all

/-- What a final signature did. -/
structure EthSigned (trx : Transaction) (opType : OpType) (signed : EthSignOp) (combine : TrxId)
    (s s' : State) (c u : Record) : Prop where
  findCombine : s.find combine = some c
  findBatch : s.find c.relateTransactionId = some u
  rewrites : Rewrites (ethSignChange combine c.relateTransactionId
      u.allRelatedOriginTransactionIds (afterBar signed.signedCrosschainTrxId))
    [ethSignRecord trx opType c.relateTransactionId (afterBar signed.signedCrosschainTrxId)] s s'
  history : s'.history = s.history

theorem adjustEthSign_eq_ok {opType : OpType} {signed : EthSignOp} {combine : TrxId}
    (h : adjustEthSign trx opType signed combine s = .ok s') :
    ∃ c u, EthSigned trx opType signed combine s s' c u := by
  simp only [adjustEthSign, bind_eq_ok, found_eq_ok] at h
  obtain ⟨c, hc, u, hu, hcreate⟩ := h
  refine ⟨c, u, hc, hu, ?_, ?_⟩
  · exact ((Rewrites.move _ _ _).comp <| (Rewrites.nameExternal _ _ _).comp <|
      (Rewrites.nameExternal _ _ _).comp <| (Rewrites.move _ _ _).comp <|
      (Rewrites.move _ _ _).comp <| (Rewrites.nameExternal _ _ _).comp <|
      Rewrites.move s _ _).create hcreate
  · rw [(State.create_eq_ok hcreate).2]
    rfl

theorem ethSignFinal_eq_ok {o : EthSignOp} (h : ethSignFinal env trx o s = .ok s') :
    ∃ signed c u, trx.ethSignFinalOp = some signed ∧
      (∃ o', c.realTransaction.combineSignOp = some o') ∧
      EthSigned trx .ethSignFinal signed o.combineTrxId s s' c u := by
  simp only [ethSignFinal, evaluateEthSignFinal, bind_eq_ok, found_eq_ok] at h
  obtain ⟨_, ⟨_, -, c, hc, o', ho', -⟩, signed, hsigned, hadjust⟩ := h
  obtain ⟨c', u, hs⟩ := adjustEthSign_eq_ok hadjust
  obtain rfl := Option.mem_unique hc hs.findCombine
  exact ⟨signed, c, u, hsigned, ⟨o', ho'⟩, hs⟩

theorem ethChangeSigner_eq_ok {o : EthSignOp} (h : ethChangeSigner env trx o s = .ok s') :
    ∃ signed c u, trx.ethChangeSignerOp = some signed ∧
      (∃ o', c.realTransaction.combineSignOp = some o') ∧ c.trxState = .ethWallfacerNeedSign ∧
      EthSigned trx .ethChangeSigner signed o.combineTrxId s s' c u := by
  simp only [ethChangeSigner, evaluateEthChangeSigner, bind_eq_ok, found_eq_ok, require_eq_ok,
    exists_and_left, exists_const] at h
  obtain ⟨_, ⟨_, -, -, c, hc, hst, o', ho', -⟩, signed, hsigned, hadjust⟩ := h
  obtain ⟨c', u, hs⟩ := adjustEthSign_eq_ok hadjust
  obtain rfl := Option.mem_unique hc hs.findCombine
  exact ⟨signed, c, u, hsigned, ⟨o', ho'⟩, hst, hs⟩

/-! ### A batch is reported as paid -/

/-- A batch is confirmed: it, its withdrawals, and the combined signature. -/
def confirmChange (batch : TrxId) (listed : List TrxId) : Record → Record :=
  Record.setState (fun r => r.relateTransactionId = batch ∧
      (r.trxState = .combineTrxCreate ∨ r.trxState = .ethWallfacerSign)) .transactionConfirm ∘
    Record.setState (fun r => r.transactionId ∈ listed) .transactionConfirm ∘
    Record.setState (fun r => r.transactionId = batch) .transactionConfirm

theorem trxState_confirmChange (batch : TrxId) (listed : List TrxId) (r : Record) :
    (confirmChange batch listed r).trxState =
      if r.transactionId = batch ∨ r.transactionId ∈ listed ∨ (r.relateTransactionId = batch ∧
        (r.trxState = .combineTrxCreate ∨ r.trxState = .ethWallfacerSign))
      then .transactionConfirm else r.trxState := by
  simp only [confirmChange, Function.comp_apply, Record.trxState_setState, Record.relate_setState,
    Record.transactionId_setState, decide_eq_true_eq]
  split_ifs <;> simp_all

/-- The confirmations in the history are old ones, or of confirmed records. -/
def ConfirmedSince (history : List Event) (s : State) : Prop :=
  ∀ id, .confirmed id ∈ s.history → .confirmed id ∈ history ∨
    ∃ r, s.find id = some r ∧ r.trxState = .transactionConfirm

theorem ConfirmedSince.move {history : List Event} (h : ConfirmedSince history s) (hs : s.Indexed)
    (p : Record → Bool) : ConfirmedSince history (s.move p .transactionConfirm) := by
  intro id hc
  have hc' : (∃ r ∈ s.records, p r = true ∧ r.transactionId = id) ∨ .confirmed id ∈ s.history := by
    simpa [State.move, State.log, State.modify, and_assoc] using hc
  rw [State.find_move]
  rcases hc' with ⟨r, hr, hp, rfl⟩ | hold
  · refine .inr ⟨_, by rw [hs.find hr]; rfl, ?_⟩
    rw [Record.trxState_setState, if_pos hp]
  · rcases h id hold with hold | ⟨r, hr, hst⟩
    · exact .inl hold
    · refine .inr ⟨_, by rw [hr]; rfl, ?_⟩
      rw [Record.trxState_setState]
      split
      · rfl
      · exact hst

theorem refunds_move (s : State) (p : Record → Bool) (st : TrxState) (id : TrxId) :
    refunds (s.move p st).history id = refunds s.history id := by
  simp only [State.move, State.log, State.modify, refunds, List.countP_append]
  split
  · simp [List.countP_map, Function.comp_def]
  · simp

theorem debits_move (s : State) (p : Record → Bool) (st : TrxState) (id : TrxId) :
    debits (s.move p st).history id = debits s.history id := by
  simp only [State.move, State.log, State.modify, debits, List.filterMap_append]
  split
  · simp [List.filterMap_map]
  · simp

/-- What an accepted report checked and did. -/
structure Reported (trx : HdTrx) (s s' : State) (c u : Record) : Prop where
  findCombine : s.findCombine trx.key = some c
  findBatch : s.find c.relateTransactionId = some u
  unused : ¬ UsedUp s trx.key
  rewrites : Rewrites (confirmChange c.relateTransactionId u.allRelatedOriginTransactionIds) []
    (s.confirmExternal trx.key) s'
  confirmed : s.Indexed → ConfirmedSince s.history s'
  refunds : ∀ id, refunds s'.history id = refunds s.history id
  debits : ∀ id, debits s'.history id = debits s.history id

theorem evaluateWithdrawResult_eq_ok (h : evaluateWithdrawResult env t s = .ok batch) :
    ∃ c, s.findCombine t.key = some c ∧ c.relateTransactionId = batch ∧ ¬ UsedUp s t.key := by
  simp only [evaluateWithdrawResult, bind_eq_ok, found_eq_ok, forM_eq_ok, require_eq_ok,
    exists_and_left, exists_const] at h
  obtain ⟨c, hc, -, -, -, -, hunused, h⟩ := h
  refine ⟨c, hc, ?_, hunused⟩
  split at h
  · exact pure_eq_ok.mp h
  · simp only [bind_eq_ok, found_eq_ok, require_eq_ok, exists_and_left, exists_const,
      pure_eq_ok] at h
    obtain ⟨-, -, -, rfl⟩ := h
    rfl

theorem withdrawResult_eq_ok (h : withdrawResult env t s = .ok s') :
    ∃ c u, Reported t s s' c u := by
  simp only [withdrawResult, adjustWithdrawResult, bind_eq_ok, found_eq_ok, pure_eq_ok] at h
  obtain ⟨_, heval, u, hu, rfl⟩ := h
  obtain ⟨c, hc, rfl, hunused⟩ := evaluateWithdrawResult_eq_ok heval
  have h₁ := Rewrites.move (s.confirmExternal t.key) (·.transactionId = c.relateTransactionId)
    .transactionConfirm
  have h₂ := (Rewrites.move _ (fun r => r.transactionId ∈ u.allRelatedOriginTransactionIds)
    .transactionConfirm).comp h₁
  refine ⟨c, u, hc, hu, hunused, (Rewrites.move _ _ _).comp h₂, fun hs => ?_, fun id => ?_,
    fun id => ?_⟩
  · have h₀ : ConfirmedSince s.history (s.confirmExternal t.key) := fun _ hold => .inl hold
    exact ((h₀.move hs _).move (h₁.indexed_same hs) _).move (h₂.indexed_same hs) _
  · rw [refunds_move, refunds_move, refunds_move]
    rfl
  · rw [debits_move, debits_move, debits_move]
    rfl

/-! ### Refunds -/

/-- What an accepted refund of one withdrawal checked and did. -/
structure BalanceRefunded (o : RefundBalanceOp) (s s' : State) (r : Record) : Prop where
  find : s.find o.txid = some r
  uncreate : r.trxState = .withoutSignTrxUncreate
  rewrites : Rewrites (Record.setState (fun r => r.transactionId = o.txid) .canceled) [] s s'
  history : s'.history = .refunded o.txid o.refundAddr :: s.history

theorem refundBalance_eq_ok {o : RefundBalanceOp} (h : refundBalance env o s = .ok s') :
    ∃ r, BalanceRefunded o s s' r := by
  simp only [refundBalance, bind_eq_ok, found_eq_ok, require_eq_ok, exists_and_left, exists_const,
    pure_eq_ok] at h
  obtain ⟨r, hr, hst, -, w, -, -, asset, -, amount, -, accounts, -, accounts', -, rfl⟩ := h
  exact ⟨r, hr, hst, (Rewrites.move s _ _).congr rfl rfl rfl, rfl⟩

theorem refundSource_eq_ok {id : TrxId} (h : refundSource asset s id = .ok s') :
    Rewrites (Record.setState (fun r => r.transactionId = id) .canceled) [] s s' ∧
      ∃ account, s'.history = .refunded id account :: s.history := by
  simp only [refundSource, bind_eq_ok, found_eq_ok, pure_eq_ok] at h
  obtain ⟨r, -, w, -, amount, -, accounts, -, accounts', -, rfl⟩ := h
  exact ⟨(Rewrites.move s _ _).congr rfl rfl rfl, w.withdrawAccount, rfl⟩

/-- The loop cancels the listed withdrawals and refunds each as often as it is listed. -/
theorem refundSources_eq_ok (h : refundSources asset ids s = .ok s') :
    Rewrites (Record.setState (fun r => r.transactionId ∈ ids) .canceled) [] s s' ∧
      (∀ id, refunds s'.history id = refunds s.history id + ids.count id) ∧
      (∀ id, .confirmed id ∈ s'.history → .confirmed id ∈ s.history) ∧
      (∀ id, debits s'.history id = debits s.history id) := by
  induction ids generalizing s with
  | nil =>
    rw [refundSources, List.foldlM_nil, pure_eq_ok] at h
    subst h
    exact ⟨Rewrites.refl rfl rfl rfl, by simp, fun _ => id, fun _ => rfl⟩
  | cons x ids ih =>
    rw [refundSources, List.foldlM_cons, bind_eq_ok] at h
    obtain ⟨t, ht, h⟩ := h
    obtain ⟨hrewrites, account, hhistory⟩ := refundSource_eq_ok ht
    obtain ⟨hrest, hrefunds, hconfirmed, hdebits⟩ := ih h
    rw [Record.setState_mem_cons]
    refine ⟨hrest.comp hrewrites, fun id => ?_, fun id hid => ?_, fun id => ?_⟩
    · rw [hrefunds, hhistory, refunds_cons_refunded, List.count_cons]
      simp only [beq_iff_eq, eq_comm (a := x)]
      omega
    · have := hconfirmed id hid
      rw [hhistory] at this
      simpa using this
    · rw [hdebits, hhistory, debits_cons_refunded]

/-- A batch is cancelled or passed: what follows it, its withdrawals, the record that was named,
and it. -/
def closeChange (st : TrxState) (named batch : TrxId) (listed : List TrxId) : Record → Record :=
  Record.setState (fun r => r.transactionId = batch) st ∘
    Record.setState (fun r => r.transactionId = named) st ∘
    Record.setState (fun r => r.transactionId ∈ listed) st ∘
    Record.setState (fun r => r.relateTransactionId = batch) st

theorem trxState_closeChange (st : TrxState) (named batch : TrxId) (listed : List TrxId)
    (r : Record) : (closeChange st named batch listed r).trxState =
      if r.transactionId = named ∨ r.transactionId = batch ∨ r.transactionId ∈ listed ∨
        r.relateTransactionId = batch then st else r.trxState := by
  simp only [closeChange, Function.comp_apply, Record.trxState_setState,
    Record.transactionId_setState, decide_eq_true_eq]
  split_ifs <;> simp_all

/-- What cancelling a batch did. -/
structure Canceled (o : WithoutSignOp) (named batch : TrxId) (s s' : State) : Prop where
  rewrites : Rewrites (closeChange .canceled named batch o.ccwTrxIds) [] s s'
  refunds : ∀ id, refunds s'.history id = refunds s.history id + o.ccwTrxIds.count id
  confirmed : ∀ id, .confirmed id ∈ s'.history → .confirmed id ∈ s.history
  debits : ∀ id, debits s'.history id = debits s.history id

theorem cancelBatch_eq_ok {o : WithoutSignOp} {named : TrxId}
    (h : cancelBatch asset o named batch s = .ok s') : Canceled o named batch s s' := by
  simp only [cancelBatch, bind_eq_ok, pure_eq_ok] at h
  obtain ⟨t, ht, accounts, -, rfl⟩ := h
  obtain ⟨hrewrites, hrefunds, hconfirmed, hdebits⟩ := refundSources_eq_ok ht
  exact ⟨((Rewrites.move _ _ _).comp <| (Rewrites.move t _ _).comp <|
    hrewrites.comp <| Rewrites.move s _ _).congr rfl rfl rfl, hrefunds, hconfirmed, hdebits⟩

/-- What the check of a batch says: the record is the one of a without-sign transaction, and it
lists withdrawals. -/
structure Checked (s : State) (batch : Record) (o : WithoutSignOp) : Prop where
  first : batch.realTransaction.withoutSignOp = some o
  listed : ∀ id ∈ o.ccwTrxIds, ∃ r w, s.find id = some r ∧ r.realTransaction.withdrawOp = some w

theorem checkSources_eq_ok {batch : Record} {o : WithoutSignOp}
    (h : checkSources env s batch = .ok (o, asset)) : Checked s batch o := by
  simp only [checkSources, bind_eq_ok, found_eq_ok, require_eq_ok, forM_eq_ok, exists_and_left,
    exists_const, pure_eq_ok, Prod.mk.injEq] at h
  obtain ⟨o', hfirst, asset', -, -, hlisted, rfl, -⟩ := h
  refine ⟨hfirst, fun id hid => ?_⟩
  obtain ⟨r, hr, -, w, hw, -⟩ := hlisted id hid
  exact ⟨r, w, hr, hw⟩

theorem refundCrosschainTrx_eq_ok (h : refundCrosschainTrx env o s = .ok s') :
    ∃ r w, s.find o.trxId = some r ∧ r.trxState = .withoutSignTrxCreate ∧ Checked s r w ∧
      Canceled w o.trxId o.trxId s s' := by
  simp only [refundCrosschainTrx, bind_eq_ok, found_eq_ok, require_eq_ok, exists_and_left,
    exists_const, Prod.exists] at h
  obtain ⟨_, -, r, hr, hst, -, w, asset, hcheck, hcancel⟩ := h
  exact ⟨r, w, hr, hst, checkSources_eq_ok hcheck, cancelBatch_eq_ok hcancel⟩

theorem cancelCombineTrx_eq_ok (h : cancelCombineTrx env o s = .ok s') :
    ∃ r u w, s.find o.trxId = some r ∧ r.trxState = .combineTrxCreate ∧
      s.find r.relateTransactionId = some u ∧ Checked s u w ∧
      Canceled w o.trxId r.relateTransactionId s s' := by
  simp only [cancelCombineTrx, bind_eq_ok, found_eq_ok, require_eq_ok, exists_and_left,
    exists_const, Prod.exists] at h
  obtain ⟨_, -, r, hr, hst, -, _, -, u, hu, -, w, asset, hcheck, hcancel⟩ := h
  exact ⟨r, u, w, hr, hst, hu, checkSources_eq_ok hcheck, cancelBatch_eq_ok hcancel⟩

theorem ethCancelFailCrosschainTrx_eq_ok (h : ethCancelFailCrosschainTrx env o s = .ok s') :
    ∃ r u w, s.find o.trxId = some r ∧ r.trxState = .ethWallfacerSign ∧
      (∃ signed, r.realTransaction.ethSignFinalOp = some signed) ∧
      s.find r.relateTransactionId = some u ∧ Checked s u w ∧
      Canceled w o.trxId r.relateTransactionId s s' := by
  simp only [ethCancelFailCrosschainTrx, bind_eq_ok, found_eq_ok, require_eq_ok, exists_and_left,
    exists_const, Prod.exists] at h
  obtain ⟨_, -, r, hr, hst, -, _, -, signed, hsigned, u, hu, w, asset, hcheck, -, _, -, hcancel⟩ := h
  exact ⟨r, u, w, hr, hst, ⟨signed, hsigned⟩, hu, checkSources_eq_ok hcheck,
    cancelBatch_eq_ok hcancel⟩

/-! ### A batch is passed, or sent back -/

/-- What passing a batch checked and did. -/
structure Passed (o : WallfacerOp) (s s' : State) (r u : Record) (w : WithoutSignOp) : Prop where
  find : s.find o.trxId = some r
  state : r.trxState = .combineTrxCreate
  first : ∃ c, r.realTransaction.combineSignOp = some c
  findBatch : s.find r.relateTransactionId = some u
  checked : Checked s u w
  rewrites : Rewrites (closeChange .transactionConfirm o.trxId r.relateTransactionId w.ccwTrxIds) []
    s s'
  confirmed : s.Indexed → ConfirmedSince s.history s'
  refunds : ∀ id, refunds s'.history id = refunds s.history id
  debits : ∀ id, debits s'.history id = debits s.history id

theorem passSuccessTrx_eq_ok (h : passSuccessTrx env o s = .ok s') :
    ∃ r u w, Passed o s s' r u w := by
  simp only [passSuccessTrx, bind_eq_ok, found_eq_ok, require_eq_ok, exists_and_left,
    exists_const, Prod.exists, pure_eq_ok] at h
  obtain ⟨-, _, -, r, hr, hst, -, hfirst, u, hu, -, w, asset, hcheck, rfl⟩ := h
  have h₁ := Rewrites.move s (·.relateTransactionId = r.relateTransactionId) .transactionConfirm
  have h₂ := (Rewrites.move _ (fun x => x.transactionId ∈ w.ccwTrxIds) .transactionConfirm).comp h₁
  have h₃ := (Rewrites.move _ (·.transactionId = o.trxId) .transactionConfirm).comp h₂
  refine ⟨r, u, w, hr, hst, Option.ne_none_iff_exists'.mp hfirst, hu, checkSources_eq_ok hcheck,
    (Rewrites.move _ _ _).comp h₃, fun hs => ?_, fun id => ?_, fun id => ?_⟩
  · have h₀ : ConfirmedSince s.history s := fun _ hold => .inl hold
    exact (((h₀.move hs _).move (h₁.indexed_same hs) _).move (h₂.indexed_same hs) _).move
      (h₃.indexed_same hs) _
  · rw [refunds_move, refunds_move, refunds_move, refunds_move]
  · rw [debits_move, debits_move, debits_move, debits_move]

/-- A batch is sent back: its signatures stand again, and it waits for a new combination. -/
def recombineChange (batch : TrxId) (listed : List TrxId) : Record → Record :=
  Record.setState (fun r => r.transactionId = batch) .withoutSignTrxCreate ∘
    Record.setState (fun r => r.transactionId ∈ listed) .withoutSignTrxCreate ∘
    Record.setState (fun r => r.relateTransactionId = batch) .signTrx

theorem trxState_recombineChange (batch : TrxId) (listed : List TrxId) (r : Record) :
    (recombineChange batch listed r).trxState =
      if r.transactionId = batch ∨ r.transactionId ∈ listed then .withoutSignTrxCreate
      else if r.relateTransactionId = batch then .signTrx else r.trxState := by
  simp only [recombineChange, Function.comp_apply, Record.trxState_setState,
    Record.transactionId_setState, decide_eq_true_eq]
  split_ifs <;> simp_all

/-- What sending a batch back checked and did. -/
structure SentBack (o : WallfacerOp) (s t : State) (r u : Record) (w : WithoutSignOp) : Prop where
  find : s.find o.trxId = some r
  state : r.trxState = .ethWallfacerNeedSign
  first : ∃ c, r.realTransaction.combineSignOp = some c
  single : r.realTransaction.operations.length = 1
  findBatch : s.find r.relateTransactionId = some u
  checked : Checked s u w
  rewrites : Rewrites (recombineChange r.relateTransactionId w.ccwTrxIds) [] s t
  history : t.history = s.history

theorem ethsCancelUnsignedTransaction_eq_ok (h : ethsCancelUnsignedTransaction env o s = .ok s') :
    ∃ t r u w, SentBack o s t r u w ∧ s' = t.remove o.trxId := by
  simp only [ethsCancelUnsignedTransaction, bind_eq_ok, found_eq_ok, require_eq_ok,
    exists_and_left, exists_const, Prod.exists, pure_eq_ok] at h
  obtain ⟨_, -, r, hr, hst, hsingle, hfirst, _, -, u, hu, -, w, asset, hcheck, rfl⟩ := h
  refine ⟨_, r, u, w, ⟨hr, hst, Option.ne_none_iff_exists'.mp hfirst, hsingle, hu,
    checkSources_eq_ok hcheck, ?_, ?_⟩, rfl⟩
  · exact (Rewrites.move _ _ _).comp <| (Rewrites.move _ _ _).comp <| Rewrites.move s _ _
  · rfl

end Whitecoin.Crosschain
