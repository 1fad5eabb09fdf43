import Whitecoin.Coldhot.Evaluate

/-!
# What the evaluators do to the transfers

Every cold-hot operation sets one state at some of the records and appends at most one record of its
own: moves to one and the same state add up (`moveTransfers_moveTransfers`), however many of them
`adjust_coldhot_transaction` makes. `Changes q st new s s'` says that, and there is one theorem for
each evaluator, with what it checked.
-/

namespace Whitecoin.Coldhot

open Check Ledger Crosschain

variable {env : Env} {trx : Transaction} {s t s' : State} {id : TrxId} {r : Transfer}
  {q : Transfer → Prop} [DecidablePred q] {st : ColdhotTrxState} {new : List Transfer}

theorem moveTransfers_moveTransfers (s : State) (p q : Transfer → Bool) (st : ColdhotTrxState) :
    (s.moveTransfers p st).moveTransfers q st = s.moveTransfers (fun r => p r || q r) st := by
  simp only [State.moveTransfers, List.map_map]
  congr 2
  funext r
  by_cases hp : p r <;> by_cases hq : q r <;> simp [Transfer.setState, hp, hq]

/-- The change keeps what links a record to others. -/
structure Frame (f : Transfer → Transfer) : Prop where
  currentId : ∀ r, (f r).currentId = r.currentId
  relate : ∀ r, (f r).relateTrxId = r.relateTrxId
  opType : ∀ r, (f r).opType = r.opType

/-- The records that `q` picks got the state `st`, and the records `new` were appended. Withdrawals
and the external transactions that are used up are not touched. -/
structure Changes (q : Transfer → Prop) [DecidablePred q] (st : ColdhotTrxState)
    (new : List Transfer) (s s' : State) : Prop where
  transfers : ∃ f, Frame f ∧
    (∀ r, (f r).curretTrxState = if q r then st else r.curretTrxState) ∧
    s'.transfers = s.transfers.map f ++ new
  fresh : ∀ r ∈ new, s.findTransfer r.currentId = none
  records : s'.records = s.records
  history : s'.history = s.history
  acquired : s'.acquired = s.acquired

theorem frame_setState (p : Transfer → Bool) (st : ColdhotTrxState) :
    Frame (Transfer.setState p st) := by
  constructor <;> intro r <;> unfold Transfer.setState <;> split <;> rfl

theorem frame_setExternal (p : Transfer → Bool) (external : String) :
    Frame (Transfer.setExternal p external) := by
  constructor <;> intro r <;> unfold Transfer.setExternal <;> split <;> rfl

theorem state_setState (p : Transfer → Bool) (st : ColdhotTrxState) (r : Transfer) :
    (Transfer.setState p st r).curretTrxState = if p r then st else r.curretTrxState := by
  unfold Transfer.setState
  split <;> rfl

namespace Changes

theorem find_same (h : Changes q st [] s s') (id : TrxId) :
    ∃ f, Frame f ∧ (∀ r, (f r).curretTrxState = if q r then st else r.curretTrxState) ∧
      s'.findTransfer id = (s.findTransfer id).map f := by
  obtain ⟨f, hf, hst, htransfers⟩ := h.transfers
  refine ⟨f, hf, hst, ?_⟩
  rw [State.findTransfer, htransfers, List.append_nil]
  exact Table.find_map hf.currentId s.transfers id

theorem move (s : State) (p : Transfer → Bool) (st : ColdhotTrxState)
    (hq : ∀ r, p r = true ↔ q r) : Changes q st [] s (s.moveTransfers p st) := by
  refine ⟨⟨_, frame_setState p st, fun r => ?_, (List.append_nil _).symm⟩, nofun, rfl, rfl, rfl⟩
  rw [state_setState]
  simp only [hq]

theorem nameAndMove (s : State) {p : Transfer → Bool} (external : String)
    (hp : ∀ r r', r'.currentId = r.currentId → r'.relateTrxId = r.relateTrxId →
      r'.curretTrxState = r.curretTrxState → p r' = p r) (hq : ∀ r, p r = true ↔ q r) :
    Changes q st [] s ((s.nameTransfers p external).moveTransfers p st) := by
  have hname := frame_setExternal p external
  have hmove := frame_setState p st
  refine ⟨⟨Transfer.setState p st ∘ Transfer.setExternal p external,
    ⟨fun r => ?_, fun r => ?_, fun r => ?_⟩, fun r => ?_, ?_⟩, nofun, rfl, rfl, rfl⟩
  · exact (hmove.currentId _).trans (hname.currentId r)
  · exact (hmove.relate _).trans (hname.relate r)
  · exact (hmove.opType _).trans (hname.opType r)
  · have hstate : (Transfer.setExternal p external r).curretTrxState = r.curretTrxState := by
      unfold Transfer.setExternal
      split <;> rfl
    rw [Function.comp_apply, state_setState, hstate,
      hp r _ (hname.currentId r) (hname.relate r) hstate]
    simp only [hq]
  · simp only [State.moveTransfers, State.nameTransfers, List.map_map, List.append_nil]

theorem congr (h : Changes q st new s t) (htransfers : s'.transfers = t.transfers)
    (hrecords : s'.records = t.records) (hhistory : s'.history = t.history)
    (hacquired : s'.acquired = t.acquired) : Changes q st new s s' := by
  obtain ⟨f, hf, hst, heq⟩ := h.transfers
  exact ⟨⟨f, hf, hst, htransfers.trans heq⟩, h.fresh, hrecords.trans h.records,
    hhistory.trans h.history, hacquired.trans h.acquired⟩

theorem create (h : Changes q st [] s t) (hr : t.createTransfer r = .ok s') :
    Changes q st [r] s s' := by
  simp only [State.createTransfer, bind_eq_ok, require_eq_ok, exists_and_left, exists_const,
    pure_eq_ok] at hr
  obtain ⟨hnone, rfl⟩ := hr
  obtain ⟨f, hf, hst, heq⟩ := h.transfers
  obtain ⟨g, -, -, hfind⟩ := h.find_same r.currentId
  rw [hfind, Option.map_eq_none_iff] at hnone
  refine ⟨⟨f, hf, hst, ?_⟩, by simpa using hnone, h.records, h.history, h.acquired⟩
  rw [heq, List.append_nil]

theorem find_new (h : Changes q st [r] s s') (id : TrxId) :
    ∃ f, Frame f ∧ (∀ r, (f r).curretTrxState = if q r then st else r.curretTrxState) ∧
      s'.findTransfer id = if id = r.currentId then some r else (s.findTransfer id).map f := by
  obtain ⟨f, hf, hst, heq⟩ := h.transfers
  have hfresh : Table.find (·.currentId) (s.transfers.map f) r.currentId = none := by
    rw [Table.find_map hf.currentId, Option.map_eq_none_iff]
    exact h.fresh r (List.mem_singleton_self r)
  refine ⟨f, hf, hst, ?_⟩
  rw [State.findTransfer, heq]
  refine (Table.find_append hfresh id).trans ?_
  rw [Table.find_map hf.currentId]
  rfl

theorem indexed_same (h : Changes q st [] s s') (hs : (s.transfers.map (·.currentId)).Nodup) :
    (s'.transfers.map (·.currentId)).Nodup := by
  obtain ⟨f, hf, -, heq⟩ := h.transfers
  rw [heq, List.append_nil]
  exact Table.nodup_map hf.currentId hs

theorem indexed_new (h : Changes q st [r] s s') (hs : (s.transfers.map (·.currentId)).Nodup) :
    (s'.transfers.map (·.currentId)).Nodup := by
  obtain ⟨f, hf, -, heq⟩ := h.transfers
  rw [heq]
  refine Table.nodup_append (Table.nodup_map hf.currentId hs) ?_
  rw [Table.find_map hf.currentId, Option.map_eq_none_iff]
  exact h.fresh r (List.mem_singleton_self r)

theorem split (h : Changes q st [r] s s') :
    ∃ t, Changes q st [] s t ∧ Changes (fun _ => False) st [r] t s' := by
  obtain ⟨f, hf, hst, heq⟩ := h.transfers
  refine ⟨{ s' with transfers := s.transfers.map f },
    ⟨⟨f, hf, hst, (List.append_nil _).symm⟩, nofun, h.records, h.history, h.acquired⟩,
    ⟨⟨fun r => r, ⟨fun _ => rfl, fun _ => rfl, fun _ => rfl⟩, fun r => (if_neg id).symm, ?_⟩, ?_,
      rfl, rfl, rfl⟩⟩
  · rw [heq, List.map_id']
  · intro x hx
    obtain rfl := List.mem_singleton.mp hx
    refine (Table.find_map hf.currentId s.transfers _).trans ?_
    rw [Option.map_eq_none_iff]
    exact h.fresh x (List.mem_singleton_self x)

end Changes

theorem create_eq_ok (h : s.createTransfer r = .ok s') :
    Changes (fun _ => False) st [r] s s' := by
  refine Changes.create (t := s) ⟨⟨fun r => r, ⟨fun _ => rfl, fun _ => rfl, fun _ => rfl⟩,
    fun r => (if_neg id).symm, by simp⟩, nofun, rfl, rfl, rfl⟩ h

/-! ### The way of a transfer -/

theorem transfer_eq_ok {o : ColdhotTransferOp} (h : transfer env trx o s = .ok s') :
    Changes (fun _ => False) .withoutSignTrxUncreate
      [record trx .transfer 0 .withoutSignTrxUncreate ""] s s' := by
  simp only [transfer, bind_eq_ok] at h
  obtain ⟨_, -, hcreate⟩ := h
  exact create_eq_ok hcreate

theorem withoutSign_eq_ok {o : ColdhotWithoutSignOp} (h : withoutSign env trx o s = .ok s') :
    (∃ t, s.findTransfer o.coldhotTrxId = some t) ∧
      Changes (fun r => r.currentId = o.coldhotTrxId) .withoutSignTrxCreate
        [record trx .withoutSign o.coldhotTrxId .withoutSignTrxCreate ""] s s' := by
  simp only [withoutSign, evaluateWithoutSign, bind_eq_ok, found_eq_ok] at h
  obtain ⟨_, ⟨_, -, t, ht, -⟩, hcreate⟩ := h
  exact ⟨⟨t, ht⟩, (Changes.move s _ _ (by simp)).create hcreate⟩

theorem withSign_eq_ok {o : ColdhotWithSignOp} (h : withSign env trx o s = .ok s') :
    Changes (fun _ => False) .signTrx [record trx .withSign o.coldhotTrxId .signTrx ""] s s' := by
  simp only [withSign, bind_eq_ok] at h
  obtain ⟨_, -, hcreate⟩ := h
  exact create_eq_ok hcreate

/-- What an accepted combined signature checked and did. -/
structure Combined (trx : Transaction) (o : ColdhotCombineSignOp) (s s' : State)
    (u t : Transfer) (st : ColdhotTrxState) (external : String) : Prop where
  findBatch : s.findTransfer o.coldhotTransferTrxId = some u
  findTransfer : s.findTransfer u.relateTrxId = some t
  state : st = .ethWallfacerNeedSign ∨ st = .combineTrxCreate
  changes : Changes (fun r => (r.currentId = u.relateTrxId ∨ r.currentId = o.coldhotTransferTrxId) ∨
      (r.relateTrxId = o.coldhotTransferTrxId ∧ r.curretTrxState = .signTrx)) st
    [record trx .combineSign o.coldhotTransferTrxId st external] s s'

theorem combinedState_eq (symbol : String) : combinedState symbol = .ethWallfacerNeedSign ∨
    combinedState symbol = .combineTrxCreate := by
  unfold combinedState
  split
  · exact .inl rfl
  · exact .inr rfl

theorem combineSign_eq_ok {o : ColdhotCombineSignOp} (h : combineSign env trx o s = .ok s') :
    ∃ u t st external, Combined trx o s s' u t st external := by
  simp only [combineSign, evaluateCombineSign, bind_eq_ok, found_eq_ok, require_eq_ok,
    exists_and_left, moveTransfers_moveTransfers] at h
  obtain ⟨_, ⟨u, hu, -, _, t, ht, -⟩, u', hu', o', -, hcreate⟩ := h
  obtain rfl := Option.mem_unique hu hu'
  exact ⟨u, t, _, _, hu, ht, combinedState_eq _, (Changes.move s _ _ (by simp)).create hcreate⟩

/-- What an accepted report checked and did. -/
structure Reported (trx : HdTrx) (s s' : State) (c u t : Transfer) : Prop where
  findCombine : findCombine s trx.key = some c
  findBatch : s.findTransfer c.relateTrxId = some u
  findTransfer : s.findTransfer u.relateTrxId = some t
  unused : ¬ UsedUp s trx.key
  changes : Changes (fun r => (r.currentId = c.relateTrxId ∨ r.currentId = u.relateTrxId) ∨
      (r.relateTrxId = c.relateTrxId ∧
        (r.curretTrxState = .combineTrxCreate ∨ r.curretTrxState = .ethWallfacerSign)))
    .transactionConfirm [] (s.confirmExternal trx.key) s'

theorem result_eq_ok {x : HdTrx} (h : result env x s = .ok s') :
    ∃ c u t, Reported x s s' c u t := by
  simp only [result, bind_eq_ok, found_eq_ok, pure_eq_ok, Prod.exists,
    moveTransfers_moveTransfers] at h
  obtain ⟨batch, original, heval, asset, -, accounts, -, rfl⟩ := h
  simp only [evaluateResult, bind_eq_ok, found_eq_ok, require_eq_ok, exists_and_left,
    exists_const] at heval
  obtain ⟨c, hc, -, u, hu, t, ht, hunused, hids⟩ := heval
  have hids' : (c.relateTrxId, u.relateTrxId) = (batch, original) := by
    split at hids
    · exact pure_eq_ok.mp hids
    · simp only [bind_eq_ok, found_eq_ok, require_eq_ok, exists_and_left, exists_const,
        pure_eq_ok] at hids
      obtain ⟨-, -, -, heq⟩ := hids
      exact heq
  obtain ⟨rfl, rfl⟩ := Prod.mk.inj hids'
  refine ⟨c, u, t, hc, hu, ht, hunused, ?_⟩
  exact (Changes.move (s.confirmExternal x.key) _ _ (by simp)).congr rfl rfl rfl rfl

/-! ### Decisions -/

/-- What closing a transfer did: the batch, what follows it, the record named and the transfer. -/
structure Closed (named batch : TrxId) (st : ColdhotTrxState) (new : List Transfer) (s s' : State)
    (u t : Transfer) : Prop where
  findBatch : s.findTransfer batch = some u
  findTransfer : s.findTransfer u.relateTrxId = some t
  changes : Changes (fun r => ((r.currentId = named ∨ r.currentId = batch) ∨ r.relateTrxId = batch) ∨
    r.currentId = u.relateTrxId) st new s s'

variable {named batch : TrxId} {o : WallfacerOp}

theorem closeTransfer_eq_ok (h : closeTransfer named batch st s = .ok s') :
    ∃ u t, Closed named batch st [] s s' u t := by
  simp only [closeTransfer, bind_eq_ok, found_eq_ok, pure_eq_ok, moveTransfers_moveTransfers] at h
  obtain ⟨u, hu, t, ht, rfl⟩ := h
  exact ⟨u, t, hu, ht, Changes.move s _ _ (by simp)⟩

theorem Closed.create {u x : Transfer} (h : Closed named batch st [] s t u x)
    (hr : t.createTransfer r = .ok s') : Closed named batch st [r] s s' u x :=
  ⟨h.findBatch, h.findTransfer, h.changes.create hr⟩

theorem cancelTransfer_eq_ok (h : cancelTransfer trx o s = .ok s') :
    ∃ t, s.findTransfer o.trxId = some t ∧ t.curretTrxState = .withoutSignTrxUncreate ∧
      Changes (fun r => r.currentId = o.trxId) .transactionFail
        [record trx .cancelTransfer o.trxId .transactionFail ""] s s' := by
  simp only [cancelTransfer, bind_eq_ok, found_eq_ok, require_eq_ok, exists_and_left,
    exists_const] at h
  obtain ⟨t, ht, hst, hcreate⟩ := h
  exact ⟨t, ht, hst, (Changes.move s _ _ (by simp)).create hcreate⟩

theorem cancelUncombined_eq_ok (h : cancelUncombined trx o s = .ok s') :
    ∃ u t, u.curretTrxState = .withoutSignTrxCreate ∧ Closed o.trxId o.trxId .transactionFail
      [record trx .cancelUncombined o.trxId .transactionFail ""] s s' u t := by
  simp only [cancelUncombined, bind_eq_ok, found_eq_ok, require_eq_ok, exists_and_left,
    exists_const] at h
  obtain ⟨u, hu, hst, _, -, -, x, hclose, hcreate⟩ := h
  obtain ⟨u', t, hclosed⟩ := closeTransfer_eq_ok hclose
  obtain rfl := Option.mem_unique hu hclosed.findBatch
  exact ⟨u, t, hst, hclosed.create hcreate⟩

theorem cancelCombined_eq_ok (h : cancelCombined env trx o s = .ok s') :
    ∃ c u t, s.findTransfer o.trxId = some c ∧ c.curretTrxState = .combineTrxCreate ∧
      Closed o.trxId c.relateTrxId .transactionFail
        [record trx .cancelCombined o.trxId .transactionFail ""] s s' u t := by
  simp only [cancelCombined, bind_eq_ok, found_eq_ok, require_eq_ok, exists_and_left,
    exists_const] at h
  obtain ⟨c, hc, hst, _, -, _, -, -, x, hclose, hcreate⟩ := h
  obtain ⟨u, t, hclosed⟩ := closeTransfer_eq_ok hclose
  exact ⟨c, u, t, hc, hst, hclosed.create hcreate⟩

theorem passCombine_eq_ok (h : passCombine env trx o s = .ok s') :
    ∃ c u t, s.findTransfer o.trxId = some c ∧ c.curretTrxState = .combineTrxCreate ∧
      Closed o.trxId c.relateTrxId .transactionConfirm [] s s' u t := by
  simp only [passCombine, bind_eq_ok, found_eq_ok, require_eq_ok, exists_and_left,
    exists_const] at h
  obtain ⟨-, c, hc, hst, _, -, -, _, -, -, hclose⟩ := h
  obtain ⟨u, t, hclosed⟩ := closeTransfer_eq_ok hclose
  exact ⟨c, u, t, hc, hst, hclosed⟩

theorem ethCancelFail_eq_ok (h : ethCancelFail env trx o s = .ok s') :
    ∃ c u t, s.findTransfer o.trxId = some c ∧ c.curretTrxState = .ethWallfacerSign ∧
      Closed o.trxId c.relateTrxId .transactionFail
        [record trx .ethCancelFail c.relateTrxId .transactionFail ""] s s' u t := by
  simp only [ethCancelFail, bind_eq_ok, found_eq_ok, require_eq_ok, exists_and_left,
    exists_const] at h
  obtain ⟨_, -, -, c, hc, hst, _, -, -, -, _, -, _, -, -, _, -, x, hclose, hcreate⟩ := h
  obtain ⟨u, t, hclosed⟩ := closeTransfer_eq_ok hclose
  exact ⟨c, u, t, hc, hst, hclosed.create hcreate⟩

/-! ### The final signature -/

/-- What a final signature did. -/
structure Signed (trx : Transaction) (opType : ColdhotOpType) (combine : TrxId) (s s' : State)
    (c u t : Transfer) (external : String) : Prop where
  findCombine : s.findTransfer combine = some c
  findBatch : s.findTransfer c.relateTrxId = some u
  findTransfer : s.findTransfer u.relateTrxId = some t
  changes : Changes (fun r => r.currentId = combine ∨ r.currentId = c.relateTrxId ∨
      r.currentId = u.relateTrxId ∨
      (r.relateTrxId = c.relateTrxId ∧ r.curretTrxState = .ethWallfacerNeedSign))
    .ethWallfacerSign [record trx opType c.relateTrxId .ethWallfacerSign external] s s'

theorem adjustEthSign_eq_ok {opType : ColdhotOpType} {signed : EthSignOp} {combine : TrxId}
    (h : adjustEthSign trx opType signed combine s = .ok s') :
    ∃ c u t external, Signed trx opType combine s s' c u t external := by
  simp only [adjustEthSign, bind_eq_ok, found_eq_ok] at h
  obtain ⟨c, hc, u, hu, t, ht, hcreate⟩ := h
  refine ⟨c, u, t, _, hc, hu, ht, Changes.create (Changes.nameAndMove s _ ?_ (by simp)) hcreate⟩
  intro r r' hid hrel hst
  simp only [hid, hrel, hst]

theorem ethSignFinal_eq_ok {o : EthSignOp} (h : ethSignFinal env trx o s = .ok s') :
    ∃ c u t external, Signed trx .ethSignFinal o.combineTrxId s s' c u t external := by
  simp only [ethSignFinal, bind_eq_ok, found_eq_ok] at h
  obtain ⟨_, -, signed, -, hadjust⟩ := h
  exact adjustEthSign_eq_ok hadjust

theorem ethChangeSigner_eq_ok {o : EthSignOp} (h : ethChangeSigner env trx o s = .ok s') :
    ∃ c u t external, Signed trx .ethChangeSigner o.combineTrxId s s' c u t external := by
  simp only [ethChangeSigner, bind_eq_ok, found_eq_ok] at h
  obtain ⟨_, -, signed, -, hadjust⟩ := h
  exact adjustEthSign_eq_ok hadjust

/-! ### What is not touched -/

/-- A report uses its external transaction up, and the other operations use none. -/
def Uses (op : ColdhotOperation) (s s' : State) : Prop :=
  match op with
  | .result x => ¬ UsedUp s x.key ∧ s'.acquired = (s.confirmExternal x.key).acquired
  | _ => s'.acquired = s.acquired

/-- **Cold-hot operations leave the withdrawals alone.** -/
theorem apply_frame {op : ColdhotOperation} (h : apply env trx op s = .ok s') :
    s'.records = s.records ∧ s'.history = s.history ∧ Uses op s s' := by
  cases op with
  | transfer o =>
    have hc := transfer_eq_ok h
    exact ⟨hc.records, hc.history, hc.acquired⟩
  | withoutSign o =>
    have hc := (withoutSign_eq_ok h).2
    exact ⟨hc.records, hc.history, hc.acquired⟩
  | withSign o =>
    have hc := withSign_eq_ok h
    exact ⟨hc.records, hc.history, hc.acquired⟩
  | combineSign o =>
    obtain ⟨_, _, _, _, hc⟩ := combineSign_eq_ok h
    exact ⟨hc.changes.records, hc.changes.history, hc.changes.acquired⟩
  | result x =>
    obtain ⟨_, _, _, hc⟩ := result_eq_ok h
    exact ⟨hc.changes.records, hc.changes.history, hc.unused, hc.changes.acquired⟩
  | cancelTransfer o =>
    obtain ⟨_, -, -, hc⟩ := cancelTransfer_eq_ok h
    exact ⟨hc.records, hc.history, hc.acquired⟩
  | cancelUncombined o =>
    obtain ⟨_, _, -, hc⟩ := cancelUncombined_eq_ok h
    exact ⟨hc.changes.records, hc.changes.history, hc.changes.acquired⟩
  | cancelCombined o =>
    obtain ⟨_, _, _, -, -, hc⟩ := cancelCombined_eq_ok h
    exact ⟨hc.changes.records, hc.changes.history, hc.changes.acquired⟩
  | passCombine o =>
    obtain ⟨_, _, _, -, -, hc⟩ := passCombine_eq_ok h
    exact ⟨hc.changes.records, hc.changes.history, hc.changes.acquired⟩
  | ethCancelFail o =>
    obtain ⟨_, _, _, -, -, hc⟩ := ethCancelFail_eq_ok h
    exact ⟨hc.changes.records, hc.changes.history, hc.changes.acquired⟩
  | ethSignFinal o =>
    obtain ⟨_, _, _, _, hc⟩ := ethSignFinal_eq_ok h
    exact ⟨hc.changes.records, hc.changes.history, hc.changes.acquired⟩
  | ethChangeSigner o =>
    obtain ⟨_, _, _, _, hc⟩ := ethChangeSigner_eq_ok h
    exact ⟨hc.changes.records, hc.changes.history, hc.changes.acquired⟩

end Whitecoin.Coldhot
