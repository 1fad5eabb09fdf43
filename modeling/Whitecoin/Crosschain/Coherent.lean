import Whitecoin.Crosschain.Rewrites
import Whitecoin.Lib.Batch

/-!
# Coherent records

The records of a withdrawal, of its batch and of what follows the batch say the same about it, or a
decision taken at one of them is taken about the wrong withdrawals. `Coherent` is the agreement
that the operations rely on without checking it. It is `Batch.Coherent` for the records, where
withdrawals are the sources, without-sign records the batches and all others the followers, with
the account of the money besides: who was refunded is cancelled, and was refunded once; who was
reported as paid is confirmed.
-/

namespace Whitecoin.Crosschain

open Ledger

/-! ### Records as items -/

/-- What a record is to the batches. -/
def OpType.kind : OpType → Batch.Kind
  | withdraw => .source
  | withoutSign => .batch
  | _ => .follower

theorem OpType.kind_source {t : OpType} : t.kind = .source ↔ t = .withdraw := by
  cases t <;> simp [kind]

theorem OpType.kind_batch {t : OpType} : t.kind = .batch ↔ t = .withoutSign := by
  cases t <;> simp [kind]

theorem OpType.kind_ne_loose (t : OpType) : t.kind ≠ .loose := by
  cases t <;> simp [kind]

def Record.item (r : Record) : Batch.Item TrxId TrxState :=
  ⟨r.opType.kind, r.relateTransactionId, r.allRelatedOriginTransactionIds, r.trxState⟩

def State.view (s : State) : TrxId → Option (Batch.Item TrxId TrxState) :=
  fun id => (s.find id).map Record.item

/-- The states in which a record speaks for its batch. -/
def Busy (st : TrxState) : Prop :=
  st = .combineTrxCreate ∨ st = .ethWallfacerNeedSign ∨ st = .ethWallfacerSign ∨
    st = .transactionConfirm

def rules : Batch.Rules TrxId TrxState := ⟨0, .withoutSignTrxUncreate, Busy⟩

variable {s s' : State} {f : Record → Record} {id u : TrxId} {r U : Record}

theorem State.view_of_find (h : s.find id = some r) : s.view id = some r.item := by
  rw [view, h, Option.map_some]

theorem State.view_eq_none : s.view id = none ↔ s.find id = none := Option.map_eq_none_iff

theorem State.find_of_view {n : Batch.Item TrxId TrxState} (h : s.view id = some n) :
    ∃ r, s.find id = some r ∧ r.item = n := Option.map_eq_some_iff.mp h

theorem Record.Frame.item (hf : Record.Frame f) (r : Record) :
    (f r).item = r.item.to (f r).trxState := by
  rw [Record.item, hf.opType, hf.relate, hf.allRelated]
  rfl

theorem Rewrites.view_same (h : Rewrites f [] s s')
    (new : TrxId → Batch.Item TrxId TrxState → TrxState)
    (hf : ∀ r, (f r).trxState = new r.transactionId r.item) : s'.view = Batch.moved new s.view := by
  funext id
  rw [State.view, h.find_same, Batch.moved, State.view]
  cases hr : s.find id with
  | none => rfl
  | some r =>
    simp only [Option.map_some, h.frame.item, hf, State.transactionId_of_find hr]

theorem Rewrites.view_new (h : Rewrites (fun r => r) [r] s s') :
    s'.view = Function.update s.view r.transactionId (some r.item) := by
  funext id
  rw [State.view, h.find_new, Option.map_id']
  by_cases hid : id = r.transactionId
  · rw [if_pos hid, hid, Function.update_self, Option.map_some]
  · rw [if_neg hid, Function.update_of_ne hid, State.view]

theorem State.view_remove (s : State) (x : TrxId) :
    (s.remove x).view = Function.update s.view x none := by
  funext id
  rw [view, find_remove]
  by_cases hid : id = x
  · rw [if_pos hid, hid, Function.update_self, Option.map_none]
  · rw [if_neg hid, Function.update_of_ne hid, view]

/-! ### Coherence -/

/-- The first operation of a transaction is the one whose record it left, if it leaves one. -/
structure FirstOk (r : Record) : Prop where
  opType : ∀ t, r.realTransaction.operations.head?.bind Operation.opType = some t → r.opType = t
  withoutSign : ∀ o, r.realTransaction.withoutSignOp = some o →
    r.allRelatedOriginTransactionIds = o.ccwTrxIds

structure Coherent (s : State) : Prop where
  indexed : s.Indexed
  batches : Batch.Coherent rules s.view
  firstOk : ∀ id r, s.find id = some r → FirstOk r
  confirmed : ∀ id, .confirmed id ∈ s.history → ∃ r, s.find id = some r ∧
    r.trxState = .transactionConfirm
  refunded : ∀ id, refunds s.history id ≠ 0 → refunds s.history id = 1 ∧ ∃ r, s.find id = some r ∧
    r.opType = .withdraw ∧ r.trxState = .canceled

theorem Rewrites.firstOk (h : Rewrites f [] s s') (hs : ∀ id r, s.find id = some r → FirstOk r)
    (id : TrxId) (r' : Record) (hr' : s'.find id = some r') : FirstOk r' := by
  rw [h.find_same, Option.map_eq_some_iff] at hr'
  obtain ⟨r, hr, rfl⟩ := hr'
  obtain ⟨hop, hws⟩ := hs id r hr
  constructor
  · rwa [h.frame.realTransaction, h.frame.opType]
  · rwa [h.frame.realTransaction, h.frame.allRelated]

namespace Coherent

/-- **No withdrawal is refunded twice, and none is both refunded and confirmed.** -/
theorem settledOnce (h : Coherent s) (id : TrxId) :
    refunds s.history id ≤ 1 ∧ ¬ (refunds s.history id ≠ 0 ∧ .confirmed id ∈ s.history) := by
  constructor
  · by_cases h0 : refunds s.history id = 0
    · omega
    · exact Nat.le_of_eq (h.refunded id h0).1
  · rintro ⟨h0, hc⟩
    obtain ⟨-, r, hr, -, hcanceled⟩ := h.refunded id h0
    obtain ⟨r', hr', hconfirm⟩ := h.confirmed id hc
    obtain rfl := Option.mem_unique hr hr'
    rw [hcanceled] at hconfirm
    cases hconfirm

theorem opType_of_first (h : Coherent s) (hr : s.find id = some r) {op : Operation} {t : OpType}
    (hop : r.realTransaction.operations.head? = some op) (ht : op.opType = some t) :
    r.opType = t :=
  (h.firstOk id r hr).opType t (by rw [hop]; exact ht)

theorem batch_of_busy (h : Coherent s) (hr : s.find id = some r) (hk : r.opType.kind = .follower)
    (hbusy : Busy r.trxState) (hU : s.find r.relateTransactionId = some U) :
    U.opType = .withoutSign ∧ U.trxState = r.trxState := by
  obtain ⟨hUk, hst⟩ := h.batches.state_of_busy (State.view_of_find hr) hk hbusy
    (State.view_of_find hU)
  exact ⟨OpType.kind_batch.mp hUk, hst⟩

theorem create (h : Coherent s) (hr : Rewrites (fun r => r) [r] s s') (hid : r.transactionId ≠ 0)
    (hfirst : FirstOk r) (ht : r.opType ≠ .withoutSign)
    (hrelate : r.opType = .withdraw → r.relateTransactionId = 0)
    (huncreate : r.trxState = .withoutSignTrxUncreate → r.opType = .withdraw)
    (hbusy : r.opType.kind = .follower → Busy r.trxState → ∃ u, s.find r.relateTransactionId = some u ∧
      u.opType = .withoutSign ∧ u.trxState = r.trxState)
    (hconf : ∀ id, .confirmed id ∈ s'.history → .confirmed id ∈ s.history)
    (href : ∀ id, refunds s'.history id = refunds s.history id) : Coherent s' := by
  have hnone : s.find r.transactionId = none := hr.fresh r (List.mem_singleton_self r)
  have hold : ∀ {id x}, s.find id = some x → s'.find id = some x := by
    intro id x hx
    rw [hr.find_new, if_neg, Option.map_id', hx]
    rintro rfl
    rw [hnone] at hx
    cases hx
  refine ⟨hr.indexed_new h.indexed, ?_, ?_, fun id hc => ?_, fun id hne => ?_⟩
  · rw [hr.view_new]
    refine h.batches.insert (State.view_eq_none.mpr hnone) hid (mt OpType.kind_batch.mp ht)
      (fun hk => hrelate (OpType.kind_source.mp hk)) (fun hk => absurd hk (OpType.kind_ne_loose _))
      (fun hst => OpType.kind_source.mpr (huncreate hst)) (fun hk hb => ?_)
    obtain ⟨u, hu, hut, hust⟩ := hbusy hk hb
    exact ⟨u.item, State.view_of_find hu, OpType.kind_batch.mpr hut, hust⟩
  · intro id x hx
    rw [hr.find_new, Option.map_id'] at hx
    split at hx
    · exact Option.some.inj hx ▸ hfirst
    · exact h.firstOk id x hx
  · obtain ⟨x, hx, hxc⟩ := h.confirmed id (hconf id hc)
    exact ⟨x, hold hx, hxc⟩
  · rw [href] at hne ⊢
    obtain ⟨hone, x, hx, hxt, hxc⟩ := h.refunded id hne
    exact ⟨hone, x, hold hx, hxt, hxc⟩

/-- **A new batch of distinct withdrawals that are in none yet.** -/
theorem createBatch (h : Coherent s) (hr : Rewrites f [U] s s') (hid : U.transactionId ≠ 0)
    (hfirst : FirstOk U) (ht : U.opType = .withoutSign) (hst : U.trxState = .withoutSignTrxCreate)
    (hhead : U.allRelatedOriginTransactionIds.head? = some U.relateTransactionId)
    (hnodup : U.allRelatedOriginTransactionIds.Nodup)
    (hlisted : ∀ w ∈ U.allRelatedOriginTransactionIds, ∃ W, s.find w = some W ∧
      W.trxState = .withoutSignTrxUncreate)
    (hf : ∀ r, (f r).trxState = if r.transactionId ∈ U.allRelatedOriginTransactionIds
      then .withoutSignTrxCreate else r.trxState)
    (hhistory : s'.history = s.history) : Coherent s' := by
  have hnone : s.find U.transactionId = none := hr.fresh U (List.mem_singleton_self U)
  obtain ⟨t, ht₁, ht₂, -⟩ := hr.split
  -- a record that is not an open withdrawal keeps its state
  have hkeep : ∀ {id r}, s.find id = some r → r.trxState ≠ .withoutSignTrxUncreate →
      ∃ r', s'.find id = some r' ∧ r'.opType = r.opType ∧ r'.trxState = r.trxState := by
    intro id r hx hne
    refine ⟨f r, ?_, hr.frame.opType r, ?_⟩
    · rw [hr.find_new, if_neg, hx, Option.map_some]
      rintro rfl
      rw [hnone] at hx
      cases hx
    · rw [hf, if_neg]
      rw [State.transactionId_of_find hx]
      intro hmem
      obtain ⟨W, hW, hWst⟩ := hlisted id hmem
      obtain rfl := Option.mem_unique hx hW
      exact hne hWst
  refine ⟨hr.indexed_new h.indexed, ?_, ?_, fun id hc => ?_, fun id hne => ?_⟩
  · rw [ht₂.view_new,
      ht₁.view_same (fun id n => if id ∈ U.item.listed then U.item.state else n.state)]
    · refine h.batches.insertBatch (State.view_eq_none.mpr hnone) hid (OpType.kind_batch.mpr ht) ?_
        (List.mem_of_mem_head? hhead) hnodup (fun w hw => ?_) (fun id n _ => rfl)
      · change U.trxState ≠ _
        rw [hst]
        exact nofun
      · obtain ⟨W, hW, hWst⟩ := hlisted w hw
        exact ⟨W.item, State.view_of_find hW, hWst⟩
    · intro r
      rw [hf, ← hst]
      rfl
  · intro id x hx
    rw [ht₂.find_new, Option.map_id'] at hx
    split at hx
    · exact Option.some.inj hx ▸ hfirst
    · exact ht₁.firstOk h.firstOk id x hx
  · rw [hhistory] at hc
    obtain ⟨x, hx, hxc⟩ := h.confirmed id hc
    obtain ⟨x', hx', -, hst'⟩ := hkeep hx (by rw [hxc]; decide)
    exact ⟨x', hx', hst'.trans hxc⟩
  · rw [hhistory] at hne ⊢
    obtain ⟨hone, x, hx, hxt, hxc⟩ := h.refunded id hne
    obtain ⟨x', hx', hop, hst'⟩ := hkeep hx (by rw [hxc]; decide)
    exact ⟨hone, x', hx', hop.trans hxt, hst'.trans hxc⟩

/-- **A batch, its withdrawals and what follows it move together**, and if they are cancelled, its
withdrawals may be refunded. -/
theorem moveBatch (h : Coherent s) (hr : Rewrites f [] s s') (hU : s.find u = some U)
    (ht : U.opType = .withoutSign) (hcanceled : U.trxState ≠ .canceled)
    (hconfirmed : U.trxState ≠ .transactionConfirm) {st : TrxState}
    (hst : st ≠ .withoutSignTrxUncreate) (new : TrxId → Batch.Item TrxId TrxState → TrxState)
    (hf : ∀ r, (f r).trxState = new r.transactionId r.item)
    (hnew : Batch.Coherent.MovesBatch rules s.view u U.item st new)
    (hconf : ConfirmedSince s.history s')
    (href : ∀ id, refunds s'.history id ≤ refunds s.history id +
      if id ∈ U.allRelatedOriginTransactionIds ∧ st = .canceled then 1 else 0) : Coherent s' := by
  have hUv := State.view_of_find hU
  have hk : U.item.kind = .batch := OpType.kind_batch.mpr ht
  have hforth : ∀ {id r}, s.find id = some r → s'.find id = some (f r) := by
    intro id r hx
    rw [hr.find_same, hx, Option.map_some]
  -- what is settled already keeps its state
  have hkeep : ∀ {id r}, s.find id = some r → Batch.Coherent.Apart u U.item id r.item →
      (f r).trxState = r.trxState := by
    intro id r hx hapart
    rw [hf, State.transactionId_of_find hx]
    exact hnew.rest id r.item (State.view_of_find hx) hapart
  refine ⟨hr.indexed_same h.indexed, ?_, hr.firstOk h.firstOk, fun id hc => ?_, fun id hne => ?_⟩
  · rw [hr.view_same new hf]
    exact h.batches.moveBatch hUv hk hst hnew
  · rcases hconf id hc with hold | hconfirm
    · obtain ⟨r, hx, hrc⟩ := h.confirmed id hold
      refine ⟨f r, hforth hx, (hkeep hx ?_).trans hrc⟩
      refine h.batches.settled_apart hUv hk (State.view_of_find hx) ?_ (.inr ?_)
      · exact fun heq => hconfirmed (heq.symm.trans hrc)
      · exact .inr (.inr (.inr hrc))
    · exact hconfirm
  · have hle := href id
    by_cases hold : refunds s.history id = 0
    · -- a first refund: the withdrawal is listed, and moves to `canceled`
      rw [hold] at hle
      split at hle
      · next hc =>
        obtain ⟨W, hW, hWk⟩ := (h.batches.batch u U.item hUv hk).listed id hc.1
        obtain ⟨w, hw, rfl⟩ := State.find_of_view hW
        refine ⟨by omega, f w, hforth hw, (hr.frame.opType w).trans (OpType.kind_source.mp hWk), ?_⟩
        rw [hf, State.transactionId_of_find hw, ← hc.2]
        exact hnew.batch id w.item hW (.inr hc.1)
      · omega
    · obtain ⟨hone, r, hx, hrt, hrc⟩ := h.refunded id hold
      have hapart := h.batches.settled_apart hUv hk (State.view_of_find hx)
        (fun heq => hcanceled (heq.symm.trans hrc)) (.inl (OpType.kind_source.mpr hrt))
      rw [if_neg fun hc => hapart.not_listed hc.1] at hle
      exact ⟨by omega, f r, hforth hx, (hr.frame.opType r).trans hrt, (hkeep hx hapart).trans hrc⟩

theorem moveWhere (h : Coherent s) (hr : Rewrites f [] s s') (hU : s.find u = some U)
    (ht : U.opType = .withoutSign) (hcanceled : U.trxState ≠ .canceled)
    (hconfirmed : U.trxState ≠ .transactionConfirm) {st : TrxState}
    (hst : st ≠ .withoutSignTrxUncreate) (q : TrxId → Batch.Item TrxId TrxState → Prop)
    [∀ id n, Decidable (q id n)]
    (hf : ∀ r, (f r).trxState = if q r.transactionId r.item then st else r.trxState)
    (hbatch : ∀ id n, id = u ∨ id ∈ U.allRelatedOriginTransactionIds → q id n)
    (hbusy : ∀ id n, n.relate = u → n.state = U.trxState → Busy n.state → q id n ∨ n.state = st)
    (hrest : ∀ id n, s.view id = some n → q id n →
      id = u ∨ id ∈ U.allRelatedOriginTransactionIds ∨ n.relate = u)
    (hconf : ConfirmedSince s.history s')
    (href : ∀ id, refunds s'.history id ≤ refunds s.history id +
      if id ∈ U.allRelatedOriginTransactionIds ∧ st = .canceled then 1 else 0) : Coherent s' :=
  h.moveBatch hr hU ht hcanceled hconfirmed hst (fun id n => if q id n then st else n.state) hf
    (h.batches.movesBatch (State.view_of_find hU) (fun _ _ _ => rfl) hbatch hbusy hrest hst) hconf
    href

/-- **The refund of a withdrawal that is in no batch.** -/
theorem refundOne (h : Coherent s) (hW : s.find u = some U)
    (hst : U.trxState = .withoutSignTrxUncreate) (hr : Rewrites f [] s s')
    (hf : ∀ r, (f r).trxState = if r.transactionId = u then .canceled else r.trxState)
    (hconf : ∀ id, .confirmed id ∈ s'.history → .confirmed id ∈ s.history)
    (href : ∀ id, refunds s'.history id = refunds s.history id + if id = u then 1 else 0) :
    Coherent s' := by
  have hforth : ∀ {id r}, s.find id = some r → s'.find id = some (f r) := by
    intro id r hx
    rw [hr.find_same, hx, Option.map_some]
  have hsettled : ∀ {id r}, s.find id = some r → r.trxState ≠ .withoutSignTrxUncreate → id ≠ u := by
    rintro id r hx hne rfl
    obtain rfl := Option.mem_unique hx hW
    exact hne hst
  have hkeep : ∀ {id r}, s.find id = some r → id ≠ u → (f r).trxState = r.trxState := by
    intro id r hx hne
    rw [hf, if_neg]
    rwa [State.transactionId_of_find hx]
  refine ⟨hr.indexed_same h.indexed, ?_, hr.firstOk h.firstOk, fun id hc => ?_, fun id hne => ?_⟩
  · rw [hr.view_same (fun id n => if id = u then .canceled else n.state) hf]
    refine h.batches.moveSource (State.view_of_find hW) hst (fun id n _ hne => if_neg hne) ?_
    rw [if_pos rfl]
    exact nofun
  · obtain ⟨r, hx, hrc⟩ := h.confirmed id (hconf id hc)
    exact ⟨_, hforth hx, (hkeep hx (hsettled hx (by rw [hrc]; decide))).trans hrc⟩
  · by_cases hid : id = u
    · subst hid
      have hzero : refunds s.history id = 0 := by
        by_contra hold
        obtain ⟨-, r, hx, -, hrc⟩ := h.refunded id hold
        exact hsettled hx (by rw [hrc]; decide) rfl
      refine ⟨by rw [href, hzero, if_pos rfl], _, hforth hW, ?_, ?_⟩
      · rw [hr.frame.opType]
        exact OpType.kind_source.mp (h.batches.fresh id _ (State.view_of_find hW) hst)
      · rw [hf, if_pos (State.transactionId_of_find hW)]
    · rw [href, if_neg hid] at hne ⊢
      obtain ⟨hone, r, hx, hrt, hrc⟩ := h.refunded id hne
      exact ⟨hone, _, hforth hx, (hr.frame.opType r).trans hrt, (hkeep hx hid).trans hrc⟩

/-- **A follower of a batch that was not reported as paid is dropped.** -/
theorem remove (h : Coherent s) (hr : s.find id = some r) (hk : r.opType.kind = .follower)
    (hst : r.trxState ≠ .transactionConfirm) : Coherent (s.remove id) := by
  have hback : ∀ {x X}, (s.remove id).find x = some X → s.find x = some X := by
    intro x X hX
    rw [State.find_remove] at hX
    split at hX
    · cases hX
    · exact hX
  have hforth : ∀ {x X}, s.find x = some X → X ≠ r → (s.remove id).find x = some X := by
    intro x X hX hne
    rw [State.find_remove, if_neg]
    · exact hX
    · rintro rfl
      exact hne (Option.mem_unique hX hr)
  refine ⟨h.indexed.remove id, ?_, fun x X hX => h.firstOk x X (hback hX), fun x hc => ?_,
    fun x hne => ?_⟩
  · rw [State.view_remove]
    refine h.batches.remove (State.view_of_find hr) hk fun x n hn hloose => ?_
    obtain ⟨X, -, rfl⟩ := State.find_of_view hn
    exact absurd hloose (OpType.kind_ne_loose _)
  · obtain ⟨X, hX, hXc⟩ := h.confirmed x hc
    refine ⟨X, hforth hX ?_, hXc⟩
    rintro rfl
    exact hst hXc
  · obtain ⟨hone, X, hX, hXt, hXc⟩ := h.refunded x hne
    refine ⟨hone, X, hforth hX ?_, hXt, hXc⟩
    rintro rfl
    rw [hXt] at hk
    cases hk

theorem of_records (h : Coherent s) (hrecords : s'.records = s.records)
    (hhistory : s'.history = s.history) : Coherent s' := by
  have hfind := State.find_congr hrecords
  refine ⟨h.indexed.of_records hrecords, ?_, ?_, ?_, ?_⟩
  · have hview : s'.view = s.view := by
      funext id
      rw [State.view, hfind, State.view]
    exact hview ▸ h.batches
  · rw [hfind]
    exact h.firstOk
  · rw [hfind, hhistory]
    exact h.confirmed
  · rw [hfind, hhistory]
    exact h.refunded

theorem of_empty (hrecords : s.records = []) (hhistory : s.history = []) : Coherent s := by
  have hfind : ∀ id, s.find id = none := by simp [State.find, hrecords]
  refine ⟨by simp [State.Indexed, hrecords], Batch.Coherent.empty ?_, ?_, ?_, ?_⟩
  · exact fun id => State.view_eq_none.mpr (hfind id)
  · simp [hfind]
  · simp [hhistory]
  · simp [refunds, hhistory]

end Coherent

end Whitecoin.Crosschain
