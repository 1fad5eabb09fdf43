import Whitecoin.Crosschain.Step
import Whitecoin.Lib.Batch

/-!
# A cold-hot transfer is executed once

A transfer that was cancelled or confirmed is closed: nothing may change its state any more, and no
second external transaction may be made for it. The evaluators do not ensure that. Four of the
operations do not look at the state of the record they act upon:

* a without-sign operation reopens a transfer that was cancelled, and makes a second external
  transaction for one that is under way;
* a combined signature takes any record for the batch, also one that was cancelled;
* the report confirms what the combined signature follows, also after it was cancelled, except on
  the chains of the Ethereum family;
* a final signature is put on any combined signature.

A run in which these four are only used in the states they are meant for is *tidy*. The
cancellations and the pass need no condition: they check the state of the record they name, and a
record of the wrong kind is refused because the records it leads to do not exist.
-/

namespace Whitecoin.Coldhot

open Check Ledger Crosschain

/-! ### Transfers as items -/

/-- The record of a cancellation is attached to the record that was named, which is no batch, unless
it is the cancellation of a batch. -/
def kind : ColdhotOpType → Batch.Kind
  | .transfer => .source
  | .withoutSign => .batch
  | .cancelTransfer | .cancelCombined => .loose
  | .withSign | .combineSign | .cancelUncombined | .ethCancelFail | .ethSignFinal
  | .ethChangeSigner => .follower

theorem kind_batch {t : ColdhotOpType} : kind t = .batch ↔ t = .withoutSign := by
  cases t <;> decide

def item (r : Transfer) : Batch.Item TrxId ColdhotTrxState where
  kind := kind r.opType
  relate := r.relateTrxId
  listed := [r.relateTrxId]
  state := r.curretTrxState

def view (s : State) (id : TrxId) : Option (Batch.Item TrxId ColdhotTrxState) :=
  (s.findTransfer id).map item

/-- The states that are not to be left. -/
def Final (st : ColdhotTrxState) : Prop := st = .transactionConfirm ∨ st = .transactionFail

instance (st : ColdhotTrxState) : Decidable (Final st) := inferInstanceAs (Decidable (_ ∨ _))

def Busy (st : ColdhotTrxState) : Prop :=
  st = .combineTrxCreate ∨ st = .ethWallfacerNeedSign ∨ st = .ethWallfacerSign ∨ Final st

def rules : Batch.Rules TrxId ColdhotTrxState := ⟨0, .withoutSignTrxUncreate, Busy⟩

variable {env : Env} {trx : Transaction} {op : ColdhotOperation} {s t s' : State} {id u : TrxId}
  {r x y U : Transfer} {q : Transfer → Prop} [DecidablePred q] {st : ColdhotTrxState}

theorem view_of_find (h : s.findTransfer id = some r) : view s id = some (item r) := by
  rw [view, h, Option.map_some]

theorem view_eq_none : view s id = none ↔ s.findTransfer id = none := Option.map_eq_none_iff

theorem Changes.view_same (h : Changes q st [] s s')
    (p : TrxId → Batch.Item TrxId ColdhotTrxState → Prop) [∀ id n, Decidable (p id n)]
    (hp : ∀ r, q r ↔ p r.currentId (item r)) :
    view s' = Batch.moved (fun id n => if p id n then st else n.state) (view s) := by
  funext id
  obtain ⟨f, hf, hst, hfind⟩ := h.find_same id
  rw [view, hfind, Batch.moved, view]
  cases hr : s.findTransfer id with
  | none => rfl
  | some r =>
    have hid : r.currentId = id := Table.key_of_find hr
    simp only [Option.map_some, item, hf.opType, hf.relate, hst, hp, hid]
    rfl

theorem Changes.view_new (h : Changes (fun _ => False) st [r] s s') :
    view s' = Function.update (view s) r.currentId (some (item r)) := by
  funext id
  obtain ⟨f, hf, hst, hfind⟩ := h.find_new id
  rw [view, hfind]
  by_cases hid : id = r.currentId
  · rw [if_pos hid, hid, Function.update_self, Option.map_some]
  · rw [if_neg hid, Function.update_of_ne hid, view]
    cases s.findTransfer id with
    | none => rfl
    | some x => simp only [Option.map_some, item, hf.opType, hf.relate, hst, if_false]

theorem Changes.batch_moved (h : Changes q st [] s s') (hU : s.findTransfer u = some U)
    (hk : U.opType = .withoutSign) (hq : q U) : ∃ U', s'.findTransfer u = some U' ∧
      U'.opType = .withoutSign ∧ U'.curretTrxState = st := by
  obtain ⟨f, hf, hst, hfind⟩ := h.find_same u
  refine ⟨f U, by rw [hfind, hU, Option.map_some], (hf.opType U).trans hk, ?_⟩
  rw [hst, if_pos hq]

/-! ### The invariant -/

structure Orderly (s : State) : Prop where
  indexed : (s.transfers.map (·.currentId)).Nodup
  batches : Batch.Coherent rules (view s)
  created : ∀ id n, view s id = some n → n.state = .withoutSignTrxCreate →
    n.kind = .source ∨ n.kind = .batch
  loose : ∀ id n, view s id = some n → n.kind = .loose → n.state = .transactionFail

/-- The invariant holds again; what is closed keeps its state, and nothing is open again for an
external transaction. -/
structure Advances (s s' : State) : Prop where
  orderly : Orderly s'
  kept : ∀ id n, view s id = some n → ∃ n', view s' id = some n' ∧
    (Final n.state → n'.state = n.state) ∧
    (n'.state = .withoutSignTrxUncreate → n.state = .withoutSignTrxUncreate)

theorem Orderly.congr (h : Orderly s) (heq : s'.transfers = s.transfers) : Orderly s' := by
  have hview : view s' = view s := by
    funext id
    rw [view, State.findTransfer, heq]
    rfl
  refine ⟨heq ▸ h.indexed, hview ▸ h.batches, ?_, ?_⟩
  · rw [hview]
    exact h.created
  · rw [hview]
    exact h.loose

theorem Advances.refl (h : Orderly s) : Advances s s :=
  ⟨h, fun _ n hn => ⟨n, hn, fun _ => rfl, fun hst => hst⟩⟩

theorem Advances.congr (h : Advances s t) (heq : s'.transfers = t.transfers) : Advances s s' := by
  have hview : view s' = view t := by
    funext id
    rw [view, State.findTransfer, heq]
    rfl
  refine ⟨h.orderly.congr heq, ?_⟩
  rw [hview]
  exact h.kept

theorem Advances.trans (h : Advances s t) (h' : Advances t s') : Advances s s' := by
  refine ⟨h'.orderly, fun id n hn => ?_⟩
  obtain ⟨m, hm, hfinal, hopen⟩ := h.kept id n hn
  obtain ⟨n', hn', hfinal', hopen'⟩ := h'.kept id m hm
  refine ⟨n', hn', fun hf => ?_, fun hst => hopen (hopen' hst)⟩
  rw [hfinal' (by rwa [hfinal hf]), hfinal hf]

namespace Orderly

theorem of_empty (h : s.transfers = []) : Orderly s := by
  have hview : ∀ id, view s id = none := by simp [view, State.findTransfer, h]
  refine ⟨by simp [h], .empty hview, ?_, ?_⟩ <;> simp [hview]

theorem not_source (h : Orderly s) (hr : s.findTransfer id = some r)
    (hx : s.findTransfer r.relateTrxId = some x) : kind r.opType ≠ .source := by
  intro hk
  have hnil : r.relateTrxId = 0 := h.batches.source id _ (view_of_find hr) hk
  have hnone : view s 0 = none := h.batches.nil
  rw [hnil] at hx
  rw [view_of_find hx] at hnone
  cases hnone

theorem not_batch (h : Orderly s) (hr : s.findTransfer id = some r)
    (hx : s.findTransfer r.relateTrxId = some x) (hy : s.findTransfer x.relateTrxId = some y) :
    kind r.opType ≠ .batch := by
  intro hk
  exact h.not_source hx hy (h.batches.kind_of_listed (view_of_find hr) hk
    (List.mem_singleton_self _) (view_of_find hx))

theorem batch_of_created (h : Orderly s) (hr : s.findTransfer id = some r)
    (hst : r.curretTrxState = .withoutSignTrxCreate) (hx : s.findTransfer r.relateTrxId = some x) :
    r.opType = .withoutSign :=
  kind_batch.mp ((h.created id _ (view_of_find hr) hst).resolve_left (h.not_source hr hx))

/-- A busy record that leads to three others follows a batch, which is in its state. -/
theorem batch_of_busy (h : Orderly s) (hr : s.findTransfer id = some r)
    (hU : s.findTransfer r.relateTrxId = some U) (hy : s.findTransfer U.relateTrxId = some y)
    (hbusy : Busy r.curretTrxState) (hne : r.curretTrxState ≠ .transactionFail) :
    kind r.opType = .follower ∧ U.opType = .withoutSign ∧ U.curretTrxState = r.curretTrxState := by
  have hk : kind r.opType = .follower := by
    cases hkind : kind r.opType with
    | source => exact absurd hkind (h.not_source hr hU)
    | batch => exact absurd hkind (h.not_batch hr hU hy)
    | follower => rfl
    | loose => exact absurd (h.loose id _ (view_of_find hr) hkind) hne
  obtain ⟨hUk, hUst⟩ := h.batches.state_of_busy (view_of_find hr) hk hbusy (view_of_find hU)
  exact ⟨hk, kind_batch.mp hUk, hUst⟩

/-! ### Changes that keep it -/

/-- **A batch that is not closed moves, with its transfer and what follows it.** -/
theorem moveBatch (h : Orderly s) (hU : s.findTransfer u = some U) (hk : U.opType = .withoutSign)
    (hlive : ¬ Final U.curretTrxState) (hst : st ≠ .withoutSignTrxUncreate)
    (hst' : st ≠ .withoutSignTrxCreate)
    (p : TrxId → Batch.Item TrxId ColdhotTrxState → Prop) [∀ id n, Decidable (p id n)]
    (hp : ∀ r, q r ↔ p r.currentId (item r))
    (hbatch : ∀ id n, id = u ∨ id = U.relateTrxId → p id n)
    (hbusy : ∀ id n, n.relate = u → n.state = U.curretTrxState → Busy n.state →
      p id n ∨ n.state = st)
    (hrest : ∀ id n, view s id = some n → p id n → id = u ∨ id = U.relateTrxId ∨ n.relate = u)
    (hc : Changes q st [] s s') : Advances s s' := by
  have hUv := view_of_find hU
  have hUk : (item U).kind = .batch := kind_batch.mpr hk
  have hview := hc.view_same p hp
  have hmoves : Batch.Coherent.MovesBatch rules (view s) u (item U) st
      (fun id n => if p id n then st else n.state) := by
    refine h.batches.movesBatch hUv (fun _ _ _ => rfl) (fun id n hin => hbatch id n ?_) hbusy
      (fun id n hn hpn => ?_) hst
    · exact hin.imp_right List.mem_singleton.mp
    · exact (hrest id n hn hpn).imp_right (Or.imp_left List.mem_singleton.mpr)
  refine ⟨⟨hc.indexed_same h.indexed, ?_, ?_, ?_⟩, fun id n hn => ?_⟩
  · rw [hview]
    exact h.batches.moveBatch hUv hUk hst hmoves
  · rw [hview]
    intro id _ hn' hcreate
    obtain ⟨n, hn, rfl⟩ := Batch.moved_eq_some.mp hn'
    split at hcreate
    · exact absurd hcreate hst'
    · exact h.created id n hn hcreate
  · rw [hview]
    intro id _ hn' hloose
    obtain ⟨n, hn, rfl⟩ := Batch.moved_eq_some.mp hn'
    -- a loose record is not moved with a batch
    have hapart := h.batches.settled_apart hUv hUk hn (fun heq => ?_)
      (.inr (by rw [h.loose id n hn hloose]; simp [rules, Busy, Final]))
    · exact (hmoves.rest id n hn hapart).trans (h.loose id n hn hloose)
    · exact hlive (.inr (heq.symm.trans (h.loose id n hn hloose)))
  · rw [hview]
    refine ⟨_, Batch.moved_of_some hn, fun hfinal => ?_, fun hopen => ?_⟩
    · refine hmoves.rest id n hn (h.batches.settled_apart hUv hUk hn (fun heq => ?_) (.inr ?_))
      · exact hlive (heq.subst (motive := Final) hfinal)
      · exact .inr (.inr (.inr hfinal))
    · rw [Batch.Item.state_to] at hopen
      split at hopen
      · exact absurd hopen hst
      · exact hopen

/-- **A transfer that is in no batch moves.** -/
theorem moveSource (h : Orderly s) (hr : s.findTransfer u = some r)
    (hrst : r.curretTrxState = .withoutSignTrxUncreate) (hst : st ≠ .withoutSignTrxUncreate)
    (hc : Changes (fun r => r.currentId = u) st [] s s') : Advances s s' := by
  have hview := hc.view_same (fun id _ => id = u) (fun _ => Iff.rfl)
  have hkeep : ∀ {id n}, view s id = some n → n.state ≠ .withoutSignTrxUncreate → id ≠ u := by
    rintro id n hn hne rfl
    obtain rfl := Option.mem_unique hn (view_of_find hr)
    exact hne hrst
  refine ⟨⟨hc.indexed_same h.indexed, ?_, ?_, ?_⟩, fun id n hn => ?_⟩
  · rw [hview]
    refine h.batches.moveSource (view_of_find hr) hrst (fun id n _ hne => if_neg hne) ?_
    rw [if_pos rfl]
    exact hst
  · rw [hview]
    intro id _ hn' hcreate
    obtain ⟨n, hn, rfl⟩ := Batch.moved_eq_some.mp hn'
    split at hcreate
    · next heq =>
      subst heq
      obtain rfl := Option.mem_unique hn (view_of_find hr)
      exact .inl (h.batches.fresh id (item r) hn hrst)
    · exact h.created id n hn hcreate
  · rw [hview]
    intro id _ hn' hloose
    obtain ⟨n, hn, rfl⟩ := Batch.moved_eq_some.mp hn'
    have hfail := h.loose id n hn hloose
    rw [Batch.Item.state_to, if_neg (hkeep hn (by rw [hfail]; decide))]
    exact hfail
  · rw [hview]
    refine ⟨_, Batch.moved_of_some hn, fun hfinal => if_neg (hkeep hn ?_), fun hopen => ?_⟩
    · rintro heq
      rcases hfinal with hf | hf <;> rw [hf] at heq <;> cases heq
    · rw [Batch.Item.state_to] at hopen
      split at hopen
      · exact absurd hopen hst
      · exact hopen

/-- **A new record that is not a batch.** -/
theorem create (h : Orderly s) (hid : r.currentId ≠ 0) (hk : kind r.opType ≠ .batch)
    (hsource : kind r.opType = .source → r.relateTrxId = 0)
    (hloose : kind r.opType = .loose → r.curretTrxState = .transactionFail ∧
      ∃ y, view s r.relateTrxId = some y ∧ y.kind ≠ .batch)
    (hopen : r.curretTrxState = .withoutSignTrxUncreate → kind r.opType = .source)
    (hcreated : r.curretTrxState ≠ .withoutSignTrxCreate)
    (hbusy : kind r.opType = .follower → Busy r.curretTrxState →
      ∃ U, s.findTransfer r.relateTrxId = some U ∧ U.opType = .withoutSign ∧
        U.curretTrxState = r.curretTrxState)
    (hc : Changes (fun _ => False) st [r] s s') : Advances s s' := by
  have hnone : view s r.currentId = none :=
    view_eq_none.mpr (hc.fresh r (List.mem_singleton_self r))
  refine ⟨⟨hc.indexed_new h.indexed, ?_, ?_, ?_⟩, fun id n hn => ?_⟩
  · rw [hc.view_new]
    refine h.batches.insert hnone hid hk hsource (fun hl => (hloose hl).2) hopen fun hf hb => ?_
    obtain ⟨U, hU, hUk, hUst⟩ := hbusy hf hb
    exact ⟨item U, view_of_find hU, kind_batch.mpr hUk, hUst⟩
  · rw [hc.view_new]
    intro id n hn hcreate
    rcases Batch.update_eq_some hn with ⟨-, rfl⟩ | hn
    · exact absurd hcreate hcreated
    · exact h.created id n hn hcreate
  · rw [hc.view_new]
    intro id n hn hl
    rcases Batch.update_eq_some hn with ⟨-, rfl⟩ | hn
    · exact (hloose hl).1
    · exact h.loose id n hn hl
  · rw [hc.view_new]
    exact ⟨n, Batch.update_of_some hnone hn, fun _ => rfl, fun hst => hst⟩

variable {opType : ColdhotOpType} {external : String}

/-- **A new record that follows a batch in its own state.** -/
theorem createFollower (h : Orderly s)
    (hc : Changes (fun _ => False) st [record trx opType u st external] s s')
    (hk : kind opType = .follower) (hopen : st ≠ .withoutSignTrxUncreate)
    (hcreated : st ≠ .withoutSignTrxCreate)
    (hbusy : Busy st → ∃ U, s.findTransfer u = some U ∧ U.opType = .withoutSign ∧
      U.curretTrxState = st) :
    Advances s s' := by
  have hk' : kind (record trx opType u st external).opType = .follower := hk
  exact h.create trx.id_ne (by simp [hk']) (by simp [hk']) (by simp [hk'])
    (fun hst => absurd hst hopen) hcreated (fun _ => hbusy) hc

/-- **The record of a cancellation that is attached to something else than a batch.** -/
theorem createLoose (h : Orderly s) (hk : kind opType = .loose) (hx : s.findTransfer u = some x)
    (hxk : kind x.opType ≠ .batch)
    (hc : Changes (fun _ => False) st [record trx opType u .transactionFail external] s s') :
    Advances s s' := by
  have hk' : kind (record trx opType u .transactionFail external).opType = .loose := hk
  exact h.create trx.id_ne (by simp [hk']) (by simp [hk'])
    (fun _ => ⟨rfl, item x, view_of_find hx, hxk⟩) (fun hst => by cases hst) (fun hst => by cases hst)
    (by simp [hk']) hc

/-- **An external transaction is made for an open transfer.** -/
theorem createBatch (h : Orderly s) (hr : s.findTransfer u = some r)
    (hrst : r.curretTrxState = .withoutSignTrxUncreate)
    (hc : Changes (fun r => r.currentId = u) .withoutSignTrxCreate
      [record trx .withoutSign u .withoutSignTrxCreate ""] s s') : Advances s s' := by
  obtain ⟨t, hmove, hnew⟩ := hc.split
  have ht := h.moveSource hr hrst (by decide) hmove
  have hnone : view t trx.id = none :=
    view_eq_none.mpr (hnew.fresh _ (List.mem_singleton_self _))
  refine ⟨⟨hc.indexed_new h.indexed, ?_, ?_, ?_⟩, fun id n hn => ?_⟩
  · rw [hnew.view_new, hmove.view_same (fun id _ => id ∈ [u]) (by simp)]
    refine h.batches.insertBatch (view_eq_none.mpr (hc.fresh _ (List.mem_singleton_self _)))
      trx.id_ne rfl nofun (List.mem_singleton_self u) (List.nodup_singleton u) (fun w hw => ?_)
      (fun _ _ _ => rfl)
    obtain rfl := List.mem_singleton.mp hw
    exact ⟨item r, view_of_find hr, hrst⟩
  · rw [hnew.view_new]
    intro id n hn hcreate
    rcases Batch.update_eq_some hn with ⟨-, rfl⟩ | hn
    · exact .inr rfl
    · exact ht.orderly.created id n hn hcreate
  · rw [hnew.view_new]
    intro id n hn hloose
    rcases Batch.update_eq_some hn with ⟨-, rfl⟩ | hn
    · cases hloose
    · exact ht.orderly.loose id n hn hloose
  · obtain ⟨n', hn', hkept⟩ := ht.kept id n hn
    rw [hnew.view_new]
    exact ⟨n', Batch.update_of_some hnone hn', hkept⟩

end Orderly

/-! ### Tidy operations -/

/-- The operations that do not look at the state of the record they act upon are used in the states
they are meant for. -/
def Tidy (op : ColdhotOperation) (s : State) : Prop :=
  match op with
  | .withoutSign o => ∀ t, s.findTransfer o.coldhotTrxId = some t →
      t.curretTrxState = .withoutSignTrxUncreate
  | .combineSign o => ∀ t, s.findTransfer o.coldhotTransferTrxId = some t →
      t.curretTrxState = .withoutSignTrxCreate
  | .result x => ∀ t, findCombine s x.key = some t →
      t.curretTrxState = .combineTrxCreate ∨ t.curretTrxState = .ethWallfacerSign
  | .ethSignFinal o | .ethChangeSigner o => ∀ t, s.findTransfer o.combineTrxId = some t →
      t.curretTrxState = .ethWallfacerNeedSign ∨ t.curretTrxState = .ethWallfacerSign
  | _ => True

instance (op : ColdhotOperation) (s : State) : Decidable (Tidy op s) := by
  cases op <;> unfold Tidy <;> infer_instance

theorem advances_combineSign {o : ColdhotCombineSignOp} (hs : Orderly s)
    (htidy : Tidy (.combineSign o) s) (h : combineSign env trx o s = .ok s') : Advances s s' := by
  obtain ⟨U, y, st, external, hc⟩ := combineSign_eq_ok h
  have hst := htidy U hc.findBatch
  have hk := hs.batch_of_created hc.findBatch hst hc.findTransfer
  have hopen : st ≠ .withoutSignTrxUncreate ∧ st ≠ .withoutSignTrxCreate := by
    rcases hc.state with rfl | rfl <;> decide
  obtain ⟨t, hmove, hnew⟩ := hc.changes.split
  have ht : Advances s t := by
    refine hs.moveBatch hc.findBatch hk (by rw [hst]; decide) hopen.1 hopen.2
      (fun id n => (id = U.relateTrxId ∨ id = o.coldhotTransferTrxId) ∨
        (n.relate = o.coldhotTransferTrxId ∧ n.state = .signTrx)) (fun _ => Iff.rfl) ?_ ?_ ?_ hmove
    · exact fun id n hin => .inl hin.symm
    · intro id n _ hsame hbusy
      rw [hsame, hst] at hbusy
      simp [Busy, Final] at hbusy
    · rintro id n - ((hq | hq) | hq)
      exacts [.inr (.inl hq), .inl hq, .inr (.inr hq.1)]
  refine ht.trans (ht.orderly.createFollower hnew rfl hopen.1 hopen.2 fun _ => ?_)
  exact hmove.batch_moved hc.findBatch hk (.inl (.inr (Table.key_of_find hc.findBatch)))

theorem advances_result {x : HdTrx} (hs : Orderly s) (htidy : Tidy (.result x) s)
    (h : result env x s = .ok s') : Advances s s' := by
  obtain ⟨c, U, y, hr⟩ := result_eq_ok h
  have hst := htidy c hr.findCombine
  have hmem : c ∈ s.transfers := List.mem_of_find?_eq_some hr.findCombine
  obtain ⟨-, hk, hUst⟩ := hs.batch_of_busy (Table.find_of_mem hs.indexed hmem) hr.findBatch
    hr.findTransfer (by rcases hst with hst | hst <;> simp [hst, Busy])
    (by rcases hst with hst | hst <;> simp [hst])
  have hlive : ¬ Final U.curretTrxState := by
    rcases hst with hst | hst <;> simp [hUst, hst, Final]
  have hadvances : Advances (s.confirmExternal x.key) s' := by
    refine Orderly.moveBatch (hs.congr rfl) hr.findBatch hk hlive (by decide) (by decide)
      (fun id n => (id = c.relateTrxId ∨ id = U.relateTrxId) ∨ (n.relate = c.relateTrxId ∧
        (n.state = .combineTrxCreate ∨ n.state = .ethWallfacerSign))) (fun _ => Iff.rfl) ?_ ?_ ?_
      hr.changes
    · exact fun id n hin => .inl hin
    · intro id n hrel hsame _
      have hn : n.state = c.curretTrxState := hsame.trans hUst
      exact .inl (.inr ⟨hrel, by rwa [hn]⟩)
    · rintro id n - ((hq | hq) | hq)
      exacts [.inl hq, .inr (.inl hq), .inr (.inr hq.1)]
  exact ⟨hadvances.orderly, hadvances.kept⟩

variable {named : TrxId} {o : WallfacerOp} {c : Transfer}

theorem Closed.advances {batch : TrxId} {n : Transfer} (hs : Orderly s)
    (h : Closed named batch st [] s s' U y) (hn : s.findTransfer named = some n)
    (hnamed : named = batch ∨ n.relateTrxId = batch) (hk : U.opType = .withoutSign)
    (hlive : ¬ Final U.curretTrxState) (hst : Final st) : Advances s s' := by
  refine hs.moveBatch h.findBatch hk hlive (by rcases hst with rfl | rfl <;> decide)
    (by rcases hst with rfl | rfl <;> decide)
    (fun id n => ((id = named ∨ id = batch) ∨ n.relate = batch) ∨ id = U.relateTrxId)
    (fun _ => Iff.rfl) ?_ ?_ ?_ h.changes
  · rintro id m (hin | hin)
    exacts [.inl (.inl (.inr hin)), .inr hin]
  · exact fun id m hrel _ _ => .inl (.inl (.inr hrel))
  · rintro id m hm (((rfl | hq) | hq) | hq)
    · obtain rfl := Option.mem_unique hm (view_of_find hn)
      exact hnamed.elim .inl fun hrel => .inr (.inr hrel)
    exacts [.inl hq, .inr (.inr hq), .inr (.inl hq)]

theorem advances_cancelTransfer (hs : Orderly s) (h : cancelTransfer trx o s = .ok s') :
    Advances s s' := by
  obtain ⟨x, hx, hst, hc⟩ := cancelTransfer_eq_ok h
  obtain ⟨t, hmove, hnew⟩ := hc.split
  have ht := hs.moveSource hx hst (by decide) hmove
  -- the record of the cancellation is attached to the transfer
  have hk : kind x.opType = .source := hs.batches.fresh o.trxId _ (view_of_find hx) hst
  obtain ⟨f, hf, -, hfind⟩ := hmove.find_same o.trxId
  rw [hx, Option.map_some] at hfind
  exact ht.trans (ht.orderly.createLoose rfl hfind (by simp [hf.opType, hk]) hnew)

theorem advances_cancelUncombined (hs : Orderly s) (h : cancelUncombined trx o s = .ok s') :
    Advances s s' := by
  obtain ⟨U, y, hst, hc⟩ := cancelUncombined_eq_ok h
  have hk := hs.batch_of_created hc.findBatch hst hc.findTransfer
  obtain ⟨t, hmove, hnew⟩ := hc.changes.split
  have ht : Advances s t := Closed.advances hs ⟨hc.findBatch, hc.findTransfer, hmove⟩ hc.findBatch
    (.inl rfl) hk (by rw [hst]; decide) (.inr rfl)
  refine ht.trans (ht.orderly.createFollower hnew rfl nofun nofun fun _ => ?_)
  exact hmove.batch_moved hc.findBatch hk
    (.inl (.inl (.inl (Table.key_of_find hc.findBatch))))

theorem advances_closed (hs : Orderly s) (hc : s.findTransfer named = some c)
    (hst : c.curretTrxState = .combineTrxCreate ∨ c.curretTrxState = .ethWallfacerSign)
    (hfinal : Final st) (h : Closed named c.relateTrxId st [] s s' U y) :
    Advances s s' ∧ kind c.opType = .follower ∧ U.opType = .withoutSign := by
  obtain ⟨hck, hk, hUst⟩ := hs.batch_of_busy hc h.findBatch h.findTransfer
    (by rcases hst with hst | hst <;> simp [hst, Busy])
    (by rcases hst with hst | hst <;> simp [hst])
  have hlive : ¬ Final U.curretTrxState := by
    rcases hst with hst | hst <;> simp [hUst, hst, Final]
  exact ⟨Closed.advances hs h hc (.inr rfl) hk hlive hfinal, hck, hk⟩

theorem advances_cancelCombined (hs : Orderly s) (h : cancelCombined env trx o s = .ok s') :
    Advances s s' := by
  obtain ⟨c, U, y, hc, hst, hclosed⟩ := cancelCombined_eq_ok h
  obtain ⟨t, hmove, hnew⟩ := hclosed.changes.split
  obtain ⟨ht, hck, -⟩ := advances_closed hs hc (.inl hst) (.inr rfl)
    ⟨hclosed.findBatch, hclosed.findTransfer, hmove⟩
  -- the record of the cancellation is attached to the record that was named
  obtain ⟨f, hf, -, hfind⟩ := hmove.find_same o.trxId
  rw [hc, Option.map_some] at hfind
  exact ht.trans (ht.orderly.createLoose rfl hfind (by simp [hf.opType, hck]) hnew)

theorem advances_ethCancelFail (hs : Orderly s) (h : ethCancelFail env trx o s = .ok s') :
    Advances s s' := by
  obtain ⟨c, U, y, hc, hst, hclosed⟩ := ethCancelFail_eq_ok h
  obtain ⟨t, hmove, hnew⟩ := hclosed.changes.split
  obtain ⟨ht, -, hk⟩ := advances_closed hs hc (.inr hst) (.inr rfl)
    ⟨hclosed.findBatch, hclosed.findTransfer, hmove⟩
  refine ht.trans (ht.orderly.createFollower hnew rfl nofun nofun fun _ => ?_)
  exact hmove.batch_moved hclosed.findBatch hk
    (.inl (.inl (.inr (Table.key_of_find hclosed.findBatch))))

theorem Signed.advances {opType : ColdhotOpType} {combine : TrxId} {external : String}
    (hs : Orderly s) (htype : kind opType = .follower)
    (h : Signed trx opType combine s s' c U y external)
    (hst : c.curretTrxState = .ethWallfacerNeedSign ∨ c.curretTrxState = .ethWallfacerSign) :
    Advances s s' := by
  obtain ⟨-, hk, hUst⟩ := hs.batch_of_busy h.findCombine h.findBatch h.findTransfer
    (by rcases hst with hst | hst <;> simp [hst, Busy])
    (by rcases hst with hst | hst <;> simp [hst])
  obtain ⟨t, hmove, hnew⟩ := h.changes.split
  have hlive : ¬ Final U.curretTrxState := by
    rcases hst with hst | hst <;> simp [hUst, hst, Final]
  have ht : Advances s t := by
    refine hs.moveBatch h.findBatch hk hlive (by decide) (by decide)
      (fun id n => id = combine ∨ id = c.relateTrxId ∨ id = U.relateTrxId ∨
        (n.relate = c.relateTrxId ∧ n.state = .ethWallfacerNeedSign)) (fun _ => Iff.rfl) ?_ ?_ ?_
      hmove
    · exact fun id n hin => .inr (hin.imp_right .inl)
    · intro id n hrel hsame _
      rcases hst with hst | hst
      · exact .inl (.inr (.inr (.inr ⟨hrel, hsame.trans (hUst.trans hst)⟩)))
      · exact .inr (hsame.trans (hUst.trans hst))
    · rintro id n hn (rfl | hq | hq | hq)
      · obtain rfl := Option.mem_unique hn (view_of_find h.findCombine)
        exact .inr (.inr rfl)
      exacts [.inl hq, .inr (.inl hq), .inr (.inr hq.1)]
  refine ht.trans (ht.orderly.createFollower hnew htype nofun nofun fun _ => ?_)
  exact hmove.batch_moved h.findBatch hk (.inr (.inl (Table.key_of_find h.findBatch)))

/-- **Every accepted tidy operation keeps the invariant and what is closed.** -/
theorem advances_apply (hs : Orderly s) (htidy : Tidy op s) (h : apply env trx op s = .ok s') :
    Advances s s' := by
  cases op with
  | transfer o =>
    exact hs.create trx.id_ne (by simp [record, kind]) (fun _ => rfl) (by simp [record, kind])
      (fun _ => rfl) (by simp [record]) (by simp [record, kind]) (transfer_eq_ok h)
  | withoutSign o =>
    obtain ⟨⟨t, ht⟩, hc⟩ := withoutSign_eq_ok h
    exact hs.createBatch ht (htidy t ht) hc
  | withSign o =>
    refine hs.createFollower (withSign_eq_ok h) rfl nofun nofun fun hbusy => ?_
    simp [Busy, Final] at hbusy
  | combineSign o => exact advances_combineSign hs htidy h
  | result x => exact advances_result hs htidy h
  | cancelTransfer o => exact advances_cancelTransfer hs h
  | cancelUncombined o => exact advances_cancelUncombined hs h
  | cancelCombined o => exact advances_cancelCombined hs h
  | passCombine o =>
    obtain ⟨c, U, y, hc, hst, hclosed⟩ := passCombine_eq_ok h
    exact (advances_closed hs hc (.inl hst) (.inl rfl) hclosed).1
  | ethCancelFail o => exact advances_ethCancelFail hs h
  | ethSignFinal o =>
    obtain ⟨c, U, y, external, hsigned⟩ := ethSignFinal_eq_ok h
    exact Signed.advances hs rfl hsigned (htidy c hsigned.findCombine)
  | ethChangeSigner o =>
    obtain ⟨c, U, y, external, hsigned⟩ := ethChangeSigner_eq_ok h
    exact Signed.advances hs rfl hsigned (htidy c hsigned.findCombine)

/-! ### Runs -/

def TidyStep (_ : Env) (_ : Transaction) (op : Operation) (s : State) : Prop :=
  match op with
  | .coldhot o => Tidy o s
  | _ => True

instance (env : Env) (trx : Transaction) (op : Operation) (s : State) :
    Decidable (TidyStep env trx op s) := by
  cases op <;> unfold TidyStep <;> infer_instance

theorem advances_applyOperation {op : Operation} (hs : Orderly s) (htidy : TidyStep env trx op s)
    (h : applyOperation env trx op s = .ok s') : Advances s s' := by
  cases op with
  | coldhot o => exact advances_apply hs htidy h
  | _ => exact (Advances.refl hs).congr ((applyOperation_writes h).transfers nofun)

/-- How many external transactions were made for a transfer. -/
def executed (ops : List Operation) (id : TrxId) : ℕ :=
  ops.countP fun
    | .coldhot (.withoutSign o) => o.coldhotTrxId = id
    | _ => false

theorem executed_append (ops : List Operation) (op : Operation) (id : TrxId) :
    executed (ops ++ [op]) id = executed ops id + executed [op] id := by
  simp only [executed, List.countP_append]

/-- The operation makes an external transaction for the transfer, or for another one, or none. -/
theorem executed_singleton (op : Operation) (id : TrxId) : executed [op] id = 0 ∨
    executed [op] id = 1 ∧ ∃ o, op = .coldhot (.withoutSign o) ∧ o.coldhotTrxId = id := by
  cases op with
  | coldhot o =>
    cases o with
    | withoutSign o =>
      by_cases hid : o.coldhotTrxId = id
      · exact .inr ⟨by simp [executed, hid], o, rfl, hid⟩
      · exact .inl (by simp [executed, hid])
    | _ => exact .inl rfl
  | _ => exact .inl rfl

theorem view_withoutSign {o : ColdhotWithoutSignOp} (h : withoutSign env trx o s = .ok s') :
    ∃ n, view s' o.coldhotTrxId = some n ∧ n.state ≠ .withoutSignTrxUncreate := by
  obtain ⟨⟨x, hx⟩, hc⟩ := withoutSign_eq_ok h
  obtain ⟨f, -, hst, hfind⟩ := hc.find_new o.coldhotTrxId
  rw [if_neg, hx, Option.map_some] at hfind
  · refine ⟨item (f x), view_of_find hfind, ?_⟩
    change (f x).curretTrxState ≠ _
    rw [hst, if_pos (Table.key_of_find hx)]
    decide
  · intro heq
    have hfresh := hc.fresh _ (List.mem_singleton_self _)
    rw [← heq, hx] at hfresh
    cases hfresh

/-- At most one external transaction was made for each transfer, and none for an open one. -/
def Once (done : List Operation) (s : State) : Prop :=
  ∀ id, executed done id ≤ 1 ∧
    (executed done id ≠ 0 → ∃ n, view s id = some n ∧ n.state ≠ .withoutSignTrxUncreate)

theorem once_applyOperation {op : Operation} {done : List Operation} (hs : Orderly s)
    (hdone : Once done s) (htidy : TidyStep env trx op s)
    (h : applyOperation env trx op s = .ok s') : Once (done ++ [op]) s' := by
  intro id
  obtain ⟨hle, hopen⟩ := hdone id
  rw [executed_append]
  rcases executed_singleton op id with hzero | ⟨hone, o, rfl, rfl⟩
  · rw [hzero, Nat.add_zero]
    refine ⟨hle, fun hne => ?_⟩
    obtain ⟨n, hn, hst⟩ := hopen hne
    obtain ⟨n', hn', -, hback⟩ := (advances_applyOperation hs htidy h).kept id n hn
    exact ⟨n', hn', fun hst' => hst (hback hst')⟩
  · -- the transfer was open, so no external transaction was made for it before
    obtain ⟨⟨x, hx⟩, -⟩ := withoutSign_eq_ok h
    have hzero : executed done o.coldhotTrxId = 0 := by
      by_contra hne
      obtain ⟨n, hn, hst⟩ := hopen hne
      obtain rfl := Option.mem_unique hn (view_of_find hx)
      exact hst (htidy x hx)
    rw [hone, hzero]
    exact ⟨Nat.le_refl _, fun _ => view_withoutSign h⟩

/-! ### Two untidy runs -/

/-- Two bitcoins are to be moved from the cold to the hot account. -/
def moveOp : Operation := .coldhot (.transfer ⟨"cold", "hot", "2", "BTC", 1⟩)

def moveReserve : Transaction := .numbered 0 [moveOp] []

def cancelReserve : Transaction := .numbered 1 [.coldhot (.cancelTransfer ⟨3, 3, 1⟩)] []

/-- An external transaction for it. -/
def executeReserve (id : TrxId) (hid : id ≠ 0) : Transaction :=
  ⟨id, [.coldhot (.withoutSign ⟨1, "source", 3, "BTC"⟩)], [], hid⟩

/-- Its combined signature, and the report. -/
def combineReserve : Transaction :=
  .numbered 3 [.coldhot (.combineSign ⟨[], "", [], 3, "BTC", "external"⟩)] []

def reportReserve : Transaction :=
  .numbered 4 [.coldhot (.result ⟨"external", "cold", "hot", "2", "BTC"⟩)] []

/-- The state of the transfer after a run. -/
def reserveAfter (trxs : List Transaction) : Option ColdhotTrxState :=
  ((run tenBitcoins (trxs.map (quietEnv, ·))).findTransfer 1).map (·.curretTrxState)

/-- A second transfer of the same kind, after the first one was cancelled. -/
def moveReserveAgain : Transaction := .numbered 5 [moveOp] []

end Whitecoin.Coldhot
