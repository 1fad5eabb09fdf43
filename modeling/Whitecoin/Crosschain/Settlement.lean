import Whitecoin.Crosschain.Coherent
import Whitecoin.Crosschain.Step

/-!
# A withdrawal is settled once

The money of a withdrawal goes back to the user or to the other chain, and not both: a withdrawal
should be refunded at most once, and never refunded and confirmed.

The operations that settle a withdrawal look at the state of the one record they name, and trust
that the records linked to it agree (`Coherent`). Four checks that this trust needs are missing.

* A without-sign operation may list a withdrawal twice. Cancelling the batch refunds it twice.
* A combined signature takes whatever its first signature follows for the batch. If that is named as
  the without-sign record itself, the *withdrawal* is taken for the batch, and the batch stays
  open.
* A report finds the combined signature by the external id, in any state if the symbol is not one of
  the Ethereum family; a cancelled batch can be reported as paid.
* A final signature does not look at the state of the combined signature either.

`Tidy` says that the operations of a run do not do this. Then every record agrees with its batch
along the run, and no withdrawal is settled twice.
-/

namespace Whitecoin.Crosschain

open Check Ledger

/-! ### The conditions -/

/-- The heights above which all checks are made. -/
def AboveForks (env : Env) : Prop :=
  crosschainRecordEvaluate310000 < env.headBlockNum ∧
    crosschainRecordEvaluate480000 < env.headBlockNum ∧
    crosschainRecordEvaluate1000000 < env.headBlockNum

/-- What the evaluators do not check: a batch lists no withdrawal twice, a combined signature is
made of signatures of a batch, only a combined batch is reported as paid, and only one that waits
for it gets a final signature. -/
def Tidy (op : Operation) (s : State) : Prop :=
  match op with
  | .withoutSign o => o.ccwTrxIds.Nodup
  | .combineSign o => ∀ first ∈ o.signedTrxIds.head?, ∀ r ∈ s.find first,
      ∀ u ∈ s.find r.relateTransactionId, u.opType = .withoutSign
  | .withdrawResult t => ∀ c ∈ s.findCombine t.key,
      c.trxState = .combineTrxCreate ∨ c.trxState = .ethWallfacerSign
  | .ethSignFinal o => ∀ c ∈ s.find o.combineTrxId,
      c.trxState = .ethWallfacerNeedSign ∨ c.trxState = .ethWallfacerSign
  | _ => True

instance (env : Env) : Decidable (AboveForks env) := inferInstanceAs (Decidable (_ ∧ _))

instance (op : Operation) (s : State) : Decidable (Tidy op s) :=
  match op with
  | .withoutSign o => inferInstanceAs (Decidable o.ccwTrxIds.Nodup)
  | .combineSign o => inferInstanceAs (Decidable (∀ first ∈ o.signedTrxIds.head?,
      ∀ r ∈ s.find first, ∀ u ∈ s.find r.relateTransactionId, u.opType = .withoutSign))
  | .withdrawResult t => inferInstanceAs (Decidable (∀ c ∈ s.findCombine t.key, _ ∨ _))
  | .ethSignFinal o => inferInstanceAs (Decidable (∀ c ∈ s.find o.combineTrxId, _ ∨ _))
  | .accountBind _ | .accountUnbind _ | .record _ | .withdraw _ | .withSign _ | .ethChangeSigner _
  | .refundBalance _ | .refundCrosschainTrx _ | .cancelCombineTrx _ | .passSuccessTrx _
  | .ethCancelFailCrosschainTrx _ | .ethsCancelUnsignedTransaction _ | .coldhot _ | .other =>
    inferInstanceAs (Decidable True)

variable {env : Env} {trx : Transaction} {op : Operation} {s s' : State}

/-! ### New records -/

variable {r U : Record} {w : WithoutSignOp} {named batch : TrxId} {o : WallfacerOp}

theorem firstOk_new (hready : Ready trx op s) (hnone : s.find trx.id = none)
    (htrx : r.realTransaction = trx) (hop : op.opType = some r.opType)
    (hlist : ∀ o, op = .withoutSign o → r.allRelatedOriginTransactionIds = o.ccwTrxIds) :
    FirstOk r := by
  constructor
  · intro t ht
    rw [htrx] at ht
    rw [hready.head hnone ht, Option.bind_some, hop] at ht
    exact Option.some.inj ht
  · intro o ho
    rw [htrx, Transaction.withoutSignOp_eq_some] at ho
    have hhead := hready.head hnone (t := .withoutSign) (by rw [ho]; rfl)
    exact hlist o (Option.mem_unique hhead ho)

theorem coherent_withdraw {o : WithdrawOp} (hready : Ready trx (.withdraw o) s) (hs : Coherent s)
    (h : withdraw env trx o s = .ok s') : Coherent s' := by
  obtain ⟨asset, amount, hw⟩ := withdraw_eq_ok h
  refine hs.create hw.rewrites trx.id_ne (firstOk_new hready hw.fresh rfl rfl (by simp)) nofun
    (fun _ => rfl) (fun _ => rfl) nofun (fun id hc => ?_) (fun id => ?_)
  · rw [hw.history] at hc
    simpa using hc
  · rw [hw.history]
    simp [refunds]

theorem coherent_withSign {o : WithSignOp} (hready : Ready trx (.withSign o) s) (hs : Coherent s)
    (h : withSign env trx o s = .ok s') : Coherent s' := by
  obtain ⟨-, hrewrites, hhistory⟩ := withSign_eq_ok h
  have hfresh : s.find trx.id = none := hrewrites.fresh _ (List.mem_singleton_self _)
  refine hs.create hrewrites trx.id_ne (firstOk_new hready hfresh rfl rfl (by simp)) nofun nofun
    nofun (fun _ hbusy => ?_) (by simp [hhistory]) (by simp [hhistory])
  simp [withSignRecord, Busy] at hbusy

theorem coherent_withoutSign {o : WithoutSignOp} (hready : Ready trx (.withoutSign o) s)
    (hfork : AboveForks env) (hnodup : o.ccwTrxIds.Nodup) (hs : Coherent s)
    (h : withoutSign env trx o s = .ok s') : Coherent s' := by
  obtain ⟨first, hw⟩ := withoutSign_eq_ok h
  have hfresh : s.find trx.id = none := hw.rewrites.fresh _ (List.mem_singleton_self _)
  refine hs.createBatch hw.rewrites trx.id_ne (firstOk_new hready hfresh rfl rfl ?_) rfl rfl hw.head
    hnodup (fun w hlisted => ?_) (fun r => ?_) hw.history
  · rintro _ ⟨⟩
    rfl
  · obtain ⟨W, hW, hst⟩ := hw.uncreate w hlisted
    exact ⟨W, hW, hst (Nat.le_of_lt hfork.1)⟩
  · rw [Function.comp_apply, trxState_setFee, Record.trxState_setState]
    simp only [decide_eq_true_eq]
    rfl

/-! ### A batch is combined -/

theorem coherent_combineSign {o : CombineSignOp} (hready : Ready trx (.combineSign o) s)
    (hfork : AboveForks env) (htidy : Tidy (.combineSign o) s) (hs : Coherent s)
    (h : combineSign env trx o s = .ok s') : Coherent s' := by
  obtain ⟨batch, U, o', hc⟩ := combineSign_eq_ok h
  have hfresh : s.find trx.id = none := hc.rewrites.fresh _ (List.mem_singleton_self _)
  have hUv := State.view_of_find hc.findBatch
  have ht : U.opType = .withoutSign := by
    obtain ⟨first, r, hfirst, hr, rfl⟩ := hc.named
    exact htidy first hfirst r hr U hc.findBatch
  -- the withdrawals wait for the combination, and so does the batch
  have hst : U.trxState = .withoutSignTrxCreate := by
    have hmem := (hs.batches.batch _ _ hUv (OpType.kind_batch.mpr ht)).relate
    obtain ⟨W, hW, hWst⟩ := hc.listed _ hmem
    exact (hs.batches.together _ _ _ _ hUv (OpType.kind_batch.mpr ht) hmem
      (State.view_of_find hW)).symm.trans (hWst hfork.2.1)
  obtain ⟨t, hmove, hcreate, hthistory⟩ := hc.rewrites.split
  have hhistory : t.history = s.history := hthistory.trans hc.history
  have hmoved : Coherent t := by
    refine hs.moveWhere hmove hc.findBatch ht (by rw [hst]; decide) (by rw [hst]; decide)
      (combinedState_ne_uncreate o'.assetSymbol)
      (fun id n => id = batch ∨ id ∈ U.allRelatedOriginTransactionIds ∨
        (n.relate = batch ∧ n.state = .signTrx))
      (trxState_combineChange _ _ _) ?_ ?_ ?_ ?_ (by simp [hhistory])
    · exact fun id n hin => hin.elim .inl fun hl => .inr (.inl hl)
    · intro id n _ hsame hbusy
      rw [hsame, hst] at hbusy
      simp [Busy] at hbusy
    · rintro id n - (hq | hq | hq)
      exacts [.inl hq, .inr (.inl hq), .inr (.inr hq.1)]
    · exact fun id hc => .inl (hhistory ▸ hc)
  refine hmoved.create hcreate trx.id_ne (firstOk_new hready hfresh rfl rfl (by simp)) nofun nofun
    (fun hun => absurd hun (combinedState_ne_uncreate o'.assetSymbol)) (fun _ _ => ?_)
    (by simp [hthistory]) (by simp [hthistory])
  refine ⟨_, by rw [hmove.find_same]; exact congrArg _ hc.findBatch,
    (hmove.frame.opType U).trans ht, ?_⟩
  rw [trxState_combineChange, if_pos (.inl (State.transactionId_of_find hc.findBatch))]
  rfl

/-! ### A batch is finally signed -/

/-- The final signature and the change of the signer, at a combined signature that waits for it or
has it. -/
theorem coherent_ethSigned {opType : OpType} {signed : EthSignOp} {combine : TrxId} {c : Record}
    (hready : Ready trx op s) (hop : op.opType = some opType)
    (htype : opType = .ethSignFinal ∨ opType = .ethChangeSigner) (hs : Coherent s)
    (hc : ∃ o', c.realTransaction.combineSignOp = some o')
    (hst : c.trxState = .ethWallfacerNeedSign ∨ c.trxState = .ethWallfacerSign)
    (h : EthSigned trx opType signed combine s s' c U) : Coherent s' := by
  have hfresh : s.find trx.id = none := h.rewrites.fresh _ (List.mem_singleton_self _)
  obtain ⟨o', ho'⟩ := hc
  have hct := hs.opType_of_first h.findCombine (Transaction.combineSignOp_eq_some.mp ho') rfl
  obtain ⟨ht, hUst⟩ := hs.batch_of_busy h.findCombine (by rw [hct]; rfl)
    (by rcases hst with hst | hst <;> simp [hst, Busy]) h.findBatch
  obtain ⟨t, hmove, hcreate, hthistory⟩ := h.rewrites.split
  have hhistory : t.history = s.history := hthistory.trans h.history
  have hmoved : Coherent t := by
    refine hs.moveWhere hmove h.findBatch ht (by rcases hst with hst | hst <;> simp [hUst, hst])
      (by rcases hst with hst | hst <;> simp [hUst, hst])
      (show TrxState.ethWallfacerSign ≠ .withoutSignTrxUncreate by decide)
      (fun id n => id = combine ∨ id = c.relateTransactionId ∨
        id ∈ U.allRelatedOriginTransactionIds ∨
        (n.relate = c.relateTransactionId ∧ n.state = .ethWallfacerNeedSign))
      (trxState_ethSignChange _ _ _ _) ?_ ?_ ?_ ?_ (by simp [hhistory])
    · exact fun id n hin => hin.elim (fun hu => .inr (.inl hu)) fun hl => .inr (.inr (.inl hl))
    · intro id n hrel hsame _
      rcases hst with hst | hst
      · exact .inl (.inr (.inr (.inr ⟨hrel, hsame.trans (hUst.trans hst)⟩)))
      · exact .inr (hsame.trans (hUst.trans hst))
    · rintro id n hn (rfl | hq | hq | hq)
      · obtain rfl := Option.mem_unique hn (State.view_of_find h.findCombine)
        exact .inr (.inr rfl)
      exacts [.inl hq, .inr (.inl hq), .inr (.inr hq.1)]
    · exact fun id hc => .inl (hhistory ▸ hc)
  have hfollower : (ethSignRecord trx opType c.relateTransactionId
      (afterBar signed.signedCrosschainTrxId)).opType = .ethSignFinal ∨
      (ethSignRecord trx opType c.relateTransactionId
        (afterBar signed.signedCrosschainTrxId)).opType = .ethChangeSigner := htype
  refine hmoved.create hcreate trx.id_ne (firstOk_new hready hfresh rfl hop ?_) ?_ ?_ nofun
    (fun _ _ => ?_) (by simp [hthistory]) (by simp [hthistory])
  · rintro o rfl
    rcases htype with rfl | rfl <;> cases hop
  · rcases hfollower with hk | hk <;> simp [hk]
  · rcases hfollower with hk | hk <;> simp [hk]
  · refine ⟨_, by rw [hmove.find_same]; exact congrArg _ h.findBatch,
      (hmove.frame.opType U).trans ht, ?_⟩
    rw [trxState_ethSignChange, if_pos (.inr (.inl (State.transactionId_of_find h.findBatch)))]
    rfl

/-! ### A batch is reported as paid, or passed -/

theorem Coherent.confirmExternal (hs : Coherent s) (key : String) :
    Coherent (s.confirmExternal key) :=
  ⟨hs.indexed, hs.batches, hs.firstOk, hs.confirmed, hs.refunded⟩

theorem coherent_withdrawResult {t : HdTrx} (htidy : Tidy (.withdrawResult t) s) (hs : Coherent s)
    (h : withdrawResult env t s = .ok s') : Coherent s' := by
  obtain ⟨c, U, hr⟩ := withdrawResult_eq_ok h
  have hst := htidy c hr.findCombine
  have hmem : c ∈ s.records := List.mem_of_find?_eq_some hr.findCombine
  have hct : c.opType = .combineSign := by
    have := List.find?_some hr.findCombine
    simp only [decide_eq_true_eq] at this
    exact this.2
  obtain ⟨ht, hUst⟩ := hs.batch_of_busy (hs.indexed.find hmem) (by rw [hct]; rfl)
    (by rcases hst with hst | hst <;> simp [hst, Busy]) hr.findBatch
  refine (hs.confirmExternal t.key).moveWhere hr.rewrites hr.findBatch ht
    (by rcases hst with hst | hst <;> simp [hUst, hst])
    (by rcases hst with hst | hst <;> simp [hUst, hst])
    (show TrxState.transactionConfirm ≠ .withoutSignTrxUncreate by decide)
    (fun id n => id = c.relateTransactionId ∨ id ∈ U.allRelatedOriginTransactionIds ∨
      (n.relate = c.relateTransactionId ∧
        (n.state = .combineTrxCreate ∨ n.state = .ethWallfacerSign)))
    (trxState_confirmChange _ _) ?_ ?_ ?_ (hr.confirmed hs.indexed) (fun id => ?_)
  · exact fun id n hin => hin.elim .inl fun hl => .inr (.inl hl)
  · intro id n hrel hsame _
    have hn : n.state = c.trxState := hsame.trans hUst
    rcases hst with hst | hst
    · exact .inl (.inr (.inr ⟨hrel, .inl (hn.trans hst)⟩))
    · exact .inl (.inr (.inr ⟨hrel, .inr (hn.trans hst)⟩))
  · rintro id n - (hq | hq | hq)
    exacts [.inl hq, .inr (.inl hq), .inr (.inr hq.1)]
  · rw [hr.refunds]
    exact Nat.le_add_right _ _

theorem Coherent.checked {u : TrxId} (hs : Coherent s) (hU : s.find u = some U) (hc : Checked s U w)
    :
    U.opType = .withoutSign ∧ U.allRelatedOriginTransactionIds = w.ccwTrxIds :=
  ⟨hs.opType_of_first hU (Transaction.withoutSignOp_eq_some.mp hc.first) rfl,
    (hs.firstOk u U hU).withoutSign w hc.first⟩

theorem Coherent.close {st : TrxState} (hs : Coherent s) (hr : s.find named = some r)
    (hnamed : named = batch ∨ r.relateTransactionId = batch) (hU : s.find batch = some U)
    (hchecked : Checked s U w) (hcanceled : U.trxState ≠ .canceled)
    (hconfirmed : U.trxState ≠ .transactionConfirm) (hst : st ≠ .withoutSignTrxUncreate)
    (hrewrites : Rewrites (closeChange st named batch w.ccwTrxIds) [] s s')
    (hconf : ConfirmedSince s.history s')
    (href : ∀ id, refunds s'.history id ≤ refunds s.history id +
      if id ∈ U.allRelatedOriginTransactionIds ∧ st = .canceled then 1 else 0) :
    Coherent s' := by
  obtain ⟨ht, hlist⟩ := hs.checked hU hchecked
  refine hs.moveWhere hrewrites hU ht hcanceled hconfirmed hst
    (fun id n => id = named ∨ id = batch ∨ id ∈ w.ccwTrxIds ∨ n.relate = batch)
    (trxState_closeChange _ _ _ _) ?_ ?_ ?_ hconf href
  · rintro id n (hin | hin)
    · exact .inr (.inl hin)
    · exact .inr (.inr (.inl (hlist ▸ hin)))
  · exact fun id n hrel _ _ => .inl (.inr (.inr (.inr hrel)))
  · rintro id n hn (rfl | hq | hq | hq)
    · obtain rfl := Option.mem_unique hn (State.view_of_find hr)
      exact hnamed.elim .inl fun hrel => .inr (.inr hrel)
    exacts [.inl hq, .inr (.inl (hlist.symm ▸ hq)), .inr (.inr hq)]

theorem coherent_passSuccessTrx (hs : Coherent s) (h : passSuccessTrx env o s = .ok s') :
    Coherent s' := by
  obtain ⟨r, U, w, hp⟩ := passSuccessTrx_eq_ok h
  obtain ⟨c, hc⟩ := hp.first
  have hrt := hs.opType_of_first hp.find (Transaction.combineSignOp_eq_some.mp hc) rfl
  have hUst := (hs.batch_of_busy hp.find (by rw [hrt]; rfl) (by simp [hp.state, Busy])
    hp.findBatch).2
  exact hs.close hp.find (.inr rfl) hp.findBatch hp.checked (by simp [hUst, hp.state])
    (by simp [hUst, hp.state]) (by decide) hp.rewrites (hp.confirmed hs.indexed)
    (by simp [hp.refunds])

/-! ### A batch is cancelled -/

theorem coherent_canceled (hs : Coherent s) (hr : s.find named = some r)
    (hnamed : named = batch ∨ r.relateTransactionId = batch) (hU : s.find batch = some U)
    (hchecked : Checked s U w) (hcanceled : U.trxState ≠ .canceled)
    (hconfirmed : U.trxState ≠ .transactionConfirm) (h : Canceled w named batch s s') :
    Coherent s' := by
  obtain ⟨ht, hlist⟩ := hs.checked hU hchecked
  refine hs.close hr hnamed hU hchecked hcanceled hconfirmed (by decide) h.rewrites
    (fun id hc => .inl (h.confirmed id hc)) (fun id => ?_)
  -- a batch lists no withdrawal twice, so each is refunded once
  have hnodup : U.allRelatedOriginTransactionIds.Nodup :=
    (hs.batches.batch batch _ (State.view_of_find hU) (OpType.kind_batch.mpr ht)).nodup
  rw [hlist] at hnodup ⊢
  rw [h.refunds]
  split
  · have := List.nodup_iff_count_le_one.mp hnodup id
    omega
  · next hne =>
    have := List.count_eq_zero.mpr fun hmem => hne ⟨hmem, rfl⟩
    omega

theorem coherent_refundCrosschainTrx (hs : Coherent s) (h : refundCrosschainTrx env o s = .ok s') :
    Coherent s' := by
  obtain ⟨r, w, hr, hst, hchecked, hcancel⟩ := refundCrosschainTrx_eq_ok h
  exact coherent_canceled hs hr (.inl rfl) hr hchecked (by simp [hst]) (by simp [hst]) hcancel

theorem Coherent.follower_of_checked {id : TrxId} (hs : Coherent s) (hr : s.find id = some r)
    (hU : s.find r.relateTransactionId = some U) (hchecked : Checked s U w) :
    r.opType.kind = .follower :=
  hs.batches.follower_of_relate (State.view_of_find hU)
    (OpType.kind_batch.mpr (hs.checked hU hchecked).1) (State.view_of_find hr) rfl

theorem coherent_cancelCombineTrx (hs : Coherent s) (h : cancelCombineTrx env o s = .ok s') :
    Coherent s' := by
  obtain ⟨r, U, w, hr, hst, hU, hchecked, hcancel⟩ := cancelCombineTrx_eq_ok h
  have hUst := (hs.batch_of_busy hr (hs.follower_of_checked hr hU hchecked) (by simp [hst, Busy])
    hU).2
  exact coherent_canceled hs hr (.inr rfl) hU hchecked (by simp [hUst, hst]) (by simp [hUst, hst])
    hcancel

theorem coherent_ethCancelFailCrosschainTrx (hs : Coherent s)
    (h : ethCancelFailCrosschainTrx env o s = .ok s') : Coherent s' := by
  obtain ⟨r, U, w, hr, hst, -, hU, hchecked, hcancel⟩ := ethCancelFailCrosschainTrx_eq_ok h
  have hUst := (hs.batch_of_busy hr (hs.follower_of_checked hr hU hchecked) (by simp [hst, Busy])
    hU).2
  exact coherent_canceled hs hr (.inr rfl) hU hchecked (by simp [hUst, hst]) (by simp [hUst, hst])
    hcancel

theorem coherent_refundBalance {o : RefundBalanceOp} (hs : Coherent s)
    (h : refundBalance env o s = .ok s') : Coherent s' := by
  obtain ⟨r, hr⟩ := refundBalance_eq_ok h
  refine hs.refundOne hr.find hr.uncreate hr.rewrites (fun r => ?_) (fun id hc => ?_) (fun id => ?_)
  · rw [Record.trxState_setState]
    simp only [decide_eq_true_eq]
  · rw [hr.history] at hc
    simpa using hc
  · rw [hr.history, refunds_cons_refunded]

/-! ### A batch is sent back -/

theorem coherent_ethsCancelUnsignedTransaction (hs : Coherent s)
    (h : ethsCancelUnsignedTransaction env o s = .ok s') : Coherent s' := by
  obtain ⟨t, r, U, w, hb, rfl⟩ := ethsCancelUnsignedTransaction_eq_ok h
  obtain ⟨ht, hlist⟩ := hs.checked hb.findBatch hb.checked
  have hlisted : U.item.listed = w.ccwTrxIds := hlist
  have hk := hs.follower_of_checked hb.find hb.findBatch hb.checked
  have hUst := (hs.batch_of_busy hb.find hk (by simp [hb.state, Busy]) hb.findBatch).2
  have hmoved : Coherent t := by
    refine hs.moveBatch hb.rewrites hb.findBatch ht (by simp [hUst, hb.state])
      (by simp [hUst, hb.state])
      (show TrxState.withoutSignTrxCreate ≠ .withoutSignTrxUncreate by decide)
      (fun id n => if id = r.relateTransactionId ∨ id ∈ w.ccwTrxIds then .withoutSignTrxCreate
        else if n.relate = r.relateTransactionId then .signTrx else n.state)
      (trxState_recombineChange _ _) ⟨?_, ?_, ?_⟩ (fun id hc => .inl (hb.history ▸ hc))
      (by simp [hb.history])
    · exact fun id n _ hin => if_pos (hlisted ▸ hin)
    · intro id n hn hfollower hrel
      -- what follows the batch is not listed by it
      rw [if_neg, if_pos hrel]
      · exact ⟨nofun, fun hbusy => by simp [rules, Busy] at hbusy⟩
      · rintro (rfl | hin)
        · obtain rfl := Option.mem_unique hn (State.view_of_find hb.findBatch)
          rw [show U.item.kind = _ from OpType.kind_batch.mpr ht] at hfollower
          cases hfollower
        · have := hs.batches.kind_of_listed (State.view_of_find hb.findBatch)
            (OpType.kind_batch.mpr ht) (hlisted.symm ▸ hin) hn
          rw [hfollower] at this
          cases this
    · intro id n _ hapart
      rw [if_neg, if_neg hapart.relate_ne]
      rintro (hu | hin)
      exacts [hapart.ne hu, hapart.not_listed (hlisted.symm ▸ hin)]
  refine hmoved.remove (by rw [hb.rewrites.find_same]; exact congrArg _ hb.find)
    (by rw [hb.rewrites.frame.opType]; exact hk) ?_
  rw [trxState_recombineChange]
  split_ifs <;> simp [hb.state]

/-! ### Runs -/

/-- **Every accepted tidy operation keeps the records coherent.** -/
theorem coherent_applyOperation (hready : Ready trx op s) (hs : Coherent s)
    (htidy : AboveForks env ∧ Tidy op s) (h : applyOperation env trx op s = .ok s') :
    Coherent s' := by
  obtain ⟨hfork, htidy⟩ := htidy
  cases op with
  | accountBind o =>
    obtain ⟨b, rfl⟩ := accountBind_eq_ok h
    exact hs.of_records rfl rfl
  | accountUnbind o =>
    obtain ⟨b, rfl⟩ := accountUnbind_eq_ok h
    exact hs.of_records rfl rfl
  | record o =>
    obtain ⟨_, _, _, hr⟩ := record_eq_ok h
    exact hs.of_records hr.records hr.history
  | withdraw o => exact coherent_withdraw hready hs h
  | withoutSign o => exact coherent_withoutSign hready hfork htidy hs h
  | withSign o => exact coherent_withSign hready hs h
  | combineSign o => exact coherent_combineSign hready hfork htidy hs h
  | withdrawResult t => exact coherent_withdrawResult htidy hs h
  | ethSignFinal o =>
    obtain ⟨signed, c, U, -, hc, hsigned⟩ := ethSignFinal_eq_ok h
    exact coherent_ethSigned hready rfl (.inl rfl) hs hc (htidy c hsigned.findCombine) hsigned
  | ethChangeSigner o =>
    obtain ⟨signed, c, U, -, hc, hst, hsigned⟩ := ethChangeSigner_eq_ok h
    exact coherent_ethSigned hready rfl (.inr rfl) hs hc (.inl hst) hsigned
  | refundBalance o => exact coherent_refundBalance hs h
  | refundCrosschainTrx o => exact coherent_refundCrosschainTrx hs h
  | cancelCombineTrx o => exact coherent_cancelCombineTrx hs h
  | passSuccessTrx o => exact coherent_passSuccessTrx hs h
  | ethCancelFailCrosschainTrx o => exact coherent_ethCancelFailCrosschainTrx hs h
  | ethsCancelUnsignedTransaction o => exact coherent_ethsCancelUnsignedTransaction hs h
  | coldhot o =>
    obtain ⟨hrecords, hhistory, -⟩ := Coldhot.apply_frame h
    exact hs.of_records hrecords hhistory
  | other =>
    obtain rfl := Except.ok.inj h
    exact hs

/-! ### Two untidy runs -/

/-- The account 7 withdraws two bitcoins. -/
def twoBitcoins : Transaction :=
  ⟨1, [.withdraw (bitcoinWithdrawal "2")], [7], by decide⟩

/-- A batch of the given withdrawals. -/
def bitcoinBatch (ids : List TrxId) : Transaction :=
  ⟨2, [.withoutSign ⟨ids, "source", "BTC", 1, 0⟩], [], by decide⟩

/-- A wallfacer cancels the batch. -/
def refundBatch : Transaction :=
  ⟨5, [.refundCrosschainTrx ⟨3, 3, 2⟩], [], by decide⟩

/-- A combined signature that names the batch in the place of a signature, and the report of its
payment. -/
def combineBatch : Transaction :=
  ⟨3, [.combineSign ⟨[], [2], "BTC", "external"⟩], [], by decide⟩

def reportPaid : Transaction :=
  ⟨4, [.withdrawResult ⟨"external", "", "", "2", "BTC"⟩], [], by decide⟩

end Whitecoin.Crosschain
