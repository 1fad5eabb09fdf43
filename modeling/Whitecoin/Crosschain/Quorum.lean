import Mathlib.Data.List.Perm.Subperm
import Whitecoin.Crosschain.Backing

/-!
# The quorum behind a payout

A batch is paid when its signatures are combined. The wallfacers of the paying account sign one by
one, and more than two thirds of them should have signed before. The evaluators do not see to it.

* The evaluator of the combined signature looks at the first of the signatures it names, and only to
  find the batch. The number of signatures is counted by the code with which a miner *makes* a
  combined signature, and by nobody who receives one.
* A signature names its signer twice: `sign_wallfacer` is compared with the earlier signatures of the
  batch, `wallfacer_address` is looked up among the wallfacers of the paying account. The two need
  not be the same, so that one wallfacer can sign in the names of all.
* The paying account is read from the external transaction that comes with the signature, which need
  not be the one of the batch; and without a handle nothing is looked up at all.

If the signatures say who made them and the combined signature names enough of them, there is a
quorum. What the evaluator does contribute is that no wallfacer is counted twice (`Signed.nodup`): a
signature is refused if an earlier one of the batch names the same wallfacer, and for that the
records of the earlier signatures must still be there and show it.
-/

namespace Whitecoin.Crosschain

open Check Ledger

variable {env : Env} {trx : Transaction} {op : Operation} {s s' : State} {batch : TrxId}
  {done : List Operation}

/-! ### The first two states -/

/-- A record comes into the first state never, and into the second only as a withdrawal that is in
no batch, or if its transaction begins with a withdrawal or a without-sign operation. -/
structure Reopens (r r' : Record) : Prop where
  uncreate : r'.trxState = .withoutSignTrxUncreate → r.trxState = .withoutSignTrxUncreate
  create : r'.trxState = .withoutSignTrxCreate →
    (r.trxState = .withoutSignTrxCreate ∨ r.trxState = .withoutSignTrxUncreate) ∨
    (∃ w, r.realTransaction.withoutSignOp = some w) ∨ ∃ w, r.realTransaction.withdrawOp = some w

theorem Reopens.refl (r : Record) : Reopens r r := ⟨id, fun h => .inl (.inl h)⟩

variable {r r' : Record} {f : Record → Record} {new : List Record} {id : TrxId} {o : WithSignOp}
  {g : Guard}

theorem Reopens.of_ite {p : Prop} [Decidable p] {st : TrxState}
    (h : r'.trxState = if p then st else r.trxState) (hst : st ≠ .withoutSignTrxUncreate)
    (hst' : st ≠ .withoutSignTrxCreate) : Reopens r r' := by
  constructor <;> intro hr' <;> rw [h] at hr' <;> split at hr'
  · exact absurd hr' hst
  · exact hr'
  · exact absurd hr' hst'
  · exact .inl (.inl hr')

theorem Rewrites.find_old (h : Rewrites f new s s') (hr : s.find id = some r) :
    s'.find id = some (f r) := by
  have hmap : (s.records.map f).find? (·.transactionId = id) = some (f r) :=
    (Table.find_map h.frame.transactionId s.records id).trans (congrArg _ hr)
  rw [State.find, h.records, List.find?_append, hmap, Option.some_or]

theorem applyOperation_reopens (hfork : AboveForks env) (h : applyOperation env trx op s = .ok s')
    (hr : s.find id = some r) (hr' : s'.find id = some r') : Reopens r r' := by
  have hsame : s'.records = s.records → Reopens r r' := by
    intro heq
    rw [State.find_congr heq, hr] at hr'
    exact Option.some.inj hr' ▸ .refl r
  have hold : ∀ {f : Record → Record} {new : List Record} {t : State}, Rewrites f new t s' →
      t.find id = some r → r' = f r := fun hrewrites ht =>
    Option.mem_unique hr' (hrewrites.find_old ht)
  cases op with
  | accountBind o =>
    obtain ⟨b, rfl⟩ := accountBind_eq_ok h
    exact hsame rfl
  | accountUnbind o =>
    obtain ⟨b, rfl⟩ := accountUnbind_eq_ok h
    exact hsame rfl
  | record o =>
    obtain ⟨_, _, _, hr⟩ := record_eq_ok h
    exact hsame hr.records
  | withdraw o =>
    obtain ⟨_, _, hw⟩ := withdraw_eq_ok h
    exact hold hw.rewrites hr ▸ .refl r
  | withoutSign o =>
    obtain ⟨first, hw⟩ := withoutSign_eq_ok h
    obtain rfl := hold hw.rewrites hr
    have hst : (setFee trx.id o.crosschainFee (Record.setState
        (fun r => r.transactionId ∈ o.ccwTrxIds) .withoutSignTrxCreate r)).trxState =
        if r.transactionId ∈ o.ccwTrxIds then .withoutSignTrxCreate else r.trxState := by
      rw [trxState_setFee, Record.trxState_setState]
      simp only [decide_eq_true_eq]
    constructor <;> intro hr' <;> rw [Function.comp_apply, hst] at hr' <;> split at hr'
    · cases hr'
    · exact hr'
    · -- a listed withdrawal was in the first state
      next hlisted =>
      obtain ⟨x, hx, huncreate⟩ := hw.uncreate _ hlisted
      rw [State.transactionId_of_find hr] at hx
      obtain rfl := Option.mem_unique hr hx
      exact .inl (.inr (huncreate (Nat.le_of_lt hfork.1)))
    · exact .inl (.inl hr')
  | withSign o => exact hold (withSign_eq_ok h).2.1 hr ▸ .refl r
  | combineSign o =>
    obtain ⟨batch, U, o', hc⟩ := combineSign_eq_ok h
    obtain rfl := hold hc.rewrites hr
    exact .of_ite (trxState_combineChange _ _ _ r) (combinedState_ne_uncreate _)
      (by unfold combinedState; split <;> decide)
  | withdrawResult t =>
    obtain ⟨c, U, hrep⟩ := withdrawResult_eq_ok h
    obtain rfl := hold hrep.rewrites hr
    exact .of_ite (trxState_confirmChange _ _ r) (by decide) (by decide)
  | ethSignFinal o =>
    obtain ⟨_, _, _, -, -, hs⟩ := ethSignFinal_eq_ok h
    obtain rfl := hold hs.rewrites hr
    exact .of_ite (trxState_ethSignChange _ _ _ _ r) (by decide) (by decide)
  | ethChangeSigner o =>
    obtain ⟨_, _, _, -, -, -, hs⟩ := ethChangeSigner_eq_ok h
    obtain rfl := hold hs.rewrites hr
    exact .of_ite (trxState_ethSignChange _ _ _ _ r) (by decide) (by decide)
  | refundBalance o =>
    obtain ⟨_, hb⟩ := refundBalance_eq_ok h
    obtain rfl := hold hb.rewrites hr
    exact .of_ite (Record.trxState_setState _ _ r) (by decide) (by decide)
  | refundCrosschainTrx o =>
    obtain ⟨_, _, -, -, -, hc⟩ := refundCrosschainTrx_eq_ok h
    obtain rfl := hold hc.rewrites hr
    exact .of_ite (trxState_closeChange _ _ _ _ r) (by decide) (by decide)
  | cancelCombineTrx o =>
    obtain ⟨_, _, _, -, -, -, -, hc⟩ := cancelCombineTrx_eq_ok h
    obtain rfl := hold hc.rewrites hr
    exact .of_ite (trxState_closeChange _ _ _ _ r) (by decide) (by decide)
  | passSuccessTrx o =>
    obtain ⟨_, _, _, hp⟩ := passSuccessTrx_eq_ok h
    obtain rfl := hold hp.rewrites hr
    exact .of_ite (trxState_closeChange _ _ _ _ r) (by decide) (by decide)
  | ethCancelFailCrosschainTrx o =>
    obtain ⟨_, _, _, -, -, -, -, -, hc⟩ := ethCancelFailCrosschainTrx_eq_ok h
    obtain rfl := hold hc.rewrites hr
    exact .of_ite (trxState_closeChange _ _ _ _ r) (by decide) (by decide)
  | ethsCancelUnsignedTransaction o =>
    obtain ⟨t, c, U, w, hb, rfl⟩ := ethsCancelUnsignedTransaction_eq_ok h
    rw [State.find_remove] at hr'
    split at hr'
    · cases hr'
    obtain rfl := Option.mem_unique hr' (hb.rewrites.find_old hr)
    constructor <;> intro hst <;> rw [trxState_recombineChange] at hst <;> split_ifs at hst with hin
    · exact hst
    · -- the batch and its withdrawals
      rw [State.transactionId_of_find hr] at hin
      rcases hin with rfl | hin
      · obtain rfl := Option.mem_unique hr hb.findBatch
        exact .inr (.inl ⟨w, hb.checked.first⟩)
      · obtain ⟨x, y, hx, hy⟩ := hb.checked.listed id hin
        obtain rfl := Option.mem_unique hr hx
        exact .inr (.inr ⟨y, hy⟩)
    · exact .inl (.inl hst)
  | coldhot o => exact hsame (Coldhot.apply_frame h).1
  | other =>
    obtain rfl := Except.ok.inj h
    exact hsame rfl

/-! ### The signatures of a batch -/

/-- The accepted signatures of a batch. -/
def signatures (done : List Operation) (batch : TrxId) : List WithSignOp :=
  done.filterMap fun
    | .withSign o => if o.ccwTrxId = batch then some o else none
    | _ => none

theorem signatures_append (done : List Operation) (op : Operation) (batch : TrxId) :
    signatures (done ++ [op]) batch = signatures done batch ++ signatures [op] batch :=
  List.filterMap_append

/-- The records of the signatures of a batch. -/
def State.signRecords (s : State) (batch : TrxId) : List Record :=
  s.records.filter fun r => r.opType = .withSign ∧ r.relateTransactionId = batch

theorem State.mem_signRecords : r ∈ s.signRecords batch ↔
    r ∈ s.records ∧ r.opType = .withSign ∧ r.relateTransactionId = batch := by
  simp [State.signRecords]

theorem Rewrites.signRecords (h : Rewrites f new s s') (batch : TrxId) :
    s'.signRecords batch = (s.signRecords batch).map f ++
      new.filter fun r => r.opType = .withSign ∧ r.relateTransactionId = batch := by
  rw [State.signRecords, h.records, List.filter_append, List.filter_map]
  congr 2
  refine List.filter_congr fun r _ => ?_
  rw [Function.comp_apply, h.frame.opType, h.frame.relate]

/-- The type of a record is the one of the first operation of its transaction, if that one leaves a
record; and a signature is in neither of the first two states. -/
structure Typed (s : State) : Prop where
  indexed : s.Indexed
  typed : ∀ {id r t}, s.find id = some r →
    r.realTransaction.operations.head?.bind Operation.opType = some t → r.opType = t
  signed : ∀ {id r}, s.find id = some r → r.opType = .withSign →
    r.trxState ≠ .withoutSignTrxUncreate ∧ r.trxState ≠ .withoutSignTrxCreate

theorem typed_applyOperation (hready : Ready trx op s) (hs : Typed s) (hfork : AboveForks env)
    (h : applyOperation env trx op s = .ok s') : Typed s' := by
  have hw := applyOperation_writes h
  refine ⟨hw.indexed hs.indexed, fun hr' ht => ?_, fun {id r'} hr' hsign => ?_⟩
  · rcases hw.find_cases hr' with ⟨f, r, hf, hr, rfl⟩ | ⟨hnone, rfl, rfl, hop⟩
    · rw [hf.realTransaction] at ht
      exact (hf.opType r).trans (hs.typed hr ht)
    · rw [hready.head hnone ht, Option.bind_some, hop] at ht
      exact Option.some.inj ht
  · rcases hw.find_cases hr' with ⟨f, r, hf, hr, heq⟩ | ⟨-, rfl, -, hop⟩
    · have hreopens := applyOperation_reopens hfork h hr hr'
      have hsign' : r.opType = .withSign := by rw [← hf.opType r, ← heq, hsign]
      obtain ⟨huncreate, hcreate⟩ := hs.signed hr hsign'
      refine ⟨fun hst => huncreate (hreopens.uncreate hst), fun hst => ?_⟩
      -- the transaction of a signature begins with no withdrawal and no without-sign operation
      rcases hreopens.create hst with (hst | hst) | ⟨w, hfirst⟩ | ⟨w, hfirst⟩
      · exact hcreate hst
      · exact huncreate hst
      · rw [Transaction.withoutSignOp_eq_some] at hfirst
        exact absurd ((hs.typed hr (by rw [hfirst]; rfl)).symm.trans hsign') (by decide)
      · rw [Transaction.withdrawOp_eq_some] at hfirst
        exact absurd ((hs.typed hr (by rw [hfirst]; rfl)).symm.trans hsign') (by decide)
    · -- the new record of a signature
      rw [hsign] at hop
      cases op with
      | withSign o =>
        rw [(withSign_eq_ok h).2.1.find_new] at hr'
        replace hr' := (if_pos rfl).symm.trans hr'
        obtain rfl := Option.some.inj hr'
        exact ⟨nofun, nofun⟩
      | _ => cases hop

/-! ### The guard of the paying account -/

/-- `miner_count * 2 / 3 + 1`, as the miners count it. -/
def quorum (n : ℕ) : ℕ := 2 * n / 3 + 1

/-- The wallfacers that guard the account an external transaction is paid from. -/
structure Guard where
  /-- The external transaction and the chain it is for. -/
  source : String
  symbol : String
  payer : String
  members : List AccountId
  accountOf : Address → Option AccountId
  accountOfWallfacer : WallfacerId → Option AccountId
  injective : ∀ {w w' a}, accountOfWallfacer w = some a → accountOfWallfacer w' = some a → w = w'

namespace Guard

variable (g : Guard)

/-- The environment shows this guard. -/
structure Agrees (env : Env) : Prop where
  members : (env.multiAccountWallfacers g.payer g.symbol).map (·.wallfacerAccount) = g.members
  account : ∀ {addr a}, env.accountByAddress addr = some a → g.accountOf addr = some a
  wallfacer : ∀ {w x}, env.wallfacer w = some x → g.accountOfWallfacer w = some x.memberAccount
  payer : ∀ {hdl o}, env.handle g.symbol = some hdl → o.assetSymbol = g.symbol →
    o.withdrawSourceTrx = g.source → fromAccount hdl o = .ok g.payer

/-- The member of the guard that made a signature, by its address. -/
def signer (o : WithSignOp) : Option AccountId :=
  (g.accountOf o.wallfacerAddress).filter (· ∈ g.members)

/-- More than two thirds of the guard signed the batch. -/
def HasQuorum (done : List Operation) (batch : TrxId) : Prop :=
  quorum g.members.length ≤ ((signatures done batch).filterMap g.signer).dedup.length

instance (done : List Operation) (batch : TrxId) : Decidable (g.HasQuorum done batch) :=
  inferInstanceAs (Decidable (_ ≤ _))

/-- What the evaluator does not check of a signature of the batch: it comes with the external
transaction of the batch, and the wallfacer that it names has the address that it names. What it
checks on some nodes only is the signature itself. -/
def SignsProperly (batch : TrxId) (env : Env) : Operation → Prop
  | .withSign o => o.ccwTrxId = batch →
      o.assetSymbol = g.symbol ∧ o.withdrawSourceTrx = g.source ∧
      (∃ x, env.wallfacer o.signWallfacer = some x ∧
        env.accountByAddress o.wallfacerAddress = some x.memberAccount) ∧
      (env.handle g.symbol).isSome ∧ env.late = false
  | _ => True

/-- A combined signature is for a batch with the external transaction of the guard, and names the
records of enough of its signatures. -/
structure Combines (o : CombineSignOp) (s : State) (batch : TrxId) : Prop where
  named : ∃ first r, o.signedTrxIds.head? = some first ∧ s.find first = some r ∧
    r.relateTransactionId = batch
  paid : ∃ r w, s.find batch = some r ∧ r.realTransaction.withoutSignOp = some w ∧
    w.withdrawSourceTrx = g.source ∧ w.assetSymbol = g.symbol
  enough : quorum g.members.length ≤
    (o.signedTrxIds.dedup.filter (· ∈ (s.signRecords batch).map (·.transactionId))).length

end Guard

/-! ### What the evaluator of a signature checks -/

theorem signedBy_eq_ok {related : List Record} {signs : List WallfacerId}
    (h : signedBy related = .ok signs) (hr : r ∈ related) (hst : r.trxState ≠ .withoutSignTrxCreate)
    :
    ∃ o, r.realTransaction.withSignOp = some o ∧ o.signWallfacer ∈ signs := by
  obtain ⟨before, after, rfl⟩ := List.append_of_mem hr
  simp only [signedBy, List.foldlM_append, List.foldlM_cons, bind_eq_ok, require_eq_ok,
    exists_and_left, exists_const] at h
  obtain ⟨_, -, _, ⟨hopen, hsign⟩, hafter⟩ := h
  rw [if_pos (hopen.resolve_left hst)] at hsign
  simp only [bind_eq_ok, found_eq_ok, pure_eq_ok] at hsign
  obtain ⟨o, ho, rfl⟩ := hsign
  -- what is collected stays collected
  refine ⟨o, ho, foldlM_induction (P := (o.signWallfacer ∈ ·)) List.mem_cons_self
    (fun signs _ r _ hs hstep => ?_) hafter⟩
  simp only [bind_eq_ok, require_eq_ok, exists_and_left, exists_const] at hstep
  obtain ⟨-, hstep⟩ := hstep
  split at hstep
  · simp only [bind_eq_ok, found_eq_ok, pure_eq_ok] at hstep
    obtain ⟨_, -, rfl⟩ := hstep
    exact List.mem_cons_of_mem _ hs
  · rw [pure_eq_ok] at hstep
    exact hstep ▸ hs

/-- The wallfacer that a signature names has signed in none of the records of the batch. -/
theorem evaluateWithSign_fresh (h : evaluateWithSign env trx o s = .ok ()) :
    ∀ r ∈ s.related o.ccwTrxId, r.trxState ≠ .withoutSignTrxCreate →
      ∃ o', r.realTransaction.withSignOp = some o' ∧ o'.signWallfacer ≠ o.signWallfacer := by
  simp only [evaluateWithSign, bind_eq_ok, found_eq_ok, require_eq_ok, exists_and_left,
    exists_const] at h
  obtain ⟨_, -, -, signs, hsigns, hnot, -⟩ := h
  intro r hr hcreate
  obtain ⟨o', ho', hmem⟩ := signedBy_eq_ok hsigns hr hcreate
  exact ⟨o', ho', fun heq => hnot (heq ▸ hmem)⟩

/-- With a handle, the address that a signature names is the one of a wallfacer of the account that
its external transaction is paid from. -/
theorem evaluateWithSign_validated {hdl : Handle} {payer : String} {account : AccountId}
    (h : evaluateWithSign env trx o s = .ok ()) (hhdl : env.handle o.assetSymbol = some hdl)
    (hlate : env.late = false) (hpayer : fromAccount hdl o = .ok payer)
    (haccount : env.accountByAddress o.wallfacerAddress = some account) :
    ∃ member ∈ env.multiAccountWallfacers payer o.assetSymbol, member.wallfacerAccount = account := by
  simp only [evaluateWithSign, bind_eq_ok, found_eq_ok, require_eq_ok, exists_and_left,
    exists_const, hhdl, hlate] at h
  obtain ⟨_, -, -, _, -, -, h⟩ := h
  simp only [validateSign, bind_eq_ok, found_eq_ok, require_eq_ok, exists_and_left, exists_const,
    Bool.false_eq_true, if_false] at h
  obtain ⟨payer', hpayer', -, account', haccount', member, hmember, -⟩ := h
  obtain rfl := Except.ok.inj (hpayer.symm.trans hpayer')
  obtain rfl := Option.mem_unique haccount haccount'
  exact ⟨member, List.mem_of_find?_eq_some hmember, by simpa using List.find?_some hmember⟩

theorem evaluateWithSign_member (hg : g.Agrees env)
    (hproper : g.SignsProperly batch env (.withSign o)) (hbatch : o.ccwTrxId = batch)
    (h : evaluateWithSign env trx o s = .ok ()) :
    ∃ a, g.signer o = some a ∧ g.accountOfWallfacer o.signWallfacer = some a := by
  obtain ⟨hsymbol, hsource, ⟨x, hx, haddr⟩, hhandle, hlate⟩ := hproper hbatch
  obtain ⟨hdl, hhdl⟩ := Option.isSome_iff_exists.mp hhandle
  obtain ⟨member, hmember, haccount⟩ := evaluateWithSign_validated h (by rwa [hsymbol]) hlate
    (hg.payer hhdl hsymbol hsource) haddr
  have hmem : x.memberAccount ∈ g.members := by
    rw [← hg.members, ← haccount, ← hsymbol]
    exact List.mem_map_of_mem hmember
  refine ⟨x.memberAccount, ?_, hg.wallfacer hx⟩
  simp [Guard.signer, hg.account haddr, hmem]

/-! ### The signatures and their records -/

/-- Every accepted signature of the batch has a record that still shows it, each wallfacer signed
once, and all of them are of the guard. -/
structure Signed (g : Guard) (batch : TrxId) (done : List Operation) (s : State) : Prop where
  count : (s.signRecords batch).length = (signatures done batch).length
  recorded : ∀ o ∈ signatures done batch, ∃ r ∈ s.signRecords batch,
    ∀ o', r.realTransaction.withSignOp = some o' → o' = o
  nodup : ((signatures done batch).map (·.signWallfacer)).Nodup
  member : ∀ o ∈ signatures done batch,
    ∃ a, g.signer o = some a ∧ g.accountOfWallfacer o.signWallfacer = some a

/-- An operation that is no signature of the batch rewrites the records of its signatures. -/
theorem Signed.rewrite (hs : Signed g batch done s) (hf : Record.Frame f)
    (hrecords : s'.signRecords batch = (s.signRecords batch).map f)
    (hnone : signatures [op] batch = []) : Signed g batch (done ++ [op]) s' := by
  obtain ⟨hcount, hrecorded, hnodup, hmember⟩ := hs
  have hsame : signatures (done ++ [op]) batch = signatures done batch := by
    rw [signatures_append, hnone, List.append_nil]
  rw [← hsame] at hcount hrecorded hnodup hmember
  refine ⟨by rw [hrecords, List.length_map, hcount], fun o ho => ?_, hnodup, hmember⟩
  obtain ⟨r, hr, hshows⟩ := hrecorded o ho
  refine ⟨f r, hrecords ▸ List.mem_map_of_mem hr, fun o' ho' => hshows o' ?_⟩
  rwa [hf.realTransaction] at ho'

/-- A further signature of the batch, by a member of the guard that has not signed yet. -/
theorem Signed.sign (hs : Signed g batch done s) (hbatch : o.ccwTrxId = batch)
    (hrecords : s'.signRecords batch = s.signRecords batch ++ [withSignRecord trx batch])
    (hshows : ∀ o', trx.withSignOp = some o' → o' = o)
    (hnew : ∀ o' ∈ signatures done batch, o'.signWallfacer ≠ o.signWallfacer)
    (hmember : ∃ a, g.signer o = some a ∧ g.accountOfWallfacer o.signWallfacer = some a) :
    Signed g batch (done ++ [.withSign o]) s' := by
  have happend : signatures (done ++ [.withSign o]) batch = signatures done batch ++ [o] := by
    simp [signatures, hbatch]
  constructor <;> rw [happend]
  · rw [hrecords, List.length_append, List.length_append, hs.count]
    rfl
  · intro o' ho'
    rw [hrecords]
    rcases List.mem_append.mp ho' with ho' | ho'
    · obtain ⟨r, hr, hshows⟩ := hs.recorded o' ho'
      exact ⟨r, List.mem_append_left _ hr, hshows⟩
    · obtain rfl := List.mem_singleton.mp ho'
      exact ⟨_, List.mem_append_right _ (List.mem_singleton_self _), hshows⟩
  · rw [List.map_append, List.map_singleton, ← List.concat_eq_append, List.nodup_concat]
    exact ⟨by simpa using hnew, hs.nodup⟩
  · intro o' ho'
    rcases List.mem_append.mp ho' with ho' | ho'
    · exact hs.member o' ho'
    · exact List.mem_singleton.mp ho' ▸ hmember

theorem Writes.signRecords (h : Writes trx op s s') (hs : Typed s)
    (hop : op.opType ≠ some .withSign) :
    ∃ f, Record.Frame f ∧ s'.signRecords batch = (s.signRecords batch).map f := by
  cases h with
  | same f t _ ht _ hrewrites =>
    refine ⟨f, hrewrites.frame, ?_⟩
    rw [hrewrites.signRecords, State.signRecords, ht]
    exact List.append_nil _
  | left f r hr _ _ hrewrites =>
    refine ⟨f, hrewrites.frame, ?_⟩
    have htype : r.opType ≠ .withSign := fun htype => hop (htype ▸ hr)
    rw [hrewrites.signRecords, List.filter_singleton]
    simp [htype]
  | dropped f t x r _ hrewrites hs' hx _ hfirst =>
    -- the record that is dropped is the one of a combined signature
    have ht : t.signRecords batch = (s.signRecords batch).map f :=
      (hrewrites.signRecords batch).trans (List.append_nil _)
    refine ⟨f, hrewrites.frame, ?_⟩
    rw [hs', ← ht]
    have hkept : ∀ y ∈ t.signRecords batch, y.transactionId ≠ x := by
      rw [ht]
      rintro y hy rfl
      obtain ⟨r₀, hr₀, rfl⟩ := List.mem_map.mp hy
      obtain ⟨hmem, htype, -⟩ := State.mem_signRecords.mp hr₀
      rw [hrewrites.frame.transactionId, hs.indexed.find hmem] at hx
      obtain rfl := Option.some.inj hx
      obtain ⟨c, hc⟩ := hfirst
      rw [Transaction.combineSignOp_eq_some] at hc
      exact absurd ((hs.typed (hs.indexed.find hmem) (by rw [hc]; rfl)).symm.trans htype) (by decide)
    rw [State.signRecords, State.remove, List.filter_comm]
    exact List.filter_eq_self.mpr fun y hy => by simpa using hkept y hy

theorem signed_applyOperation (hready : Ready trx op s) (htyped : Typed s)
    (hs : Signed g batch done s) (hg : g.Agrees env) (hproper : g.SignsProperly batch env op)
    (h : applyOperation env trx op s = .ok s') : Signed g batch (done ++ [op]) s' := by
  by_cases hop : op.opType = some .withSign
  · cases op with
    | withSign o =>
      obtain ⟨heval, hrewrites, -⟩ := withSign_eq_ok h
      have hrecords := hrewrites.signRecords batch
      rw [List.map_id', List.filter_singleton] at hrecords
      by_cases hbatch : o.ccwTrxId = batch
      · refine hs.sign hbatch (by simpa [withSignRecord, hbatch] using hrecords) ?_ ?_
          (evaluateWithSign_member hg hproper hbatch heval)
        · -- the record of the signature shows it, if it shows a signature
          intro o' ho'
          rw [Transaction.withSignOp_eq_some] at ho'
          have hfresh : s.find trx.id = none := hrewrites.fresh _ (List.mem_singleton_self _)
          have hhead := hready.head hfresh (by rw [ho']; rfl)
          rw [ho'] at hhead
          injection Option.some.inj hhead
        · intro o' ho'
          obtain ⟨r, hr, hshows⟩ := hs.recorded o' ho'
          obtain ⟨hmem, htype, hrelate⟩ := State.mem_signRecords.mp hr
          have hst := (htyped.signed (htyped.indexed.find hmem) htype).2
          have hrelated : r ∈ s.related o.ccwTrxId := by
            simp [State.related, hmem, hrelate, hbatch]
          obtain ⟨o'', ho'', hne⟩ := evaluateWithSign_fresh heval r hrelated hst
          exact hshows o'' ho'' ▸ hne
      · refine hs.rewrite Record.frame_id ?_ (by simp [signatures, hbatch])
        rw [hrecords, List.map_id]
        simp [withSignRecord, hbatch]
    | _ => cases hop
  · obtain ⟨f, hf, hrecords⟩ := (applyOperation_writes h).signRecords htyped hop
    refine hs.rewrite hf hrecords ?_
    cases op with
    | withSign o => exact absurd rfl hop
    | _ => rfl

/-! ### The quorum -/

/-- The condition of the main theorem on the operations of a run. -/
def Guard.Keeps (g : Guard) (batch : TrxId) (env : Env) (op : Operation) : Prop :=
  AboveForks env ∧ g.Agrees env ∧ g.SignsProperly batch env op

theorem Reached.signed {s₀ : State} (hrecords : s₀.records = [])
    (h : Reached (fun env _ op _ => g.Keeps batch env op) s₀ done env trx op s) :
    Typed s ∧ Signed g batch done s := by
  refine (h.invariant (fun done s => Typed s ∧ Signed g batch done s) ?_ ⟨?_, ?_⟩).1
  · rintro env trx op done s s' hready ⟨htyped, hs⟩ ⟨hfork, hg, hproper⟩ hok
    exact ⟨typed_applyOperation hready htyped hfork hok,
      signed_applyOperation hready htyped hs hg hproper hok⟩
  · refine ⟨by simp [State.Indexed, hrecords], fun hr => ?_, fun hr => ?_⟩ <;>
      simp [State.find, hrecords] at hr
  · constructor <;> simp [State.signRecords, signatures, hrecords]

theorem Signed.length_signers (hs : Signed g batch done s) :
    ((signatures done batch).filterMap g.signer).dedup.length = (signatures done batch).length := by
  have hnodup : ((signatures done batch).filterMap g.signer).Nodup := by
    rw [List.Nodup, List.pairwise_filterMap]
    refine (List.pairwise_map.mp hs.nodup).imp_of_mem fun {o o'} ho ho' hne a ha a' ha' => ?_
    obtain ⟨_, h₁, hw⟩ := hs.member o ho
    obtain ⟨_, h₂, hw'⟩ := hs.member o' ho'
    obtain rfl := Option.mem_unique ha h₁
    obtain rfl := Option.mem_unique ha' h₂
    rintro rfl
    exact hne (g.injective hw hw')
  rw [hnodup.dedup, List.filterMap_length_eq_length]
  intro o ho
  obtain ⟨a, ha, -⟩ := hs.member o ho
  rw [ha, Option.isSome_some]

/-- **A quorum is behind a payout, if the signatures are proper and the combined signature names
enough of them.** -/
theorem combineSign_hasQuorum {g : Guard} {o : CombineSignOp} {s₀ : State}
    (hrecords : s₀.records = [])
    (hreached : Reached (fun env _ op _ => g.Keeps batch env op) s₀ done env trx (.combineSign o) s)
    (hcombines : g.Combines o s batch)
    (h : applyOperation env trx (.combineSign o) s = .ok s') :
    (∃ r, s'.find batch = some r ∧
      (r.trxState = .combineTrxCreate ∨ r.trxState = .ethWallfacerNeedSign)) ∧
    g.HasQuorum done batch := by
  constructor
  · obtain ⟨batch', u, o', hc⟩ := combineSign_eq_ok h
    obtain ⟨first, r, hfirst, hr, rfl⟩ := hcombines.named
    obtain ⟨first', r', hfirst', hr', rfl⟩ := hc.named
    obtain rfl := Option.mem_unique hfirst hfirst'
    obtain rfl := Option.mem_unique hr hr'
    refine ⟨_, hc.rewrites.find_old hc.findBatch, ?_⟩
    rw [trxState_combineChange, if_pos (.inl (State.transactionId_of_find hc.findBatch)),
      combinedState]
    split <;> simp
  · have hs := (hreached.signed hrecords).2
    -- the ids it names are the ids of records of signatures, which are as many as the signatures
    have hsub : o.signedTrxIds.dedup.filter (· ∈ (s.signRecords batch).map (·.transactionId)) ⊆
        (s.signRecords batch).map (·.transactionId) := by
      intro id hid
      simpa using (List.mem_filter.mp hid).2
    have hnodup := (List.nodup_dedup o.signedTrxIds).filter
      (· ∈ (s.signRecords batch).map (·.transactionId))
    calc quorum g.members.length
        ≤ (o.signedTrxIds.dedup.filter (· ∈ (s.signRecords batch).map (·.transactionId))).length :=
          hcombines.enough
      _ ≤ ((s.signRecords batch).map (·.transactionId)).length :=
        (List.Nodup.subperm hnodup hsub).length_le
      _ = (signatures done batch).length := by rw [List.length_map, hs.count]
      _ = ((signatures done batch).filterMap g.signer).dedup.length := hs.length_signers.symm

/-! ### A guarded account -/

/-- The wallfacers of every account are the given ones. -/
def guardedEnv (members : List AccountId) : Env :=
  { payingEnv (bitcoins "2") with
    multiAccountWallfacers := fun _ _ => members.map fun a => ⟨a, "", "", "", ""⟩ }

def guards (members : List AccountId) : Guard where
  source := "source"
  symbol := "BTC"
  payer := ""
  members := members
  accountOf := some
  accountOfWallfacer := some
  injective := by rintro w w' a ⟨⟩ ⟨⟩; rfl

/-- A signature of the batch, in the name of a wallfacer and from an address. -/
def signBatch (n : ℕ) (wallfacer : WallfacerId) (address : Address) : Transaction :=
  ⟨n + 3, [.withSign ⟨2, "source", wallfacer, "BTC", address, "signature"⟩], [], Nat.succ_ne_zero _⟩

def combineOp (ids : List TrxId) : CombineSignOp := ⟨[], ids, "BTC", "external"⟩

def combineSigned (ids : List TrxId) : Transaction :=
  ⟨9, [.combineSign (combineOp ids)], [], by decide⟩

/-- A withdrawal, its batch, and the signatures of the batch. -/
def signedSteps (members : List AccountId) (signers : List (WallfacerId × Address)) :
    List (Env × Transaction) :=
  (twoBitcoins :: bitcoinBatch [1] :: signers.mapIdx fun n x => signBatch n x.1 x.2).map
    fun trx => (guardedEnv members, trx)

theorem agrees_guardedEnv (members : List AccountId) :
    (guards members).Agrees (guardedEnv members) where
  members := (List.map_map ..).trans (List.map_id' members)
  account h := h
  wallfacer := by rintro w x ⟨⟩; rfl
  payer := by
    rintro hdl o ⟨⟩ hsymbol -
    have hplain : ¬ ethSeries "BTC" = true := by decide +kernel
    rw [fromAccount, hsymbol, guards, if_neg hplain]
    rfl

theorem combineSign_hasQuorum_one : ∃ s', applyOperation (guardedEnv [1]) (combineSigned [3])
      (.combineSign (combineOp [3])) (run tenBitcoins (signedSteps [1] [(1, 1)])) = .ok s' ∧
    (guards [1]).HasQuorum (accepted tenBitcoins (signedSteps [1] [(1, 1)])) 2 := by
  obtain ⟨s', h⟩ := exists_eq_ok (x := applyOperation (guardedEnv [1]) (combineSigned [3])
    (.combineSign (combineOp [3])) (run tenBitcoins (signedSteps [1] [(1, 1)]))) (by decide +kernel)
  have hforks : AboveForks (guardedEnv [1]) := by decide
  have hagrees := agrees_guardedEnv [1]
  refine ⟨s', h, (combineSign_hasQuorum rfl ⟨signedSteps [1] [(1, 1)], [], [], rfl, ?_, trivial, rfl,
    (List.append_nil _).symm⟩ ⟨?_, ?_, by decide +kernel⟩ h).2⟩
  · refine ⟨fun _ => ⟨⟨hforks, hagrees, trivial⟩, trivial⟩,
      fun _ => ⟨⟨hforks, hagrees, trivial⟩, trivial⟩,
      fun _ => ⟨⟨hforks, hagrees, fun _ => ⟨rfl, rfl, ⟨⟨true, 1⟩, rfl, rfl⟩, rfl, rfl⟩⟩, trivial⟩,
      trivial⟩
  · exact ⟨3, withSignRecord (signBatch 0 1 1) 2, rfl, by decide +kernel, rfl⟩
  · exact ⟨batchRecord (bitcoinBatch [1]) (batchOp [1]) 1, batchOp [1], by decide +kernel, rfl, rfl,
      rfl⟩

/-- **The signature of one of three wallfacers is enough, and so is one wallfacer that signs in the
names of all three.** -/
theorem combineSign_without_quorum :
    (((run tenBitcoins (signedSteps [1, 2, 3] [(1, 1)] ++
        [(guardedEnv [1, 2, 3], combineSigned [3])])).find 2).map (·.trxState) =
          some .combineTrxCreate ∧
      ¬ (guards [1, 2, 3]).HasQuorum
        (accepted tenBitcoins (signedSteps [1, 2, 3] [(1, 1)])) 2) ∧
    ((run tenBitcoins (signedSteps [1, 2, 3] [(1, 1), (2, 1), (3, 1)] ++
        [(guardedEnv [1, 2, 3], combineSigned [3, 4, 5])])).find 2).map (·.trxState) =
          some .combineTrxCreate ∧
      ¬ (guards [1, 2, 3]).HasQuorum
        (accepted tenBitcoins (signedSteps [1, 2, 3] [(1, 1), (2, 1), (3, 1)])) 2 := by
  refine ⟨⟨?_, ?_⟩, ?_, ?_⟩ <;> decide +kernel

end Whitecoin.Crosschain
