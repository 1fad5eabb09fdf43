import Whitecoin.Coldhot.Changes
import Whitecoin.Crosschain.Deposit
import Whitecoin.Crosschain.Rewrites

/-!
# Transactions and runs

A transaction is applied operation by operation, and leaves no trace if one of them is rejected. A
run is a list of submitted transactions, each with the environment in which it met the chain.

A record is found under the id of its transaction, and the evaluators read the operation it stands
for as the *first* operation of that transaction. A transaction may hold several operations, so the
record could have come from another one. It did not: the id of the transaction is taken as soon as
its first operation has left a record, and a second one is refused. That is carried along a
transaction as `Ready`, and every invariant of runs may use it.
-/

namespace Whitecoin.Crosschain

open Check Ledger

/-! ### One operation -/

def applyOperation (env : Env) (trx : Transaction) (op : Operation) (s : State) :
    Except String State :=
  match op with
  | .accountBind o => accountBind env o s
  | .accountUnbind o => accountUnbind env o s
  | .record o => record env o s
  | .withdraw o => withdraw env trx o s
  | .withoutSign o => withoutSign env trx o s
  | .withSign o => withSign env trx o s
  | .combineSign o => combineSign env trx o s
  | .withdrawResult t => withdrawResult env t s
  | .ethSignFinal o => ethSignFinal env trx o s
  | .ethChangeSigner o => ethChangeSigner env trx o s
  | .refundBalance o => refundBalance env o s
  | .refundCrosschainTrx o => refundCrosschainTrx env o s
  | .cancelCombineTrx o => cancelCombineTrx env o s
  | .passSuccessTrx o => passSuccessTrx env o s
  | .ethCancelFailCrosschainTrx o => ethCancelFailCrosschainTrx env o s
  | .ethsCancelUnsignedTransaction o => ethsCancelUnsignedTransaction env o s
  | .coldhot o => Coldhot.apply env trx o s
  | .other => .ok s

/-- The operations of a transaction, one after the other. -/
def applyOperations (env : Env) (trx : Transaction) (ops : List Operation) (s : State) :
    Except String State :=
  ops.foldlM (fun s op => applyOperation env trx op s) s

def applyTransaction (env : Env) (trx : Transaction) (s : State) : Except String State :=
  applyOperations env trx trx.operations s

/-- A rejected transaction leaves no trace. -/
def submit (env : Env) (trx : Transaction) (s : State) : State :=
  attempted s (applyTransaction env trx s)

def run (s : State) (steps : List (Env × Transaction)) : State :=
  steps.foldl (fun s step => submit step.1 step.2 s) s

/-- The operations of the accepted transactions. -/
def accepted (s : State) : List (Env × Transaction) → List Operation
  | [] => []
  | (env, trx) :: steps =>
    (if (applyTransaction env trx s).isOk then trx.operations else []) ++
      accepted (submit env trx s) steps

/-! ### Conditions along a run -/

section Along

variable (P : Env → Transaction → Operation → State → Prop)

/-- The condition holds of each of the operations in the state in which it is applied. -/
def AlongOperations (env : Env) (trx : Transaction) : List Operation → State → Prop
  | [], _ => True
  | op :: ops, s => P env trx op s ∧
      AlongOperations env trx ops (attempted s (applyOperation env trx op s))

/-- The condition holds of each operation of each accepted transaction of the run. -/
def Along : List (Env × Transaction) → State → Prop
  | [], _ => True
  | (env, trx) :: steps, s =>
      ((applyTransaction env trx s).isOk = true → AlongOperations P env trx trx.operations s) ∧
        Along steps (submit env trx s)

/-- After a run and the first operations of a further transaction, the chain is in the state `s`,
the operations `done` were accepted, and the next operation is `op`. -/
def Reached (s₀ : State) (done : List Operation) (env : Env) (trx : Transaction) (op : Operation)
    (s : State) : Prop :=
  ∃ steps ops rest, trx.operations = ops ++ op :: rest ∧ Along P steps s₀ ∧
    AlongOperations P env trx ops (run s₀ steps) ∧
    applyOperations env trx ops (run s₀ steps) = .ok s ∧ done = accepted s₀ steps ++ ops

variable {P} in
theorem AlongOperations.of_forall (hP : ∀ env trx op s, P env trx op s) (env : Env)
    (trx : Transaction) (ops : List Operation) (s : State) : AlongOperations P env trx ops s := by
  induction ops generalizing s with
  | nil => trivial
  | cons op ops ih => exact ⟨hP env trx op s, ih _⟩

variable {P} in
theorem Along.of_forall (hP : ∀ env trx op s, P env trx op s) (steps : List (Env × Transaction))
    (s : State) : Along P steps s := by
  induction steps generalizing s with
  | nil => trivial
  | cons step steps ih => exact ⟨fun _ => .of_forall hP _ _ _ _, ih _⟩

instance decidableAlongOperations [∀ env trx op s, Decidable (P env trx op s)] (env : Env)
    (trx : Transaction) :
    (ops : List Operation) → (s : State) → Decidable (AlongOperations P env trx ops s)
  | [], _ => .isTrue trivial
  | op :: ops, s =>
    have := decidableAlongOperations env trx ops (attempted s (applyOperation env trx op s))
    inferInstanceAs (Decidable (P env trx op s ∧ _))

instance decidableAlong [∀ env trx op s, Decidable (P env trx op s)] :
    (steps : List (Env × Transaction)) → (s : State) → Decidable (Along P steps s)
  | [], _ => .isTrue trivial
  | (env, trx) :: steps, s =>
    have := decidableAlong steps (submit env trx s)
    inferInstanceAs (Decidable (_ ∧ _))

end Along

/-! ### What an operation does to the records -/

variable {env : Env} {trx : Transaction} {op : Operation} {s s' : State}

/-- What an accepted operation does to the records: it rewrites them, it leaves the record of its
transaction besides, or it drops one that stands for a whole transaction. -/
inductive Writes (trx : Transaction) (op : Operation) (s s' : State) : Prop
  | same (f : Record → Record) (t : State) (hop : op.opType = none) (ht : t.records = s.records)
      (htransfers : (∀ o, op ≠ .coldhot o) → t.transfers = s.transfers)
      (hrewrites : Rewrites f [] t s')
  | left (f : Record → Record) (r : Record) (hop : op.opType = some r.opType)
      (hid : r.transactionId = trx.id) (htrx : r.realTransaction = trx)
      (hrewrites : Rewrites f [r] s s')
  | dropped (f : Record → Record) (t : State) (x : TrxId) (r : Record) (hop : op.opType = none)
      (hrewrites : Rewrites f [] s t) (hs' : s' = t.remove x) (hx : s.find x = some r)
      (hsingle : r.realTransaction.operations.length = 1)
      (hfirst : ∃ c, r.realTransaction.combineSignOp = some c)

theorem Writes.of_rewrites {f : Record → Record} (hop : op.opType = none)
    (h : Rewrites f [] s s') : Writes trx op s s' :=
  .same f s hop rfl (fun _ => rfl) h

theorem Writes.of_records (hop : op.opType = none) (h : s'.records = s.records)
    (htransfers : (∀ o, op ≠ .coldhot o) → s'.transfers = s.transfers) : Writes trx op s s' :=
  .same (fun r => r) s' hop h htransfers (.refl rfl rfl rfl)

theorem accountBind_eq_ok {o : AccountBindOp} (h : accountBind env o s = .ok s') :
    ∃ b, s' = { s with bindings := b } := by
  simp only [accountBind, bind_eq_ok, require_eq_ok, exists_and_left, exists_const, pure_eq_ok] at h
  obtain ⟨-, -, -, rfl⟩ := h
  exact ⟨_, rfl⟩

theorem accountUnbind_eq_ok {o : AccountBindOp} (h : accountUnbind env o s = .ok s') :
    ∃ b, s' = { s with bindings := b } := by
  simp only [accountUnbind, bind_eq_ok, require_eq_ok, found_eq_ok, exists_and_left, exists_const,
    pure_eq_ok] at h
  obtain ⟨-, _, -, -, rfl⟩ := h
  exact ⟨_, rfl⟩

theorem applyOperation_writes (h : applyOperation env trx op s = .ok s') : Writes trx op s s' := by
  cases op with
  | accountBind o =>
    obtain ⟨b, rfl⟩ := accountBind_eq_ok h
    exact .of_records rfl rfl fun _ => rfl
  | accountUnbind o =>
    obtain ⟨b, rfl⟩ := accountUnbind_eq_ok h
    exact .of_records rfl rfl fun _ => rfl
  | record o =>
    obtain ⟨_, _, _, hr⟩ := record_eq_ok h
    exact .of_records rfl hr.records fun _ => hr.transfers
  | withdraw o =>
    obtain ⟨_, _, hw⟩ := withdraw_eq_ok h
    exact .left _ _ rfl rfl rfl hw.rewrites
  | withoutSign o =>
    obtain ⟨first, hw⟩ := withoutSign_eq_ok h
    exact .left _ _ rfl rfl rfl hw.rewrites
  | withSign o => exact .left _ _ rfl rfl rfl (withSign_eq_ok h).2.1
  | combineSign o =>
    obtain ⟨_, _, _, hc⟩ := combineSign_eq_ok h
    exact .left _ _ rfl rfl rfl hc.rewrites
  | withdrawResult t =>
    obtain ⟨_, _, hr⟩ := withdrawResult_eq_ok h
    exact .same _ (s.confirmExternal t.key) rfl rfl (fun _ => rfl) hr.rewrites
  | ethSignFinal o =>
    obtain ⟨_, _, _, -, -, hs⟩ := ethSignFinal_eq_ok h
    exact .left _ _ rfl rfl rfl hs.rewrites
  | ethChangeSigner o =>
    obtain ⟨_, _, _, -, -, -, hs⟩ := ethChangeSigner_eq_ok h
    exact .left _ _ rfl rfl rfl hs.rewrites
  | refundBalance o =>
    obtain ⟨_, hr⟩ := refundBalance_eq_ok h
    exact .of_rewrites rfl hr.rewrites
  | refundCrosschainTrx o =>
    obtain ⟨_, _, -, -, -, hc⟩ := refundCrosschainTrx_eq_ok h
    exact .of_rewrites rfl hc.rewrites
  | cancelCombineTrx o =>
    obtain ⟨_, _, _, -, -, -, -, hc⟩ := cancelCombineTrx_eq_ok h
    exact .of_rewrites rfl hc.rewrites
  | passSuccessTrx o =>
    obtain ⟨_, _, _, hp⟩ := passSuccessTrx_eq_ok h
    exact .of_rewrites rfl hp.rewrites
  | ethCancelFailCrosschainTrx o =>
    obtain ⟨_, _, _, -, -, -, -, -, hc⟩ := ethCancelFailCrosschainTrx_eq_ok h
    exact .of_rewrites rfl hc.rewrites
  | ethsCancelUnsignedTransaction o =>
    obtain ⟨t, r, u, w, hb, rfl⟩ := ethsCancelUnsignedTransaction_eq_ok h
    exact .dropped _ t o.trxId r rfl hb.rewrites rfl hb.find hb.single hb.first
  | coldhot o => exact .of_records rfl (Coldhot.apply_frame h).1 fun hop => absurd rfl (hop o)
  | other =>
    obtain rfl := Except.ok.inj h
    exact .of_records rfl rfl fun _ => rfl

/-- The record of the transaction is there. -/
def Started (trx : Transaction) (s : State) : Prop :=
  ∃ r, s.find trx.id = some r ∧ r.realTransaction = trx

/-- One of the operations of a transaction is next: it is the first, or the first leaves no record,
or the record of the transaction is there already. -/
def Ready (trx : Transaction) (op : Operation) (s : State) : Prop :=
  trx.operations.head? = some op ∨ trx.operations.head?.bind Operation.opType = none ∨
    Started trx s

/-- The record that an operation leaves stands for the first operation of the transaction, if that
one leaves a record. -/
theorem Ready.head (h : Ready trx op s) (hnone : s.find trx.id = none) {t : OpType}
    (ht : trx.operations.head?.bind Operation.opType = some t) :
    trx.operations.head? = some op := by
  rcases h with h | h | ⟨r, hr, -⟩
  · exact h
  · rw [h] at ht
    cases ht
  · rw [hnone] at hr
    cases hr

namespace Writes

/-- A lookup after an operation shows an old record, with its links, or the new one. -/
theorem find_cases (h : Writes trx op s s') {id : TrxId} {r' : Record}
    (hr' : s'.find id = some r') :
    (∃ f r, Record.Frame f ∧ s.find id = some r ∧ r' = f r) ∨
      (s.find trx.id = none ∧ id = trx.id ∧ r'.realTransaction = trx ∧
        op.opType = some r'.opType) := by
  cases h with
  | same f t hop ht _ hrewrites =>
    rw [hrewrites.find_same, State.find_congr ht, Option.map_eq_some_iff] at hr'
    obtain ⟨r, hr, rfl⟩ := hr'
    exact .inl ⟨f, r, hrewrites.frame, hr, rfl⟩
  | left f r hop hid htrx hrewrites =>
    rw [hrewrites.find_new] at hr'
    split at hr'
    · next heq =>
      obtain rfl := Option.some.inj hr'
      have hfresh := hrewrites.fresh r (List.mem_singleton_self r)
      rw [hid] at hfresh heq
      exact .inr ⟨hfresh, heq, htrx, hop⟩
    · rw [Option.map_eq_some_iff] at hr'
      obtain ⟨r, hr, rfl⟩ := hr'
      exact .inl ⟨f, r, hrewrites.frame, hr, rfl⟩
  | dropped f t x r hop hrewrites hs' =>
    rw [hs', State.find_remove] at hr'
    split at hr'
    · cases hr'
    · rw [hrewrites.find_same, Option.map_eq_some_iff] at hr'
      obtain ⟨r, hr, rfl⟩ := hr'
      exact .inl ⟨f, r, hrewrites.frame, hr, rfl⟩

theorem transfers (h : Writes trx op s s') (hop : ∀ o, op ≠ .coldhot o) :
    s'.transfers = s.transfers := by
  cases h with
  | same f t _ _ htransfers hrewrites => exact hrewrites.transfers.trans (htransfers hop)
  | left f r _ _ _ hrewrites => exact hrewrites.transfers
  | dropped f t x r _ hrewrites hs' =>
    rw [hs']
    exact hrewrites.transfers

theorem indexed (h : Writes trx op s s') (hs : s.Indexed) : s'.Indexed := by
  cases h with
  | same f t hop ht _ hrewrites => exact hrewrites.indexed_same (hs.of_records ht)
  | left f r hop hid htrx hrewrites => exact hrewrites.indexed_new hs
  | dropped f t x r hop hrewrites hs' =>
    rw [hs']
    exact (hrewrites.indexed_same hs).remove x

theorem started_of_left (h : Writes trx op s s') (hop : op.opType ≠ none) : Started trx s' := by
  cases h with
  | same f t hnone => exact absurd hnone hop
  | left f r _ hid htrx hrewrites =>
    exact ⟨r, by rw [hrewrites.find_new, if_pos hid.symm], htrx⟩
  | dropped f t x r hnone => exact absurd hnone hop

/-- The record of a transaction of several operations is not dropped while it is applied. -/
theorem started (h : Writes trx op s s') (hs : Started trx s)
    (hsingle : trx.operations.length ≠ 1) : Started trx s' := by
  obtain ⟨r, hr, htrx⟩ := hs
  cases h with
  | same f t hnone ht _ hrewrites =>
    refine ⟨f r, ?_, (hrewrites.frame.realTransaction r).trans htrx⟩
    rw [hrewrites.find_same, State.find_congr ht, hr, Option.map_some]
  | left f r' _ hid _ hrewrites =>
    have hfresh := hrewrites.fresh r' (List.mem_singleton_self r')
    rw [hid, hr] at hfresh
    cases hfresh
  | dropped f t x r' hnone hrewrites hs' hx hdropped _ =>
    refine ⟨f r, ?_, (hrewrites.frame.realTransaction r).trans htrx⟩
    rw [hs', State.find_remove, if_neg, hrewrites.find_same, hr, Option.map_some]
    rintro rfl
    obtain rfl := Option.mem_unique hr hx
    rw [htrx] at hdropped
    exact hsingle hdropped

end Writes

/-! ### Invariants -/

section Invariant

variable {Inv : List Operation → State → Prop} {P : Env → Transaction → Operation → State → Prop}
  {done : List Operation}

theorem applyOperations_invariant
    (hstep : ∀ {op done s s'}, Ready trx op s → Inv done s → P env trx op s →
      applyOperation env trx op s = .ok s' → Inv (done ++ [op]) s') {ops : List Operation}
    (hready : trx.operations.head?.bind Operation.opType = none ∨ Started trx s)
    (hlength : trx.operations.length ≠ 1) (hs : Inv done s) (hP : AlongOperations P env trx ops s)
    (h : applyOperations env trx ops s = .ok s') :
    Inv (done ++ ops) s' ∧
      (trx.operations.head?.bind Operation.opType = none ∨ Started trx s') := by
  induction ops generalizing s done with
  | nil =>
    rw [applyOperations, List.foldlM_nil, pure_eq_ok] at h
    subst h
    exact ⟨by rwa [List.append_nil], hready⟩
  | cons op ops ih =>
    rw [applyOperations, List.foldlM_cons, bind_eq_ok] at h
    obtain ⟨t, ht, h⟩ := h
    obtain ⟨hPop, hPops⟩ := hP
    rw [ht, attempted_ok] at hPops
    have hready' := hready.imp_right fun hst => (applyOperation_writes ht).started hst hlength
    have := ih hready' (hstep (.inr hready) hs hPop ht) hPops h
    rwa [List.append_assoc] at this

/-- What every operation keeps, the first operations of a transaction keep; and the next one is
ready. -/
theorem applyOperations_ready
    (hstep : ∀ {op done s s'}, Ready trx op s → Inv done s → P env trx op s →
      applyOperation env trx op s = .ok s' → Inv (done ++ [op]) s') {ops rest : List Operation}
    (hops : trx.operations = ops ++ rest) (hs : Inv done s)
    (hP : AlongOperations P env trx ops s) (h : applyOperations env trx ops s = .ok s') :
    Inv (done ++ ops) s' ∧ ∀ op ∈ rest.head?, Ready trx op s' := by
  cases ops with
  | nil =>
    rw [applyOperations, List.foldlM_nil, pure_eq_ok] at h
    subst h
    refine ⟨by rwa [List.append_nil], fun op hop => .inl ?_⟩
    rw [hops]
    exact hop
  | cons first ops =>
    rw [applyOperations, List.foldlM_cons, bind_eq_ok] at h
    obtain ⟨t, ht, h⟩ := h
    obtain ⟨hPop, hPops⟩ := hP
    rw [ht, attempted_ok] at hPops
    have hhead : trx.operations.head? = some first := by rw [hops]; rfl
    have hfirst := hstep (.inl hhead) hs hPop ht
    have hready : trx.operations.head?.bind Operation.opType = none ∨ Started trx t := by
      cases hop : first.opType with
      | none => exact .inl (by rw [hhead]; exact hop)
      | some t => exact .inr ((applyOperation_writes ht).started_of_left (by rw [hop]; simp))
    by_cases hlength : trx.operations.length = 1
    · -- the first operation is the only one
      rw [hops, List.cons_append, List.length_cons, List.length_append] at hlength
      obtain rfl : ops = [] := List.eq_nil_of_length_eq_zero (by omega)
      obtain rfl : rest = [] := List.eq_nil_of_length_eq_zero (by omega)
      rw [List.foldlM_nil, pure_eq_ok] at h
      subst h
      exact ⟨hfirst, by simp⟩
    · obtain ⟨hinv, hready'⟩ := applyOperations_invariant hstep hready hlength hfirst hPops h
      rw [List.append_assoc] at hinv
      exact ⟨hinv, fun op _ => .inr hready'⟩

/-- **What every accepted operation keeps, a run keeps.** The invariant may speak of the operations
that were accepted so far. -/
theorem run_invariant (Inv : List Operation → State → Prop) (done : List Operation)
    {steps : List (Env × Transaction)}
    (hstep : ∀ {env trx op done s s'}, Ready trx op s → Inv done s → P env trx op s →
      applyOperation env trx op s = .ok s' → Inv (done ++ [op]) s') (hs : Inv done s)
    (hP : Along P steps s) : Inv (done ++ accepted s steps) (run s steps) := by
  induction steps generalizing s done with
  | nil => rwa [accepted, List.append_nil]
  | cons step steps ih =>
    obtain ⟨env, trx⟩ := step
    obtain ⟨hPstep, hPsteps⟩ := hP
    have hsubmit : Inv (done ++ if (applyTransaction env trx s).isOk then trx.operations else [])
        (submit env trx s) := by
      rw [submit]
      cases hok : applyTransaction env trx s with
      | error e => simpa [Except.isOk, Except.toBool] using hs
      | ok s' =>
        exact (applyOperations_ready hstep (List.append_nil _).symm hs
          (hPstep (by rw [hok]; rfl)) hok).1
    have := ih _ hsubmit hPsteps
    rwa [List.append_assoc] at this

/-- **What every accepted operation keeps holds of every state that is reached.** -/
theorem Reached.invariant (Inv : List Operation → State → Prop)
    (h : Reached P s done env trx op s')
    (hstep : ∀ {env trx op done s s'}, Ready trx op s → Inv done s → P env trx op s →
      applyOperation env trx op s = .ok s' → Inv (done ++ [op]) s') (hs : Inv [] s) :
    Inv done s' ∧ Ready trx op s' := by
  obtain ⟨steps, ops, rest, hops, hP, hPops, hok, rfl⟩ := h
  have hrun := run_invariant Inv [] hstep hs hP
  obtain ⟨hinv, hready⟩ := applyOperations_ready hstep hops hrun hPops hok
  exact ⟨hinv, hready op rfl⟩

end Invariant

end Whitecoin.Crosschain
