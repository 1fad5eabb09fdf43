import Whitecoin.Crosschain.Step

/-!
# External transactions are used up once

A deposit, the report of a paid batch and the report of a cold-hot transfer each stand for one
transaction of another chain. The three evaluators share a table of the external transactions that
were used up; each of them looks its transaction up before it acts, and enters it afterwards. They
do not name it in the same way: a deposit takes the id as it is, a report takes the part after the
bar on the chains of the Ethereum family. What one of them looks up is nevertheless what it enters,
and no operation takes an entry back.

The operation with which a wallfacer reopens an entry is not part of the model. The plugins of a
node also write to the table: they enter transactions they have seen, as not used yet and only if
they are not there, and mark those that could not be submitted. Neither reopens an entry.
-/

namespace Whitecoin.Crosschain

/-- The name under which an operation uses an external transaction up, if it does. -/
def Operation.consumes : Operation → Option String
  | .record o => some o.crossChainTrx.trxId
  | .withdrawResult t => some t.key
  | .coldhot (.result t) => some t.key
  | _ => none

variable {env : Env} {trx : Transaction} {op : Operation} {s s' : State} {key : String}

/-- What an operation does to the table of external transactions. -/
structure Spends (op : Operation) (s s' : State) : Prop where
  unused : ∀ key ∈ op.consumes, ¬ UsedUp s key
  spent : ∀ key ∈ op.consumes, UsedUp s' key
  kept : ∀ key, UsedUp s key → UsedUp s' key

namespace Spends

theorem of_acquired (hop : op.consumes = none) (h : s'.acquired = s.acquired) : Spends op s s' := by
  refine ⟨by simp [hop], by simp [hop], fun key hkey => ?_⟩
  rwa [UsedUp, h]

theorem of_update {st : AcquiredTrxState} (hop : op.consumes = some key) (hunused : ¬ UsedUp s key)
    (hst : st ≠ .uncreate) (h : s'.acquired = Function.update s.acquired key (some st)) :
    Spends op s s' := by
  have hspent : UsedUp s' key := by
    simp [UsedUp, h, hst]
  refine ⟨?_, ?_, fun k hk => ?_⟩
  · simpa [hop] using hunused
  · simpa [hop] using hspent
  · by_cases hkey : k = key
    · exact hkey ▸ hspent
    · rwa [UsedUp, h, Function.update_of_ne hkey]

end Spends

theorem applyOperation_spends (h : applyOperation env trx op s = .ok s') : Spends op s s' := by
  cases op with
  | accountBind o =>
    obtain ⟨b, rfl⟩ := accountBind_eq_ok h
    exact .of_acquired rfl rfl
  | accountUnbind o =>
    obtain ⟨b, rfl⟩ := accountUnbind_eq_ok h
    exact .of_acquired rfl rfl
  | record o =>
    obtain ⟨_, _, _, hr⟩ := record_eq_ok h
    exact .of_update rfl hr.fresh (by decide) hr.acquired
  | withdraw o =>
    obtain ⟨_, _, hw⟩ := withdraw_eq_ok h
    exact .of_acquired rfl hw.acquired
  | withoutSign o =>
    obtain ⟨_, hw⟩ := withoutSign_eq_ok h
    exact .of_acquired rfl hw.rewrites.acquired
  | withSign o => exact .of_acquired rfl (withSign_eq_ok h).2.1.acquired
  | combineSign o =>
    obtain ⟨_, _, _, hc⟩ := combineSign_eq_ok h
    exact .of_acquired rfl hc.rewrites.acquired
  | withdrawResult t =>
    obtain ⟨_, _, hr⟩ := withdrawResult_eq_ok h
    exact .of_update rfl hr.unused (by decide) hr.rewrites.acquired
  | ethSignFinal o =>
    obtain ⟨_, _, _, -, -, hs⟩ := ethSignFinal_eq_ok h
    exact .of_acquired rfl hs.rewrites.acquired
  | ethChangeSigner o =>
    obtain ⟨_, _, _, -, -, -, hs⟩ := ethChangeSigner_eq_ok h
    exact .of_acquired rfl hs.rewrites.acquired
  | refundBalance o =>
    obtain ⟨_, hr⟩ := refundBalance_eq_ok h
    exact .of_acquired rfl hr.rewrites.acquired
  | refundCrosschainTrx o =>
    obtain ⟨_, _, -, -, -, hc⟩ := refundCrosschainTrx_eq_ok h
    exact .of_acquired rfl hc.rewrites.acquired
  | cancelCombineTrx o =>
    obtain ⟨_, _, _, -, -, -, -, hc⟩ := cancelCombineTrx_eq_ok h
    exact .of_acquired rfl hc.rewrites.acquired
  | passSuccessTrx o =>
    obtain ⟨_, _, _, hp⟩ := passSuccessTrx_eq_ok h
    exact .of_acquired rfl hp.rewrites.acquired
  | ethCancelFailCrosschainTrx o =>
    obtain ⟨_, _, _, -, -, -, -, -, hc⟩ := ethCancelFailCrosschainTrx_eq_ok h
    exact .of_acquired rfl hc.rewrites.acquired
  | ethsCancelUnsignedTransaction o =>
    obtain ⟨t, _, _, _, hb, rfl⟩ := ethsCancelUnsignedTransaction_eq_ok h
    exact .of_acquired rfl hb.rewrites.acquired
  | coldhot o =>
    have huses := (Coldhot.apply_frame h).2.2
    cases o with
    | result t => exact .of_update rfl huses.1 (by decide) huses.2
    | _ => exact .of_acquired rfl huses
  | other =>
    obtain rfl := Except.ok.inj h
    exact .of_acquired rfl rfl

/-- How many of the operations used the external transaction up. -/
def consumed (ops : List Operation) (key : String) : ℕ := ops.countP fun op => op.consumes = some key

theorem Spends.once (h : Spends op s s') {done : List Operation}
    (hs : ∀ key, consumed done key ≤ 1 ∧ (consumed done key ≠ 0 → UsedUp s key)) (key : String) :
    consumed (done ++ [op]) key ≤ 1 ∧ (consumed (done ++ [op]) key ≠ 0 → UsedUp s' key) := by
  obtain ⟨hle, hused⟩ := hs key
  rw [consumed, List.countP_append, List.countP_singleton]
  change consumed done key + _ ≤ 1 ∧ (consumed done key + _ ≠ 0 → _)
  by_cases hop : op.consumes = some key
  · -- it was not in the table, so no earlier operation used it up
    have hzero : consumed done key = 0 := by
      by_contra hne
      exact h.unused key hop (hused hne)
    simp [hop, hzero, h.spent key hop]
  · simp only [hop, decide_false, Bool.false_eq_true, if_false, Nat.add_zero]
    exact ⟨hle, fun hne => h.kept key (hused hne)⟩

/-- **In every run, every external transaction is used up at most once**, by a deposit, by the
report of a paid batch or by the report of a cold-hot transfer. -/
theorem accepted_consumes_once (s : State) (steps : List (Env × Transaction)) (key : String) :
    consumed (accepted s steps) key ≤ 1 := by
  have hrun := run_invariant
    (fun done s => ∀ key, consumed done key ≤ 1 ∧ (consumed done key ≠ 0 → UsedUp s key)) []
    (fun _ hs _ h => (applyOperation_spends h).once hs) (by simp [consumed])
    (Along.of_forall (P := fun _ _ _ _ => True) (fun _ _ _ _ => trivial) steps s)
  exact (hrun key).1

end Whitecoin.Crosschain
