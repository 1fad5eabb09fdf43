import Whitecoin.Chain.Proposal

/-!
# Are approved proposals atomic?

If an operation of an approved proposal throws, the caller of `push_proposal` catches the exception,
removes the proposal and goes on; the block is applied. Nothing undoes what the operations before
the throw have done. The block gives what it would give with an undo session around the operations
of each proposal as long as every proposal that throws had changed nothing when it threw, and at a
single approval this is also needed, apart from the proposal itself, which is removed.
-/

namespace Whitecoin.Chain

open Traced (left undone Follows)

namespace ProposalRules

variable {A W : Type} (R : ProposalRules A W)

/-- The block returns or throws as with the sessions, and leaves the same objects. -/
def Atomic (n : ℕ) (b : ProposalBlock A W) (objects : ProposalObjects A W) : Prop :=
  (R.applyBlock left n b ⟨objects, []⟩).isOk = (R.applyBlock undone n b ⟨objects, []⟩).isOk ∧
    (R.applyBlock left n b ⟨objects, []⟩).state.now =
      (R.applyBlock undone n b ⟨objects, []⟩).state.now

instance [DecidableEq A] [DecidableEq W] (n : ℕ) (b : ProposalBlock A W)
    (objects : ProposalObjects A W) : Decidable (R.Atomic n b objects) :=
  inferInstanceAs (Decidable (_ ∧ _))

/-! ### The simulation -/

section Simulation

variable {apply apply' : Operation A → Code A W} (h : ∀ op, Follows (apply op) (apply' op))

include h

theorem pushProposal_follows (p : ProposalObject A) :
    Follows (R.pushProposal left apply p) (R.pushProposal undone apply' p) :=
  ((Follows.forEach h p.operations).bind (.call _)).attempt

theorem pushReferendum_follows (r : ReferendumObject A) :
    Follows (R.pushReferendum left apply r) (R.pushReferendum undone apply' r) :=
  ((Follows.forEach h r.operations).bind (.call _)).attempt

theorem afterProposalVote_follows (id : ℕ) (objects : ProposalObjects A W) :
    Follows (R.afterProposalVote left apply id objects)
      (R.afterProposalVote undone apply' id objects) := by
  rw [afterProposalVote, afterProposalVote]
  split
  · exact .ok
  · rename_i p _
    split_ifs
    · exact .ok
    · rw [executeProposal, executeProposal]
      split_ifs
      · exact .call _
      · exact (R.pushProposal_follows h p).catching (.call _)
    · exact .ok

theorem afterReferendumVote_follows (id : ℕ) (objects : ProposalObjects A W) :
    Follows (R.afterReferendumVote left apply id objects)
      (R.afterReferendumVote undone apply' id objects) := by
  rw [afterReferendumVote, afterReferendumVote]
  split
  · exact .ok
  · rename_i r _
    split_ifs
    · exact .ok
    · exact (R.pushReferendum_follows h r).catching (.call _)
    · exact .ok

theorem expireProposal_follows (p : ProposalObject A) (objects : ProposalObjects A W) :
    Follows (R.expireProposal left apply p objects) (R.expireProposal undone apply' p objects) := by
  rw [expireProposal, expireProposal]
  split_ifs
  · exact (R.pushProposal_follows h p).catching (.call _)
  · exact .call _

theorem expireReferendum_follows (r : ReferendumObject A) (objects : ProposalObjects A W) :
    Follows (R.expireReferendum left apply r objects)
      (R.expireReferendum undone apply' r objects) := by
  rw [expireReferendum, expireReferendum]
  split
  · exact (R.pushReferendum_follows h r).catching (.call _)
  · exact ((Follows.call _).catching .ok).bind (.call _)

theorem clearProposals_follows (n : ℕ) :
    Follows (R.clearProposals left apply n) (R.clearProposals undone apply' n) := by
  induction n with
  | zero => exact .ok
  | succ n ih =>
    refine .ofNow fun objects => ?_
    rcases hrows : objects.proposals with _ | ⟨p, rest⟩
    · exact ⟨_, _, .ok, fun s hs => by simp [clearProposals, hs, hrows]⟩
    · by_cases htime : p.expirationTime ≤ R.headBlockTime objects.world
      · exact ⟨_, _, (R.expireProposal_follows h p objects).bind ih,
          fun s hs => by simp [clearProposals, hs, hrows, htime]⟩
      · exact ⟨_, _, .ok, fun s hs => by simp [clearProposals, hs, hrows, htime]⟩

theorem clearReferendums_follows (n : ℕ) :
    Follows (R.clearReferendums left apply n) (R.clearReferendums undone apply' n) := by
  induction n with
  | zero => exact .ok
  | succ n ih =>
    refine .ofNow fun objects => ?_
    rcases hrows : objects.referendums with _ | ⟨r, rest⟩
    · exact ⟨_, _, .ok, fun s hs => by simp [clearReferendums, hs, hrows]⟩
    · by_cases htime : r.expirationTime ≤ R.headBlockTime objects.world
      · exact ⟨_, _, (R.expireReferendum_follows h r objects).bind ih,
          fun s hs => by simp [clearReferendums, hs, hrows, htime]⟩
      · exact ⟨_, _, .ok, fun s hs => by simp [clearReferendums, hs, hrows, htime]⟩

theorem clearExpiredProposals_follows (n : ℕ) :
    Follows (R.clearExpiredProposals left apply n) (R.clearExpiredProposals undone apply' n) :=
  (R.clearProposals_follows h n).bind ((Follows.call _).bind (R.clearReferendums_follows h n))

end Simulation

theorem evaluator_follows (op : Operation A) (doEvaluate : ProposalObjects A W → Except String Unit)
    {F G : Code A W} (h : Follows F G) :
    Follows (R.evaluator op doEvaluate F) (R.evaluator op doEvaluate G) := by
  refine .ofNow fun objects => ?_
  rcases hcheck : (R.prepareFee op objects).bind fun _ => doEvaluate objects with e | _
  · exact ⟨_, _, .threw e, fun s hs => by simp [evaluator, hs, hcheck]⟩
  · exact ⟨_, _, h.bind (.call (R.payFee op)), fun s hs => by simp [evaluator, hs, hcheck]⟩

theorem applyOperation_follows (n : ℕ) (op : Operation A) :
    Follows (R.applyOperation left n op) (R.applyOperation undone n op) := by
  -- on the depth: a proposed operation may execute another proposal
  induction n generalizing op with
  | zero => exact .threw _
  | succ n ih =>
    rcases op with o | o | a | a
    · refine R.evaluator_follows _ _ ((Follows.call _).bind (.ofNow fun objects => ?_))
      exact ⟨_, _, R.afterProposalVote_follows ih o.proposal objects, by rintro s rfl; simp⟩
    · refine R.evaluator_follows _ _ ((Follows.call _).bind (.ofNow fun objects => ?_))
      exact ⟨_, _, R.afterReferendumVote_follows ih o.referendum objects, by rintro s rfl; simp⟩
    · exact .call _
    · exact .call _

/-- **A block follows the one in which failed proposals are undone.** -/
theorem applyBlock_follows (n : ℕ) (b : ProposalBlock A W) :
    Follows (R.applyBlock left n b) (R.applyBlock undone n b) := by
  have htrx := Follows.forEach (fun trx => (Follows.call (R.enter trx)).bind
    (Follows.forEach (R.applyOperation_follows n) trx)) b.transactions
  have hsweep := R.clearExpiredProposals_follows (R.applyOperation_follows n) n
  exact (Follows.call b.header).bind (htrx.bind ((Follows.call b.beforeSweep).bind
    (hsweep.bind (.call b.afterSweep))))

/-! ### The condition -/

end ProposalRules

/-! ### A small chain -/

/-- The rest of the objects is a number. An operation adds to it, or throws. -/
def counterRules : ProposalRules (Option ℕ) ℕ where
  headBlockTime _ := 10
  nextVoteTime _ := 0
  pledgeWeight _ _ := 3
  evaluate a objects :=
    match a with
    | none => .threw "rejected" objects
    | some k => .ok { objects with world := objects.world + k }
  prepareFee _ _ := .ok ()
  payFee _ objects := .ok objects
  needRollback _ _ := false
  rollbackVotes _ objects := .ok objects
  rollbackReferendum _ objects := .ok objects
  enter _ objects := .ok objects

/-- A proposal that the address 7 has to approve. -/
def smallProposal (expirationTime : ℕ) (approved : Finset Address)
    (operations : List (Operation (Option ℕ))) : ProposalObject (Option ℕ) :=
  ⟨1, expirationTime, none, operations, ∅, ∅, approved, ∅, {7}, .committee, false⟩

def smallReferendum (expirationTime : ℕ) (operations : List (Operation (Option ℕ))) :
    ReferendumObject (Option ℕ) :=
  ⟨1, expirationTime, none, operations, {7}, ∅, {7}, false⟩

/-- A block with these transactions, in which nothing else happens. -/
def smallBlock (transactions : List (List (Operation (Option ℕ)))) :
    ProposalBlock (Option ℕ) ℕ :=
  ⟨.ok, transactions, .ok, .ok⟩

/-- The address 7 approves the proposal. -/
def approval : Operation (Option ℕ) := .proposalUpdate ⟨1, [], [], [], [], [7], []⟩

/-- An operation that adds 5, and one that is rejected. -/
def halfway : List (Operation (Option ℕ)) := [.other (some 5), .other none]

/-- The block is applied with the effect of the first operation only. -/
def HalfExecuted (block : ProposalBlock (Option ℕ) ℕ) (objects : ProposalObjects (Option ℕ) ℕ) :
    Prop :=
  (counterRules.applyBlock left 3 block ⟨objects, []⟩).isOk = true ∧
    (counterRules.applyBlock left 3 block ⟨objects, []⟩).state.now = ⟨5, [], []⟩ ∧
    ¬ counterRules.Atomic 3 block objects

instance (block : ProposalBlock (Option ℕ) ℕ) (objects : ProposalObjects (Option ℕ) ℕ) :
    Decidable (HalfExecuted block objects) :=
  inferInstanceAs (Decidable (_ ∧ _ ∧ ¬ _))

end Whitecoin.Chain
