import Mathlib.Data.Finset.Card
import Mathlib.Algebra.BigOperators.Group.Finset.Defs
import Whitecoin.Lib.Attempt

/-!
# Proposals and referendums

A proposal is a list of operations that is executed once enough keys have approved it: by the
operation that adds the last approval, or by the sweep over expired proposals at the end of a block.
Both call `push_proposal` and catch what it throws; `push_referendum` is the same for referendums.

The line that would have opened an undo session around the operations is commented out in
`push_proposal`, and `push_referendum` has none. The model takes what happens to the objects when an
operation throws as a parameter: `Traced.left` is the code, and `Traced.undone` the code with the
session.

Operations other than approvals, fees, and the other stages of applying a block are arbitrary
functions of the objects. Proposed operations may themselves be approvals of other proposals.
-/

namespace Whitecoin.Chain

/-! ### The objects -/

abbrev Address := ℕ

/-- `vote_id_type::vote_type`. -/
inductive VoteType
  | committee
  | witness
  | worker
  | cancelCommit
  | wallfacer
  deriving DecidableEq

/-- `proposal_update_operation`. -/
structure ProposalUpdate where
  proposal : ℕ
  activeApprovalsToAdd : List ℕ
  activeApprovalsToRemove : List ℕ
  ownerApprovalsToAdd : List ℕ
  ownerApprovalsToRemove : List ℕ
  keyApprovalsToAdd : List Address
  keyApprovalsToRemove : List Address
  deriving DecidableEq

/-- `referendum_update_operation`. -/
structure ReferendumUpdate where
  referendum : ℕ
  keyApprovalsToAdd : List Address
  keyApprovalsToRemove : List Address
  deriving DecidableEq

/-- Operations. Those that do not concern proposals are of a type `A`, one kind of them being
singled out by `push_proposal`. -/
inductive Operation (A : Type)
  | proposalUpdate (o : ProposalUpdate)
  | referendumUpdate (o : ReferendumUpdate)
  | wallfacerMemberUpdate (a : A)
  | other (a : A)
  deriving DecidableEq

def Operation.isWallfacerMemberUpdate {A : Type} : Operation A → Bool
  | .wallfacerMemberUpdate _ => true
  | _ => false

/-- `proposal_object`. -/
structure ProposalObject (A : Type) where
  id : ℕ
  expirationTime : ℕ
  reviewPeriodTime : Option ℕ
  operations : List (Operation A)
  availableActiveApprovals : Finset ℕ
  availableOwnerApprovals : Finset ℕ
  approvedKeyApprovals : Finset Address
  disapprovedKeyApprovals : Finset Address
  requiredAccountApprovals : Finset Address
  type : VoteType
  finished : Bool
  deriving DecidableEq

/-- `referendum_object`. -/
structure ReferendumObject (A : Type) where
  id : ℕ
  expirationTime : ℕ
  reviewPeriodTime : Option ℕ
  operations : List (Operation A)
  approvedKeyApprovals : Finset Address
  disapprovedKeyApprovals : Finset Address
  requiredAccountApprovals : Finset Address
  finished : Bool
  deriving DecidableEq

/-- The objects: proposals and referendums in the order of their indexes by expiration, and the
rest, of a type `W`. -/
structure ProposalObjects (A W : Type) where
  world : W
  proposals : List (ProposalObject A)
  referendums : List (ReferendumObject A)
  deriving DecidableEq

/-- The two loops that count the approvals of an update: keys that need not approve are skipped. -/
def countApprovals (required : Finset Address) (add remove : List Address)
    (votes : Finset Address × Finset Address) : Finset Address × Finset Address :=
  let votes := add.foldl (fun v a =>
    if a ∈ required then (insert a v.1, v.2.erase a) else v) votes
  remove.foldl (fun v a => if a ∈ required then (v.1.erase a, insert a v.2) else v) votes

/-- Both authorities compare weights in the same way. -/
def outweighs (weight : Address → ℕ) (required approved : Finset Address) : Bool :=
  (∑ a ∈ required, weight a) / 3 * 2 + 1 ≤ ∑ a ∈ approved, weight a

namespace ProposalObject

variable {A : Type}

def vote (o : ProposalUpdate) (p : ProposalObject A) : ProposalObject A :=
  let votes := countApprovals p.requiredAccountApprovals o.keyApprovalsToAdd
    o.keyApprovalsToRemove (p.approvedKeyApprovals, p.disapprovedKeyApprovals)
  { p with approvedKeyApprovals := votes.1, disapprovedKeyApprovals := votes.2 }

def isAuthorizedToExecute (weight : Address → ℕ) (p : ProposalObject A) : Bool :=
  if p.finished then false
  else
    match p.type with
    | .committee =>
      p.requiredAccountApprovals.card * 2 / 3 + 1 ≤ p.approvedKeyApprovals.card
    | .cancelCommit | .wallfacer =>
      p.requiredAccountApprovals.card * 1 / 2 + 1 ≤ p.approvedKeyApprovals.card
    | _ => outweighs weight p.requiredAccountApprovals p.approvedKeyApprovals

end ProposalObject

namespace ReferendumObject

variable {A : Type}

def vote (o : ReferendumUpdate) (r : ReferendumObject A) : ReferendumObject A :=
  let votes := countApprovals r.requiredAccountApprovals o.keyApprovalsToAdd
    o.keyApprovalsToRemove (r.approvedKeyApprovals, r.disapprovedKeyApprovals)
  { r with approvedKeyApprovals := votes.1, disapprovedKeyApprovals := votes.2 }

def isAuthorizedToExecute (weight : Address → ℕ) (r : ReferendumObject A) : Bool :=
  if r.finished then false
  else outweighs weight r.requiredAccountApprovals r.approvedKeyApprovals

end ReferendumObject

/-- A changed row of an ordered index with equal keys allowed: it stays where it is if that is in
order, and otherwise goes behind the rows that are not larger. -/
def reindex {α : Type} (id time : α → ℕ) (row : α) (rows : List α) : List α :=
  let replaced := rows.map fun x => if id x = id row then row else x
  if (replaced.map time).Pairwise (· ≤ ·) then replaced
  else
    let others := rows.filter fun x => id x ≠ id row
    others.takeWhile (time · ≤ time row) ++ row :: others.dropWhile (time · ≤ time row)

namespace ProposalObjects

variable {A W : Type}

def findProposal (objects : ProposalObjects A W) (id : ℕ) : Option (ProposalObject A) :=
  objects.proposals.find? fun p => p.id = id

def findReferendum (objects : ProposalObjects A W) (id : ℕ) : Option (ReferendumObject A) :=
  objects.referendums.find? fun r => r.id = id

/-- `modify`. -/
def modifyProposal (id : ℕ) (f : ProposalObject A → ProposalObject A)
    (objects : ProposalObjects A W) : ProposalObjects A W :=
  match objects.findProposal id with
  | none => objects
  | some p =>
    { objects with
      proposals := reindex ProposalObject.id ProposalObject.expirationTime (f p) objects.proposals }

def modifyReferendum (id : ℕ) (f : ReferendumObject A → ReferendumObject A)
    (objects : ProposalObjects A W) : ProposalObjects A W :=
  match objects.findReferendum id with
  | none => objects
  | some r =>
    { objects with
      referendums :=
        reindex ReferendumObject.id ReferendumObject.expirationTime (f r) objects.referendums }

/-- `remove`. -/
def removeProposal (id : ℕ) (objects : ProposalObjects A W) : ProposalObjects A W :=
  { objects with proposals := objects.proposals.filter fun p => p.id ≠ id }

def removeReferendum (id : ℕ) (objects : ProposalObjects A W) : ProposalObjects A W :=
  { objects with referendums := objects.referendums.filter fun r => r.id ≠ id }

end ProposalObjects

/-- What the chain does besides proposals: reads and checks that proposals depend on, and all the
other effects on the objects. -/
structure ProposalRules (A W : Type) where
  headBlockTime : W → ℕ
  nextVoteTime : W → ℕ
  pledgeWeight : W → Address → ℕ
  /-- An operation of the other kinds, with its fee. -/
  evaluate : A → ProposalObjects A W → Outcome String (ProposalObjects A W)
  /-- The check of the fee of an approval before it is evaluated, and the fee paid after it was
  applied. -/
  prepareFee : Operation A → ProposalObjects A W → Except String Unit
  payFee : Operation A → ProposalObjects A W → Outcome String (ProposalObjects A W)
  needRollback : ProposalObject A → ProposalObjects A W → Bool
  rollbackVotes : ProposalObject A → ProposalObjects A W → Outcome String (ProposalObjects A W)
  /-- The flags of wallfacers that a finished referendum has replaced. -/
  rollbackReferendum : ReferendumObject A → ProposalObjects A W →
    Outcome String (ProposalObjects A W)
  /-- The checks of a transaction before its operations, and its record. -/
  enter : List (Operation A) → ProposalObjects A W → Outcome String (ProposalObjects A W)

/-- `XWC_REFERENDUM_VOTING_PERIOD`, in seconds. -/
def referendumVotingPeriod : ℕ := 7 * 24 * 3600

/-- A block: its transactions, and what the stages before, between and after do. -/
structure ProposalBlock (A W : Type) where
  header : ProposalObjects A W → Outcome String (ProposalObjects A W)
  transactions : List (List (Operation A))
  beforeSweep : ProposalObjects A W → Outcome String (ProposalObjects A W)
  afterSweep : ProposalObjects A W → Outcome String (ProposalObjects A W)

namespace ProposalRules

variable {A W : Type} (R : ProposalRules A W)

/-- A stretch of code that changes the objects. -/
abbrev Code (A W : Type) :=
  Traced (ProposalObjects A W) → Outcome String (Traced (ProposalObjects A W))

/-! ### Execution -/

section Execution

variable (onThrow : ProposalObjects A W → ProposalObjects A W → ProposalObjects A W)
  (apply : Operation A → Code A W)

/-- The end of `push_proposal`: one with an update of wallfacers is kept for a while. -/
def concludeProposal (p : ProposalObject A) (objects : ProposalObjects A W) :
    ProposalObjects A W :=
  if p.operations.any Operation.isWallfacerMemberUpdate then
    objects.modifyProposal p.id fun p =>
      { p with
        finished := true
        expirationTime := R.headBlockTime objects.world + referendumVotingPeriod }
  else objects.removeProposal p.id

def pushProposal (p : ProposalObject A) : Code A W :=
  Traced.attempt onThrow fun s =>
    (Outcome.forEach apply p.operations s).bind
      (Traced.call fun objects => .ok (R.concludeProposal p objects))

def concludeReferendum (r : ReferendumObject A) (objects : ProposalObjects A W) :
    ProposalObjects A W :=
  objects.modifyReferendum r.id fun r =>
    { r with
      finished := true
      expirationTime := R.headBlockTime objects.world + referendumVotingPeriod }

def pushReferendum (r : ReferendumObject A) : Code A W :=
  Traced.attempt onThrow fun s =>
    (Outcome.forEach apply r.operations s).bind
      (Traced.call fun objects => .ok (R.concludeReferendum r objects))

/-! ### Approvals -/

/-- `proposal_update_evaluator::do_evaluate`. -/
def evaluateProposalUpdate (o : ProposalUpdate) (objects : ProposalObjects A W) :
    Except String Unit :=
  match objects.findProposal o.proposal with
  | none => .error "Unable to find Object"
  | some p =>
    if p.finished then .error "the proposal has not finished."
    else if (p.reviewPeriodTime.any fun t => t ≤ R.headBlockTime objects.world) &&
        !(o.activeApprovalsToAdd.isEmpty && o.ownerApprovalsToAdd.isEmpty) then
      .error "This proposal is in its review period. No new approvals may be added."
    else if o.activeApprovalsToRemove.any (· ∉ p.availableActiveApprovals) then .error ""
    else if o.ownerApprovalsToRemove.any (· ∉ p.availableOwnerApprovals) then .error ""
    else .ok ()

/-- An approved proposal is executed, and removed if that throws. One proposal is not executed. -/
def executeProposal (p : ProposalObject A) : Code A W :=
  if p.id = 137 then Traced.call fun objects => .ok (objects.removeProposal p.id)
  else
    Traced.catching (R.pushProposal onThrow apply p)
      (Traced.call fun objects => .ok (objects.removeProposal p.id))

/-- The part of `proposal_update_evaluator::do_apply` after the approvals have been counted. -/
def afterProposalVote (id : ℕ) (objects : ProposalObjects A W) : Code A W :=
  match objects.findProposal id with
  | none => .ok
  | some p =>
    if p.reviewPeriodTime.isSome then .ok
    else if p.isAuthorizedToExecute (R.pledgeWeight objects.world) then
      R.executeProposal onThrow apply p
    else .ok

/-- `proposal_update_evaluator::do_apply`. -/
def applyProposalUpdate (o : ProposalUpdate) : Code A W := fun s =>
  (Traced.call (fun objects => .ok (objects.modifyProposal o.proposal (·.vote o))) s).bind
    fun s => R.afterProposalVote onThrow apply o.proposal s.now s

/-- `referendum_update_evaluator::do_evaluate`. -/
def evaluateReferendumUpdate (o : ReferendumUpdate) (objects : ProposalObjects A W) :
    Except String Unit :=
  match objects.findReferendum o.referendum with
  | none => .error "Unable to find Object"
  | some r =>
    if R.headBlockTime objects.world < R.nextVoteTime objects.world then
      .error "the referendum vote is in its packing period."
    else if r.finished then .error "the referendum has been finished."
    else .ok ()

def executeReferendum (r : ReferendumObject A) : Code A W :=
  Traced.catching (R.pushReferendum onThrow apply r)
    (Traced.call fun objects => .ok (objects.removeReferendum r.id))

def afterReferendumVote (id : ℕ) (objects : ProposalObjects A W) : Code A W :=
  match objects.findReferendum id with
  | none => .ok
  | some r =>
    if r.reviewPeriodTime.isSome then .ok
    else if r.isAuthorizedToExecute (R.pledgeWeight objects.world) then
      R.executeReferendum onThrow apply r
    else .ok

/-- `referendum_update_evaluator::do_apply`. -/
def applyReferendumUpdate (o : ReferendumUpdate) : Code A W := fun s =>
  (Traced.call (fun objects => .ok (objects.modifyReferendum o.referendum (·.vote o))) s).bind
    fun s => R.afterReferendumVote onThrow apply o.referendum s.now s

/-- An evaluator: the fee is checked, the operation is evaluated and applied, and the fee paid. -/
def evaluator (op : Operation A) (doEvaluate : ProposalObjects A W → Except String Unit)
    (doApply : Code A W) : Code A W := fun s =>
  match (R.prepareFee op s.now).bind fun _ => doEvaluate s.now with
  | .error e => .threw e s
  | .ok _ => (doApply s).bind (Traced.call (R.payFee op))

end Execution

variable (onThrow : ProposalObjects A W → ProposalObjects A W → ProposalObjects A W)

/-- `apply_operation`. Approvals may be nested; `n` bounds the depth. -/
def applyOperation : ℕ → Operation A → Code A W
  | 0, _ => fun s => .threw "nested too deeply" s
  | n + 1, .proposalUpdate o =>
    R.evaluator (.proposalUpdate o) (R.evaluateProposalUpdate o)
      (R.applyProposalUpdate onThrow (applyOperation n) o)
  | n + 1, .referendumUpdate o =>
    R.evaluator (.referendumUpdate o) (R.evaluateReferendumUpdate o)
      (R.applyReferendumUpdate onThrow (applyOperation n) o)
  | _ + 1, .wallfacerMemberUpdate a => Traced.call (R.evaluate a)
  | _ + 1, .other a => Traced.call (R.evaluate a)

/-! ### The sweep -/

section Sweep

variable (apply : Operation A → Code A W)

/-- An expired proposal is dropped; a finished one is rolled back first. -/
def dropProposal (p : ProposalObject A) (objects : ProposalObjects A W) :
    Outcome String (ProposalObjects A W) :=
  let p := (objects.findProposal p.id).getD p
  (if p.finished then R.rollbackVotes p objects else .ok objects).bind fun objects =>
    .ok (objects.removeProposal p.id)

/-- One iteration of the first loop of `clear_expired_proposals`. -/
def expireProposal (p : ProposalObject A) (objects : ProposalObjects A W) : Code A W :=
  if p.isAuthorizedToExecute (R.pledgeWeight objects.world) then
    Traced.catching (R.pushProposal onThrow apply p) (Traced.call (R.dropProposal p))
  else Traced.call (R.dropProposal p)

/-- The first loop; `n` bounds the iterations. -/
def clearProposals : ℕ → Code A W
  | 0, s => .ok s
  | n + 1, s =>
    match s.now.proposals with
    | [] => .ok s
    | p :: _ =>
      if p.expirationTime ≤ R.headBlockTime s.now.world then
        (R.expireProposal onThrow apply p s.now s).bind (clearProposals n)
      else .ok s

/-- The second loop: the first finished proposal that needs no rollback any more is removed. -/
def clearFinished (objects : ProposalObjects A W) : ProposalObjects A W :=
  match objects.proposals.find? fun p =>
      p.finished && p.operations.any Operation.isWallfacerMemberUpdate &&
        !R.needRollback p objects with
  | none => objects
  | some p => objects.removeProposal p.id

/-- One iteration of the third loop. What a rollback throws is caught, too. -/
def expireReferendum (r : ReferendumObject A) (objects : ProposalObjects A W) : Code A W :=
  if r.isAuthorizedToExecute (R.pledgeWeight objects.world) then
    Traced.catching (R.pushReferendum onThrow apply r)
      (Traced.call fun objects => .ok (objects.removeReferendum r.id))
  else fun s =>
    (Traced.catching (Traced.call fun objects =>
      if r.finished then R.rollbackReferendum r objects else .ok objects) .ok s).bind
      (Traced.call fun objects => .ok (objects.removeReferendum r.id))

/-- The third loop. -/
def clearReferendums : ℕ → Code A W
  | 0, s => .ok s
  | n + 1, s =>
    match s.now.referendums with
    | [] => .ok s
    | r :: _ =>
      if r.expirationTime ≤ R.headBlockTime s.now.world then
        (R.expireReferendum onThrow apply r s.now s).bind (clearReferendums n)
      else .ok s

def clearExpiredProposals (n : ℕ) : Code A W := fun s =>
  (R.clearProposals onThrow apply n s).bind fun s =>
  (Traced.call (fun objects => .ok (R.clearFinished objects)) s).bind
    (R.clearReferendums onThrow apply n)

end Sweep

/-- `_apply_block`. -/
def applyBlock (n : ℕ) (b : ProposalBlock A W) : Code A W := fun s =>
  (Traced.call b.header s).bind fun s =>
  (Outcome.forEach (fun trx s => (Traced.call (R.enter trx) s).bind
    (Outcome.forEach (R.applyOperation onThrow n) trx)) b.transactions s).bind fun s =>
  (Traced.call b.beforeSweep s).bind fun s =>
  (R.clearExpiredProposals onThrow (R.applyOperation onThrow n) n s).bind
    (Traced.call b.afterSweep)

end ProposalRules

end Whitecoin.Chain
