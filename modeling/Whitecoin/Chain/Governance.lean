import Mathlib.Algebra.BigOperators.Group.Finset.Basic
import Whitecoin.Chain.ProposalAtomicity

/-!
# How many approvals are enough?

A proposal or a referendum is executed when it is reported as authorized. The report is meant to say
that more than two thirds of those who have to approve it did, counted by head for committees and by
pledge weight for miners.

That only those who have to approve are counted, and nobody who disapproves, is an invariant of all
the code that changes proposals. The threshold is `size * 2 / 3 + 1` for heads, which is right for
every size. For weights it is `total / 3 * 2 + 1`: the remainder that the division cuts off is lost
before the doubling, and if it is 2, one unit too little is asked for.
-/

namespace Whitecoin.Chain

open Traced (left Keeps)

/-! ### Votes -/

/-- Approvals are counted of those who have to approve and do not disapprove. -/
def Counted (required : Finset Address) (votes : Finset Address × Finset Address) : Prop :=
  votes.1 ⊆ required ∧ Disjoint votes.1 votes.2

instance (required : Finset Address) (votes : Finset Address × Finset Address) :
    Decidable (Counted required votes) := inferInstanceAs (Decidable (_ ∧ _))

theorem counted_empty (required : Finset Address) : Counted required (∅, ∅) :=
  ⟨Finset.empty_subset _, Finset.disjoint_empty_left _⟩

theorem Counted.approve {required : Finset Address} {votes : Finset Address × Finset Address}
    (h : Counted required votes) {a : Address} (ha : a ∈ required) :
    Counted required (insert a votes.1, votes.2.erase a) := by
  refine ⟨Finset.insert_subset ha h.1, ?_⟩
  rw [Finset.disjoint_insert_left]
  exact ⟨Finset.notMem_erase a _, h.2.mono_right (Finset.erase_subset a _)⟩

theorem Counted.disapprove {required : Finset Address} {votes : Finset Address × Finset Address}
    (h : Counted required votes) (a : Address) :
    Counted required (votes.1.erase a, insert a votes.2) := by
  refine ⟨(Finset.erase_subset a _).trans h.1, ?_⟩
  rw [Finset.disjoint_insert_right]
  exact ⟨Finset.notMem_erase a _, h.2.mono_left (Finset.erase_subset a _)⟩

theorem Counted.foldl {required : Finset Address}
    {f : Finset Address × Finset Address → Address → Finset Address × Finset Address}
    (hf : ∀ votes a, Counted required votes → Counted required (f votes a)) (l : List Address)
    {votes : Finset Address × Finset Address} (h : Counted required votes) :
    Counted required (l.foldl f votes) := by
  induction l generalizing votes with
  | nil => exact h
  | cons a l ih => exact ih (hf votes a h)

theorem Counted.countApprovals {required : Finset Address}
    {votes : Finset Address × Finset Address} (h : Counted required votes)
    (add remove : List Address) : Counted required (countApprovals required add remove votes) := by
  refine Counted.foldl (fun votes a h => ?_) remove (Counted.foldl (fun votes a h => ?_) add h)
  · split
    · exact h.disapprove a
    · exact h
  · split
    next ha => exact h.approve ha
    next => exact h

namespace ProposalObject

def votes {A : Type} (p : ProposalObject A) : Finset Address × Finset Address :=
  (p.approvedKeyApprovals, p.disapprovedKeyApprovals)

end ProposalObject

namespace ReferendumObject

def votes {A : Type} (r : ReferendumObject A) : Finset Address × Finset Address :=
  (r.approvedKeyApprovals, r.disapprovedKeyApprovals)

end ReferendumObject

section Fair

variable {A W : Type} {objects : ProposalObjects A W}

/-- The votes of all objects are. -/
structure Fair (objects : ProposalObjects A W) : Prop where
  proposals : ∀ p ∈ objects.proposals, Counted p.requiredAccountApprovals p.votes
  referendums : ∀ r ∈ objects.referendums, Counted r.requiredAccountApprovals r.votes

theorem mem_of_mem_reindex {α : Type} {id time : α → ℕ} {row x : α} {rows : List α}
    (h : x ∈ reindex id time row rows) : x = row ∨ x ∈ rows := by
  unfold reindex at h
  simp only at h
  split at h
  · obtain ⟨y, hy, rfl⟩ := List.mem_map.mp h
    split
    · exact .inl rfl
    · exact .inr hy
  · have hfilter : ∀ {y}, y ∈ rows.filter (fun x => id x ≠ id row) → y ∈ rows := fun hy =>
      (List.mem_filter.mp hy).1
    rcases List.mem_append.mp h with h | h
    · exact .inr (hfilter (List.takeWhile_subset _ h))
    · rcases List.mem_cons.mp h with rfl | h
      · exact .inl rfl
      · exact .inr (hfilter ((List.dropWhile_suffix _).subset h))

namespace Fair

theorem modifyProposal (h : Fair objects) (id : ℕ) {f : ProposalObject A → ProposalObject A}
    (hf : ∀ p, Counted p.requiredAccountApprovals p.votes →
      Counted (f p).requiredAccountApprovals (f p).votes) :
    Fair (objects.modifyProposal id f) := by
  unfold ProposalObjects.modifyProposal
  split
  next => exact h
  next p hfind =>
    refine ⟨fun q hq => ?_, h.referendums⟩
    obtain rfl | hq := mem_of_mem_reindex hq
    · exact hf p (h.proposals p (List.mem_of_find?_eq_some hfind))
    · exact h.proposals q hq

theorem modifyReferendum (h : Fair objects) (id : ℕ)
    {f : ReferendumObject A → ReferendumObject A}
    (hf : ∀ r, Counted r.requiredAccountApprovals r.votes →
      Counted (f r).requiredAccountApprovals (f r).votes) :
    Fair (objects.modifyReferendum id f) := by
  unfold ProposalObjects.modifyReferendum
  split
  next => exact h
  next r hfind =>
    refine ⟨h.proposals, fun q hq => ?_⟩
    obtain rfl | hq := mem_of_mem_reindex hq
    · exact hf r (h.referendums r (List.mem_of_find?_eq_some hfind))
    · exact h.referendums q hq

theorem removeProposal (h : Fair objects) (id : ℕ) : Fair (objects.removeProposal id) :=
  ⟨fun p hp => h.proposals p (List.mem_filter.mp hp).1, h.referendums⟩

theorem removeReferendum (h : Fair objects) (id : ℕ) : Fair (objects.removeReferendum id) :=
  ⟨h.proposals, fun r hr => h.referendums r (List.mem_filter.mp hr).1⟩

end Fair

end Fair

/-! ### The invariant -/

namespace ProposalRules

variable {A W : Type} (R : ProposalRules A W)

/-- The rest of the chain does not vote either. -/
structure KeepsVotes : Prop where
  evaluate : ∀ a objects, Fair objects → Fair (R.evaluate a objects).state
  payFee : ∀ op objects, Fair objects → Fair (R.payFee op objects).state
  rollbackVotes : ∀ p objects, Fair objects → Fair (R.rollbackVotes p objects).state
  rollbackReferendum : ∀ r objects, Fair objects → Fair (R.rollbackReferendum r objects).state
  enter : ∀ trx objects, Fair objects → Fair (R.enter trx objects).state

section Keeps

variable {R} (hR : R.KeepsVotes)

theorem keeps_removeProposal (id : ℕ) :
    Keeps (ε := String) Fair
      (Traced.call fun objects : ProposalObjects A W => .ok (objects.removeProposal id)) :=
  .call fun _ h => h.removeProposal id

theorem keeps_removeReferendum (id : ℕ) :
    Keeps (ε := String) Fair
      (Traced.call fun objects : ProposalObjects A W => .ok (objects.removeReferendum id)) :=
  .call fun _ h => h.removeReferendum id

theorem fair_concludeProposal (p : ProposalObject A) {objects : ProposalObjects A W}
    (h : Fair objects) : Fair (R.concludeProposal p objects) := by
  unfold concludeProposal
  split
  · exact h.modifyProposal p.id fun _ hp => hp
  · exact h.removeProposal p.id

section Execution

variable {apply : Operation A → Code A W} (happly : ∀ op, Keeps Fair (apply op))

include happly

theorem pushProposal_keeps (p : ProposalObject A) : Keeps Fair (R.pushProposal left apply p) :=
  ((Keeps.forEach happly p.operations).bind
    (Keeps.call (f := fun objects => .ok (R.concludeProposal p objects))
      fun _ h => fair_concludeProposal p h)).attempt

theorem pushReferendum_keeps (r : ReferendumObject A) :
    Keeps Fair (R.pushReferendum left apply r) :=
  ((Keeps.forEach happly r.operations).bind
    (Keeps.call (f := fun objects => .ok (R.concludeReferendum r objects))
      fun _ h => h.modifyReferendum r.id fun _ hr => hr)).attempt

theorem afterProposalVote_keeps (id : ℕ) (objects : ProposalObjects A W) :
    Keeps Fair (R.afterProposalVote left apply id objects) := by
  unfold afterProposalVote
  split
  next => exact .ok
  next p _ =>
    split_ifs
    · exact .ok
    · unfold executeProposal
      split
      · exact keeps_removeProposal p.id
      · exact (pushProposal_keeps happly p).catching (keeps_removeProposal p.id)
    · exact .ok

theorem afterReferendumVote_keeps (id : ℕ) (objects : ProposalObjects A W) :
    Keeps Fair (R.afterReferendumVote left apply id objects) := by
  unfold afterReferendumVote
  split
  next => exact .ok
  next r _ =>
    split_ifs
    · exact .ok
    · exact (pushReferendum_keeps happly r).catching (keeps_removeReferendum r.id)
    · exact .ok

include hR

end Execution

include hR

theorem evaluator_keeps (op : Operation A) (doEvaluate : ProposalObjects A W → Except String Unit)
    {F : Code A W} (h : Keeps Fair F) : Keeps Fair (R.evaluator op doEvaluate F) := by
  refine .ofNow fun objects => ?_
  rcases hcheck : (R.prepareFee op objects).bind fun _ => doEvaluate objects with e | _
  · exact ⟨_, .threw e, fun s hs => by simp [evaluator, hs, hcheck]⟩
  · exact ⟨_, h.bind (.call (hR.payFee op)), fun s hs => by simp [evaluator, hs, hcheck]⟩

/-- **Votes stay fair**, whatever operation is applied. -/
theorem applyOperation_keeps (n : ℕ) (op : Operation A) :
    Keeps Fair (R.applyOperation left n op) := by
  -- on the depth: a proposed operation may execute another proposal
  induction n generalizing op with
  | zero => exact .threw _
  | succ n ih =>
    rcases op with o | o | a | a
    · refine evaluator_keeps hR _ _ ((Keeps.call fun objects h => ?_).bind
        (.ofNow fun objects => ?_))
      · exact h.modifyProposal _ fun p hp => hp.countApprovals _ _
      · exact ⟨_, afterProposalVote_keeps ih o.proposal objects, by rintro s rfl; rfl⟩
    · refine evaluator_keeps hR _ _ ((Keeps.call fun objects h => ?_).bind
        (.ofNow fun objects => ?_))
      · exact h.modifyReferendum _ fun r hr => hr.countApprovals _ _
      · exact ⟨_, afterReferendumVote_keeps ih o.referendum objects, by rintro s rfl; rfl⟩
    · exact .call (hR.evaluate a)
    · exact .call (hR.evaluate a)

end Keeps

end ProposalRules

/-! ### Thresholds -/

/-- More than two thirds of the weight of those who have to approve did, and none of them
disapproves. -/
def Quorum (weight : Address → ℕ) (required approved disapproved : Finset Address) : Prop :=
  approved ⊆ required ∧ Disjoint approved disapproved ∧
    2 * ∑ a ∈ required, weight a < 3 * ∑ a ∈ approved, weight a

/-- The total leaves the remainder 2, and the approvals reach the threshold just so. -/
def Short (weight : Address → ℕ) (required approved : Finset Address) : Prop :=
  (∑ a ∈ required, weight a) % 3 = 2 ∧
    ∑ a ∈ approved, weight a = (∑ a ∈ required, weight a) / 3 * 2 + 1

theorem quorum_iff_of_outweighs {weight : Address → ℕ} {required : Finset Address}
    {votes : Finset Address × Finset Address} (hvotes : Counted required votes)
    (h : outweighs weight required votes.1 = true) :
    Quorum weight required votes.1 votes.2 ↔ ¬ Short weight required votes.1 := by
  have hle := of_decide_eq_true h
  have hquorum : Quorum weight required votes.1 votes.2 ↔
      2 * ∑ a ∈ required, weight a < 3 * ∑ a ∈ votes.1, weight a := by
    rw [Quorum, and_iff_right hvotes.1, and_iff_right hvotes.2]
  rw [hquorum, Short]
  generalize ∑ a ∈ required, weight a = total at hle ⊢
  generalize ∑ a ∈ votes.1, weight a = approved at hle ⊢
  omega

theorem quorum_of_card {required : Finset Address} {votes : Finset Address × Finset Address}
    (hvotes : Counted required votes) (h : required.card * 2 / 3 + 1 ≤ votes.1.card) :
    Quorum (fun _ => 1) required votes.1 votes.2 := by
  refine ⟨hvotes.1, hvotes.2, ?_⟩
  rw [← Finset.card_eq_sum_ones, ← Finset.card_eq_sum_ones]
  omega

namespace ProposalRules

variable {A W : Type} {R : ProposalRules A W}

/-- **What a report says.** After any operations, a committee proposal that is reported as
authorized has a quorum of heads. A proposal of miners and a referendum that are reported as
authorized have a quorum of the weights exactly if these do not reach the threshold just so at the
remainder 2. -/
theorem authorized_quorum_iff (hR : R.KeepsVotes) {objects objects' : ProposalObjects A W}
    (hvotes : Fair objects) {n : ℕ} {ops : List (Operation A)}
    (hrun : (Outcome.forEach (R.applyOperation left n) ops ⟨objects, []⟩).state.now = objects')
    (weight : Address → ℕ) :
    (∀ p ∈ objects'.proposals, p.isAuthorizedToExecute weight = true →
      (p.type = .committee → Quorum (fun _ => 1) p.requiredAccountApprovals
        p.approvedKeyApprovals p.disapprovedKeyApprovals) ∧
      (p.type = .witness ∨ p.type = .worker →
        (Quorum weight p.requiredAccountApprovals p.approvedKeyApprovals
          p.disapprovedKeyApprovals ↔
        ¬ Short weight p.requiredAccountApprovals p.approvedKeyApprovals))) ∧
    ∀ r ∈ objects'.referendums, r.isAuthorizedToExecute weight = true →
      (Quorum weight r.requiredAccountApprovals r.approvedKeyApprovals
        r.disapprovedKeyApprovals ↔
      ¬ Short weight r.requiredAccountApprovals r.approvedKeyApprovals) := by
  have hfair : Fair objects' :=
    hrun ▸ Keeps.forEach (applyOperation_keeps hR n) ops ⟨objects, []⟩ hvotes
  refine ⟨fun p hp h => ?_, fun r hr h => ?_⟩
  · have hcounted := hfair.proposals p hp
    unfold ProposalObject.isAuthorizedToExecute at h
    split at h
    next => exact absurd h Bool.false_ne_true
    next =>
      refine ⟨fun htype => ?_, fun htype => ?_⟩
      · rw [htype] at h
        exact quorum_of_card hcounted (of_decide_eq_true h)
      · refine quorum_iff_of_outweighs hcounted ?_
        obtain htype | htype := htype <;> rw [htype] at h <;> exact h
  · have hcounted := hfair.referendums r hr
    unfold ReferendumObject.isAuthorizedToExecute at h
    split at h
    next => exact absurd h Bool.false_ne_true
    next => exact quorum_iff_of_outweighs hcounted h

end ProposalRules

/-! ### Half of the weight -/

/-- A proposal of the addresses 7 and 8, which are miners. -/
def minersProposal : ProposalObject (Option ℕ) :=
  ⟨1, 20, none, [], ∅, ∅, ∅, ∅, {7, 8}, .witness, false⟩

theorem keepsVotes_counterRules : counterRules.KeepsVotes where
  evaluate a objects h := by
    cases a with
    | none => exact h
    | some k => exact ⟨h.proposals, h.referendums⟩
  payFee _ _ h := h
  rollbackVotes _ _ h := h
  rollbackReferendum _ _ h := h
  enter _ _ h := h

theorem fair_minersProposal : Fair ⟨0, [minersProposal], []⟩ (W := ℕ) where
  proposals p hp := List.mem_singleton.mp hp ▸ counted_empty _
  referendums r hr := by cases hr

/-- The proposal after the approval of the address 7. -/
def minersProposal7 : ProposalObject (Option ℕ) :=
  minersProposal.vote ⟨1, [], [], [], [], [7], []⟩

theorem mem_minersProposal7 : minersProposal7 ∈
    (Outcome.forEach (counterRules.applyOperation left 3) [approval]
      ⟨⟨0, [minersProposal], []⟩, []⟩).state.now.proposals := by
  decide +kernel

theorem authorized_quorum_iff_five :
    minersProposal7.isAuthorizedToExecute (fun a => if a = 7 then 5 else 1) = true ∧
      Quorum (fun a => if a = 7 then 5 else 1) minersProposal7.requiredAccountApprovals
        minersProposal7.approvedKeyApprovals minersProposal7.disapprovedKeyApprovals := by
  have hauthorized :
      minersProposal7.isAuthorizedToExecute (fun a => if a = 7 then 5 else 1) = true := by
    decide +kernel
  have hreport := (ProposalRules.authorized_quorum_iff keepsVotes_counterRules fair_minersProposal
    rfl _).1 minersProposal7 mem_minersProposal7 hauthorized
  exact ⟨hauthorized, (hreport.2 (.inl rfl)).mpr (by unfold Short; decide +kernel)⟩

/-- **Half of the weight is enough.** Two miners of weight 1, of which one approves. -/
theorem half_authorized :
    minersProposal7 ∈ (Outcome.forEach (counterRules.applyOperation left 3) [approval]
        ⟨⟨0, [minersProposal], []⟩, []⟩).state.now.proposals ∧
      minersProposal7.isAuthorizedToExecute (fun _ => 1) = true ∧
      ¬ Quorum (fun _ => 1) minersProposal7.requiredAccountApprovals
        minersProposal7.approvedKeyApprovals minersProposal7.disapprovedKeyApprovals := by
  refine ⟨mem_minersProposal7, by decide +kernel, ?_⟩
  rintro ⟨-, -, hweight⟩
  revert hweight
  decide +kernel

end Whitecoin.Chain
