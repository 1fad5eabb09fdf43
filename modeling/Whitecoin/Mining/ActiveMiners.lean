import Whitecoin.Mining.Schedule
import Mathlib.Data.Finset.Card

/-!
# The active miners

At every maintenance the miners with a large enough weight become active. The miners are sorted by
weight, the largest first; a loop counts how many of them reach the line, and as many are taken, but
not fewer than 25. If there are fewer miners than that, the list is filled up with the first one,
which makes no difference for a set.

The loop counts a miner before it compares its weight. So it also counts the first one below the
line, and if 25 miners or more reach the line and another one does not, one too many becomes active.

`std::sort` may leave miners of the same weight in any order. What is said here is about every order
that it may produce.
-/

namespace Whitecoin.Mining

open Check

/-! ### The functions -/

/-- `GRAPHENE_MIN_PLEDGE_WEIGHT_LINE`. -/
def minPledgeWeightLine : ℕ := 50

/-- The line, after its lower bound. -/
def pledgeLine (minPledge : ℕ) : ℕ := max minPledge minPledgeWeightLine

/-- The loop that counts. -/
def countPledged (weight : MinerId → ℕ) (line : ℕ) : List MinerId → ℕ
  | [] => 0
  | m :: refs => if weight m < line then 1 else countPledged weight line refs + 1

/-- `vector::resize`, with the value for new elements. -/
def resize {α : Type} (l : List α) (count : ℕ) (a : α) : List α :=
  l.take count ++ List.replicate (count - l.length) a

/-- `database::sort_pledge_objects`, from the miners as `std::sort` left them. There is no first
element of an empty vector. -/
def sortPledgeObjects (weight : MinerId → ℕ) (minPledge : ℕ) (refs : List MinerId) :
    Except String (List MinerId) := do
  let count := countPledged weight (pledgeLine minPledge) refs
  let front ← found refs.head? "front of an empty vector"
  return resize refs (max count productPerRound) front

/-- `database::update_active_miners`. -/
def updateActiveMiners (weight : MinerId → ℕ) (minPledge : ℕ) (refs : List MinerId) :
    Except String (Finset MinerId) := do
  return (← sortPledgeObjects weight minPledge refs).toFinset

/-! ### What they are for -/

/-- The miners, sorted by weight. -/
structure Ranked (weight : MinerId → ℕ) (miners refs : List MinerId) : Prop where
  perm : refs.Perm miners
  sorted : refs.Pairwise fun a b => weight b ≤ weight a

/-- The miners that reach the line. -/
def reaching (weight : MinerId → ℕ) (line : ℕ) (miners : List MinerId) : List MinerId :=
  miners.filter fun m => line ≤ weight m

/-- The miners that should be active: those that reach the line, if they are enough for a round, and
otherwise as many as a round needs, or all, with the largest weights. -/
def Selected (weight : MinerId → ℕ) (line : ℕ) (miners : List MinerId) (S : Finset MinerId) :
    Prop :=
  if productPerRound ≤ (reaching weight line miners).length then
    S = (reaching weight line miners).toFinset
  else
    S ⊆ miners.toFinset ∧ S.card = min productPerRound miners.length ∧
      ∀ m ∈ S, ∀ m' ∈ miners, m' ∉ S → weight m' ≤ weight m

/-! ### What the loop counts -/

variable {weight : MinerId → ℕ} {miners refs : List MinerId}

theorem take_reaching (h : refs.Pairwise fun a b => weight b ≤ weight a) (line : ℕ) :
    refs.take (reaching weight line refs).length = reaching weight line refs := by
  induction refs with
  | nil => rfl
  | cons m refs ih =>
    obtain ⟨hm, hrefs⟩ := List.pairwise_cons.mp h
    by_cases hline : line ≤ weight m
    · rw [reaching, List.filter_cons_of_pos (by simpa using hline), List.length_cons,
        List.take_succ_cons]
      exact congrArg _ (ih hrefs)
    · have hnone : reaching weight line (m :: refs) = [] := by
        rw [reaching, List.filter_cons_of_neg (by simpa using hline), List.filter_eq_nil_iff]
        intro m' hm' hle
        exact hline ((of_decide_eq_true hle).trans (hm m' hm'))
      rw [hnone]
      rfl

/-- **The loop counts those that reach the line, and the next one.** -/
theorem countPledged_eq (h : refs.Pairwise fun a b => weight b ≤ weight a) (line : ℕ) :
    countPledged weight line refs =
      min ((reaching weight line refs).length + 1) refs.length := by
  induction refs with
  | nil => rfl
  | cons m refs ih =>
    obtain ⟨hm, hrefs⟩ := List.pairwise_cons.mp h
    rw [countPledged]
    split
    next hlt =>
      have hnone : reaching weight line (m :: refs) = [] := by
        rw [reaching, List.filter_cons_of_neg (by simpa using hlt), List.filter_eq_nil_iff]
        intro m' hm' hle
        exact Nat.not_le.mpr hlt ((of_decide_eq_true hle).trans (hm m' hm'))
      rw [hnone, List.length_nil, List.length_cons]
      omega
    next hle =>
      rw [ih hrefs, reaching, reaching, List.filter_cons_of_pos (by simpa using hle),
        List.length_cons, List.length_cons]
      omega

/-! ### The miners that become active -/

namespace Ranked

theorem length_reaching (h : Ranked weight miners refs) (line : ℕ) :
    (reaching weight line refs).length = (reaching weight line miners).length :=
  (h.perm.filter _).length_eq

theorem toFinset_take (h : Ranked weight miners refs) (line : ℕ) :
    (refs.take (reaching weight line miners).length).toFinset =
      (reaching weight line miners).toFinset := by
  rw [← h.length_reaching, take_reaching h.sorted]
  exact List.toFinset_eq_of_perm _ _ (h.perm.filter _)

theorem card_take (h : Ranked weight miners refs) (hnodup : miners.Nodup) (n : ℕ) :
    (refs.take n).toFinset.card = min n miners.length := by
  have hrefs : refs.Nodup := h.perm.nodup_iff.mpr hnodup
  rw [List.toFinset_card_of_nodup (hrefs.sublist (List.take_sublist ..)), List.length_take,
    h.perm.length_eq]

theorem weight_le (h : Ranked weight miners refs) (n : ℕ) {m m' : MinerId} (hm : m ∈ refs.take n)
    (hm' : m' ∈ miners) (hnot : m' ∉ refs.take n) : weight m' ≤ weight m := by
  have hsorted := h.sorted
  rw [← List.take_append_drop n refs] at hsorted
  have hdrop : m' ∈ refs.drop n := by
    have hmem := h.perm.mem_iff.mpr hm'
    rw [← List.take_append_drop n refs] at hmem
    exact (List.mem_append.mp hmem).resolve_left hnot
  exact (List.pairwise_append.mp hsorted).2.2 m hm m' hdrop

theorem updateActiveMiners_eq (h : Ranked weight miners refs) (hne : miners ≠ [])
    (minPledge : ℕ) :
    updateActiveMiners weight minPledge refs = .ok (refs.take (max
      (min ((reaching weight (pledgeLine minPledge) miners).length + 1) miners.length)
      productPerRound)).toFinset := by
  obtain ⟨front, rest, rfl⟩ : ∃ front rest, refs = front :: rest := by
    cases refs with
    | nil => exact absurd h.perm.nil_eq hne.symm
    | cons front rest => exact ⟨front, rest, rfl⟩
  rw [updateActiveMiners, sortPledgeObjects, countPledged_eq h.sorted, h.length_reaching,
    h.perm.length_eq]
  refine congrArg Except.ok (Finset.ext fun m => ?_)
  simp only [resize, List.mem_toFinset, List.mem_append, List.mem_replicate]
  refine or_iff_left_of_imp ?_
  -- what it is filled up with is there already
  rintro ⟨-, rfl⟩
  obtain ⟨n, hn⟩ : ∃ n, max (min ((reaching weight (pledgeLine minPledge)
      miners).length + 1) miners.length) productPerRound = n + 1 :=
    ⟨_, (Nat.succ_pred_eq_of_pos (Nat.lt_of_lt_of_le (by decide) (Nat.le_max_right ..))).symm⟩
  rw [hn, List.take_succ_cons]
  exact List.mem_cons_self ..

end Ranked

/-- **The right miners become active, unless a round is full and some miner is below the line.** -/
theorem active_miners_iff (hnodup : miners.Nodup) (h : Ranked weight miners refs)
    (minPledge : ℕ) :
    (∃ S, updateActiveMiners weight minPledge refs = .ok S ∧
      Selected weight (pledgeLine minPledge) miners S) ↔
      miners ≠ [] ∧
        ((reaching weight (pledgeLine minPledge) miners).length < productPerRound ∨
          (reaching weight (pledgeLine minPledge) miners).length = miners.length) := by
  have hle : (reaching weight (pledgeLine minPledge) miners).length ≤ miners.length :=
    List.length_filter_le ..
  by_cases hne : miners = []
  · subst hne
    obtain rfl := h.perm.eq_nil
    refine ⟨?_, fun hcond => absurd rfl hcond.1⟩
    rintro ⟨S, hS, -⟩
    cases hS
  have heq := h.updateActiveMiners_eq hne minPledge
  generalize pledgeLine minPledge = line at *
  constructor
  · rintro ⟨S, hS, hselected⟩
    obtain rfl := Except.ok.inj (heq.symm.trans hS)
    refine ⟨hne, ?_⟩
    by_contra hcond
    obtain ⟨hfull, hsome⟩ := not_or.mp hcond
    rw [Selected, if_pos (by omega), ← h.toFinset_take] at hselected
    have hcard := congrArg Finset.card hselected
    rw [h.card_take hnodup, h.card_take hnodup] at hcard
    omega
  · rintro ⟨-, hcond⟩
    refine ⟨_, heq, ?_⟩
    unfold Selected
    split
    next hfull =>
      have hall : (reaching weight line miners).length = miners.length :=
        hcond.resolve_left (by omega)
      rw [show max (min ((reaching weight line miners).length + 1) miners.length) productPerRound =
        (reaching weight line miners).length by omega, h.toFinset_take]
    next hfew =>
      rw [show max (min ((reaching weight line miners).length + 1) miners.length) productPerRound =
        productPerRound by omega]
      refine ⟨fun m hm => ?_, h.card_take hnodup _, fun m hm m' hm' hnot => ?_⟩
      · exact List.mem_toFinset.mpr
          (h.perm.mem_iff.mp (List.mem_of_mem_take (List.mem_toFinset.mp hm)))
      · exact h.weight_le _ (List.mem_toFinset.mp hm) hm' (mt List.mem_toFinset.mpr hnot)

/-- Thirty miners, the first ones with the larger weights. -/
def falling (m : MinerId) : ℕ := 100 - m

theorem ranked_falling : Ranked falling (List.range 30) (List.range 30) := by
  refine ⟨.refl _, List.pairwise_lt_range.imp ?_⟩
  intro a b hab
  unfold falling
  omega

theorem active_miners_iff_falling :
    ∃ S, updateActiveMiners falling 80 (List.range 30) = .ok S ∧
      Selected falling (pledgeLine 80) (List.range 30) S :=
  (active_miners_iff List.nodup_range ranked_falling 80).mpr
    ⟨by decide, .inl (by decide)⟩

/-- **One miner too many.** Twenty-six miners reach the line of 75; the twenty-seventh, with a
weight of 74, becomes active too. -/
theorem miner_below_line :
    Ranked falling (List.range 30) (List.range 30) ∧
      (updateActiveMiners falling 75 (List.range 30)).map (fun S => (S.card, decide (26 ∈ S))) =
        .ok (27, true) ∧
      (reaching falling 75 (List.range 30)).length = 26 ∧ falling 26 < 75 :=
  ⟨ranked_falling, by decide +kernel, by decide, by decide⟩

end Whitecoin.Mining
