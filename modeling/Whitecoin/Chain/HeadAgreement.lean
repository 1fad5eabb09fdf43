import Whitecoin.Chain.Switch

/-!
# The heads of the fork database and of the chain

The head of the fork database should be the chain's head block, and be in the index. `push_block` of
the fork database raises its head before the block has been applied, and `pop_block` moves it down
along whatever branch it is on, so the two heads part in several ways:

* a block that is rejected on top of the head is removed from the index but stays the fork head;
* in a switch the old branch is popped with the fork head on the new branch. It ends just above the
  fork point, and applying the new branch does not raise it again;
* in a failed switch the fork head is set to the old head and then goes down by one for every block
  of the new branch that had been applied.

They stay together along a run in which every block that is higher than the head either extends it
and is accepted or starts a switch that fails at its first block.
-/

namespace Whitecoin.Chain

namespace Database

variable {B Id S : Type} [DecidableEq Id] (R : ChainRules B Id S)

/-- The head of the fork database is in its index and is the head block of the chain. -/
def Agrees (d : Database B Id S) : Prop :=
  ∃ x ∈ d.fork.head, x ∈ d.fork.index ∧ R.id x.data = R.headId d.state

instance [DecidableEq B] (d : Database B Id S) : Decidable (d.Agrees R) :=
  inferInstanceAs (Decidable (∃ x ∈ d.fork.head, _))

/-- A block that becomes the head of the fork database is new, on top of the head and accepted, or
starts a switch that gets to the fork point and fails at the first block of the new branch. -/
def KeepsHead (d : Database B Id S) (b : B) : Prop :=
  ∀ p ∈ (d.fork.pushBlock R.toBlockIds b).toOption,
    R.numFromId (R.headId d.state) < p.2.num R.toBlockIds →
    if R.previous p.2.data = R.headId d.state then
      d.fork.fetchBlock R.toBlockIds (R.id b) = none ∧ (R.apply b d.state).isSome = true
    else
      ∃ q ∈ p.1.fetchBranchFrom R.toBlockIds [p.2] (R.id p.2.data) (R.headId d.state),
        q.2.length ≤ d.history.length ∧
        p.1.HasAncestors (p.2 :: (q.1 ++ q.2)) q.2.length p.2 ∧
        accepted R q.1.reverse (((d.state :: d.history)[q.2.length]?).getD d.state) = 0

instance (d : Database B Id S) (b : B) : Decidable (d.KeepsHead R b) :=
  inferInstanceAs (Decidable (∀ p ∈ (d.fork.pushBlock R.toBlockIds b).toOption, _ → _))

/-- The condition for each block of a run. -/
def KeepsHeadRun : Database B Id S → List B → Prop
  | _, [] => True
  | d, b :: bs => d.KeepsHead R b ∧ KeepsHeadRun (d.pushBlock R false b).state bs

instance decidableKeepsHeadRun : ∀ (bs : List B) (d : Database B Id S),
    Decidable (d.KeepsHeadRun R bs)
  | [], _ => .isTrue trivial
  | b :: bs, d =>
    have := decidableKeepsHeadRun bs (d.pushBlock R false b).state
    inferInstanceAs (Decidable (d.KeepsHead R b ∧ KeepsHeadRun R (d.pushBlock R false b).state bs))

variable {R}

/-! ### One block -/

section Step

variable {d : Database B Id S} {b : B}

theorem KeepsHead.longEnough (h : d.KeepsHead R b) : d.LongEnough R b := by
  intro p hp hprev hnum q hq
  have hkeep := h p hp hnum
  rw [if_neg hprev] at hkeep
  obtain ⟨q', hq', hlen, -⟩ := hkeep
  obtain rfl : q = q' := Option.some_inj.1 ((Option.mem_def.1 hq).symm.trans hq')
  exact hlen

theorem mem_without : ∀ (rest : List (ForkItem B)) {f : ForkDatabase B} {y : ForkItem B},
    y ∈ f.index → (∀ z ∈ rest, R.id y.data ≠ R.id z.data) → y ∈ (without R rest f).index
  | [], _, _, hy, _ => hy
  | z :: rest, f, y, hy, hne => by
    refine mem_without rest (f := f.remove R.toBlockIds (R.id z.data)) ?_
      fun w hw => hne w (List.mem_cons_of_mem _ hw)
    exact List.mem_filter.2 ⟨hy, by simpa using hne z List.mem_cons_self⟩

/-- The block that is applied first on the new branch is not the old head, if it is rejected. -/
theorem Leaving.id_ne {f : ForkDatabase B} {x old : ForkItem B}
    {first older : List (ForkItem B)} {t : S} (h : Leaving R d f x first (old :: older) t)
    (hacc : accepted R first.reverse t = 0) : ∀ z ∈ first, R.id old.data ≠ R.id z.data := by
  intro z hz hid
  have ha := h.applied
  rw [List.map_cons] at ha
  obtain ⟨u, us, hhist, happ, -⟩ := ha.exists_cons
  obtain ⟨hone, hlast⟩ := h.branches.apart z hz (by rw [← hid, R.apply_head happ])
  obtain rfl : older = [] := by simpa using hone
  obtain rfl : u = t := by simpa [hhist] using h.base
  -- the old head was applied at the fork point, so it would not be rejected now
  have hdata : z.data = old.data := R.id_injective hid.symm
  have hhead : first.reverse.head? = some z := by rw [List.head?_reverse, hlast]
  rcases hrev : first.reverse with _ | ⟨w, rest⟩
  · simp [hrev] at hhead
  · obtain rfl : w = z := by simpa [hrev] using hhead
    rw [hrev, accepted, hdata, happ] at hacc
    simp at hacc

theorem Leaving.agrees {f : ForkDatabase B} {x : ForkItem B} {first second : List (ForkItem B)}
    {t : S} (h : Leaving R d f x first second t)
    (hfetch : f.fetchBranchFrom R.toBlockIds [x] (R.id x.data) (R.headId d.state) =
      some (first, second))
    (hanc : f.HasAncestors (x :: (first ++ second)) second.length x)
    (hacc : accepted R first.reverse t = 0) :
    Agrees R (switchTo R x { d with fork := f }).state := by
  obtain ⟨old, older, rfl, hold⟩ := h.branches.second_top
  obtain ⟨y, tail, hfirst, -⟩ := h.branches.first_top
  obtain ⟨d₂, d₃, done, rest, hpop, hrun, hdone, hfail⟩ := h.exists_failed hanc
  obtain rfl : done = [] := List.length_eq_zero_iff.1 (hdone.symm.trans hacc)
  have hrest : first.reverse = rest := by simpa using hfail.split
  obtain ⟨r, rest, rfl⟩ : ∃ r rest', rest = r :: rest' :=
    List.exists_cons_of_ne_nil (by rw [← hrest, hfirst]; simp)
  have hrec := hfail.recover_eq_threw (x :: (first ++ old :: older)) (y := old) rfl
  obtain ⟨hmem, hid⟩ := ForkDatabase.fetchBlock_mem hold
  simp only [switchTo, hfetch, hpop, Outcome.bind_ok, hrun, hrec, Outcome.state_threw]
  refine ⟨old, rfl, mem_without _ hmem fun z hz => h.id_ne hacc z ?_, hid⟩
  rw [← List.mem_reverse, hrest]
  exact hz

/-- **One block.** -/
theorem Agrees.pushBlock (h : d.Agrees R) (hwf : d.WellFormed R) (hkeep : d.KeepsHead R b) :
    Agrees R (d.pushBlock R false b).state := by
  obtain ⟨x₀, hhead, hmem, hid⟩ := h
  have hnum₀ : x₀.num R.toBlockIds = R.numFromId (R.headId d.state) := by rw [ForkItem.num, hid]
  simp only [Database.pushBlock, Bool.false_eq_true, if_false]
  rcases hpush : d.fork.pushBlock R.toBlockIds b with e | ⟨f, x⟩
  · exact ⟨x₀, hhead, hmem, hid⟩
  dsimp only
  rcases ForkDatabase.pushBlock_cases hpush with
    ⟨hnone, -⟩ | ⟨head, prev, hsome, -, -, hcases⟩
  · simp [hnone] at hhead
  obtain rfl : head = x₀ := Option.some_inj.1 (hsome.symm.trans hhead)
  rcases hcases with ⟨hlt, hx, hf⟩ | ⟨-, rfl, hf⟩
  · -- the block becomes the head of the fork database
    have hnum : R.numFromId (R.headId d.state) < x.num R.toBlockIds := by
      rw [hx, ← hnum₀]
      exact hlt
    have hkeep' := hkeep (f, x) (by rw [hpush]; rfl) hnum
    by_cases hprev : R.previous x.data = R.headId d.state
    · rw [if_pos hprev] at hkeep' ⊢
      obtain ⟨s, hs⟩ := Option.isSome_iff_exists.1 hkeep'.2
      rw [extend, applyBlock_of_apply (d := { d with fork := f }) hs]
      refine ⟨x, ?_, ?_, ?_⟩
      · rw [Outcome.state_ok, hf]
        rfl
      · rw [Outcome.state_ok, hf]
        exact ForkDatabase.mem_raise_insert (by rw [hx]; exact hkeep'.1)
      · rw [Outcome.state_ok, R.apply_head hs, hx]
    · rw [if_neg hprev] at hkeep' ⊢
      rw [if_pos hnum]
      obtain ⟨⟨first, second⟩, hfetch, -, hanc, hacc⟩ := hkeep'
      obtain ⟨t, hleave⟩ := exists_leaving hwf hkeep.longEnough hpush hprev hnum hfetch
      have hbase : (d.state :: d.history)[second.length]? = some t := by simpa using hleave.base
      rw [hbase] at hacc
      exact hleave.agrees hfetch hanc hacc
  · -- the head stays
    have hprev : R.previous x.data ≠ R.headId d.state := by
      intro heq
      have := R.num_id x.data
      rw [heq, hid] at this
      omega
    rw [if_neg hprev, if_neg (by omega), hf]
    exact ⟨x, hhead, ForkDatabase.mem_insert hmem, hid⟩

end Step

/-! ### Runs -/

/-- **The heads agree in every state of a run under the condition.** -/
theorem agrees_run (d : Database B Id S) (bs : List B) (hwf : d.WellFormed R) (h : d.Agrees R)
    (hkeep : d.KeepsHeadRun R bs) : ∀ pre, pre <+: bs → (d.run R pre).Agrees R := by
  induction bs generalizing d with
  | nil =>
    intro pre hpre
    rw [List.prefix_nil.1 hpre]
    exact h
  | cons b bs ih =>
    intro pre hpre
    rcases pre with _ | ⟨c, pre⟩
    · exact h
    · obtain ⟨rfl, hpre'⟩ := List.cons_prefix_cons.1 hpre
      exact ih _ (hwf.pushBlock false hkeep.1.longEnough) (h.pushBlock hwf hkeep.1) hkeep.2 pre hpre'

theorem agrees_run_paths :
    (run pathRules (run pathRules genesis [⟨1, []⟩])
      [⟨2, [1]⟩, ⟨0, [1]⟩, ⟨3, [0, 1]⟩, ⟨4, [2, 1]⟩]).Agrees pathRules :=
  agrees_run _ [⟨2, [1]⟩, ⟨0, [1]⟩, ⟨3, [0, 1]⟩, ⟨4, [2, 1]⟩]
    (wellFormed_genesis.run (by decide +kernel)) (by decide +kernel) (by decide +kernel) _
    List.prefix_rfl

end Database

/-- **The heads part** when a block is rejected on top of the head, when a switch is completed, and
when a switch fails after a block of the new branch. -/
theorem heads_part : ∃ d : Database PathBlock (List ℕ) (List ℕ),
    d.WellFormed pathRules ∧ d.Agrees pathRules ∧
      ¬ (d.run pathRules [⟨0, [1]⟩]).Agrees pathRules ∧
      ¬ (d.run pathRules [⟨2, [1]⟩, ⟨3, [1]⟩, ⟨4, [3, 1]⟩]).Agrees pathRules ∧
      ¬ (d.run pathRules [⟨2, [1]⟩, ⟨3, [1]⟩, ⟨0, [3, 1]⟩]).Agrees pathRules :=
  ⟨genesis.run pathRules [⟨1, []⟩], wellFormed_genesis.run (by decide +kernel),
    by decide +kernel, by decide +kernel, by decide +kernel, by decide +kernel⟩

end Whitecoin.Chain
