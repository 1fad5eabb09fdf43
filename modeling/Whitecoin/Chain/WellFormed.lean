import Whitecoin.Chain.PushBlock

/-!
# What holds of the database between two blocks

A chain database is well formed if the states of its history come from applying blocks that are in
the block store, no block above the head is stored, and the pointers of the fork database lead to
previous blocks. Every call of `_push_block` keeps it well formed, whether it returns or throws and
wherever it throws, provided the undo history reaches back to the fork point of a switch. So this is
what may be assumed of the database when a block arrives.
-/

namespace Whitecoin.Chain

namespace Database

variable {B Id S : Type} [DecidableEq Id] (R : ChainRules B Id S)

/-- Each state of the history comes from applying a block to the one before, and these blocks are in
the store; no block above the head is. -/
structure Recorded (d : Database B Id S) : Prop where
  built : ∃ bs, bs.length = d.history.length ∧ Applied R d.state bs d.history ∧
    ∀ b ∈ bs, d.store.Holds R.toBlockIds b
  above : ∀ n, R.numFromId (R.headId d.state) < n → (d.store.entries n).block = none
  tight : ∀ n, d.store.length ≤ n → (d.store.entries n).block = none

/-- A database as the program leaves it. -/
structure WellFormed (d : Database B Id S) : Prop extends Recorded R d where
  sound : d.fork.Sound R.toBlockIds

/-- The undo history reaches back to the fork point of a switch. -/
def LongEnough (d : Database B Id S) (b : B) : Prop :=
  ∀ p ∈ (d.fork.pushBlock R.toBlockIds b).toOption,
    R.previous p.2.data ≠ R.headId d.state →
    R.numFromId (R.headId d.state) < p.2.num R.toBlockIds →
    ∀ q ∈ p.1.fetchBranchFrom R.toBlockIds [p.2] (R.id p.2.data) (R.headId d.state),
      q.2.length ≤ d.history.length

instance (d : Database B Id S) (b : B) : Decidable (d.LongEnough R b) :=
  inferInstanceAs (Decidable (∀ p ∈ (d.fork.pushBlock R.toBlockIds b).toOption, _ → _ → _))

/-- Push blocks one after the other; the node goes on after a block that was refused. -/
def run (d : Database B Id S) (bs : List B) : Database B Id S :=
  bs.foldl (fun d b => (d.pushBlock R false b).state) d

/-- The undo history is long enough for each of these blocks. -/
def LongEnoughRun : Database B Id S → List B → Prop
  | _, [] => True
  | d, b :: bs => d.LongEnough R b ∧ LongEnoughRun (d.pushBlock R false b).state bs

instance decidableLongEnoughRun : ∀ (bs : List B) (d : Database B Id S),
    Decidable (d.LongEnoughRun R bs)
  | [], _ => .isTrue trivial
  | b :: bs, d =>
    have := decidableLongEnoughRun bs (d.pushBlock R false b).state
    inferInstanceAs (Decidable (d.LongEnough R b ∧ LongEnoughRun R (d.pushBlock R false b).state bs))

variable {R}

/-! ### The branch that is left -/

omit [DecidableEq Id] in
theorem data_eq_of_linked : ∀ {second : List (ForkItem B)} {s : S} {bs : List B} {h : List S},
    ForkDatabase.Linked R.toBlockIds second → (∀ y ∈ second.head?, R.id y.data = R.headId s) →
    Applied R s bs h → second.length ≤ bs.length →
    second.map (·.data) = bs.take second.length
  | [], _, _, _, _, _, _, _ => rfl
  | y :: second, s, [], h, _, _, _, hlen => by simp at hlen
  | y :: second, s, b :: bs, h, hlinked, htop, ha, hlen => by
    obtain ⟨t, ts, rfl, happ, ha'⟩ := ha.exists_cons
    have hy : R.id y.data = R.headId s := htop y (by simp)
    obtain rfl : y.data = b := R.id_injective (hy.trans (R.apply_head happ))
    have htop' : ∀ z ∈ second.head?, R.id z.data = R.headId t := by
      intro z hz
      rcases second with _ | ⟨w, second⟩
      · simp at hz
      · obtain rfl : w = z := by simpa using hz
        rw [R.apply_previous happ]
        exact (List.isChain_cons_cons.1 hlinked).1
    have hlinked' : ForkDatabase.Linked R.toBlockIds second := hlinked.tail
    rw [List.map_cons, List.length_cons, List.take_succ_cons,
      data_eq_of_linked hlinked' htop' ha' (by simpa using hlen)]

omit [DecidableEq Id] in
theorem forkPoint_eq : ∀ {second : List (ForkItem B)} {s t : S} {h : List S}, second ≠ [] →
    Applied R s (second.map (·.data)) h → (s :: h)[second.length]? = some t →
    forkPoint R second = R.headId t
  | [y], s, t, h, _, ha, ht => by
    obtain ⟨u, us, rfl, happ, -⟩ := ha.exists_cons
    obtain rfl : u = t := by simpa using ht
    exact (R.apply_previous happ).symm
  | y :: z :: second, s, t, h, _, ha, ht => by
    rw [List.map_cons] at ha
    obtain ⟨u, us, rfl, happ, ha'⟩ := ha.exists_cons
    have hih : forkPoint R (z :: second) = R.headId t :=
      forkPoint_eq (by simp) ha' (by simpa using ht)
    rw [← hih, forkPoint, forkPoint, List.getLast?_cons_cons]

/-- The situation of a switch: the branch to be left consists of the newest blocks of the chain, and
`t` is the state at the fork point. -/
structure Leaving (R : ChainRules B Id S) (d : Database B Id S) (f : ForkDatabase B)
    (x : ForkItem B) (first second : List (ForkItem B)) (t : S) : Prop where
  wf : d.WellFormed R
  head : f.head = some x
  branches : ForkDatabase.Branches R.toBlockIds f [x] (R.id x.data) (R.headId d.state) first second
  applied : Applied R d.state (second.map (·.data)) d.history
  holds : ∀ b ∈ second.map (·.data), d.store.Holds R.toBlockIds b
  base : (d.state :: d.history)[(second.map (·.data)).length]? = some t
  point : forkPoint R second = R.headId t

theorem exists_leaving {d : Database B Id S} {b : B} {f : ForkDatabase B} {x : ForkItem B}
    {first second : List (ForkItem B)} (hwf : d.WellFormed R) (hlong : d.LongEnough R b)
    (hpush : d.fork.pushBlock R.toBlockIds b = .ok (f, x))
    (hprev : R.previous x.data ≠ R.headId d.state)
    (hnum : R.numFromId (R.headId d.state) < x.num R.toBlockIds)
    (hfetch : f.fetchBranchFrom R.toBlockIds [x] (R.id x.data) (R.headId d.state) =
      some (first, second)) : ∃ t, Leaving R d f x first second t := by
  have hhead := ForkDatabase.head_pushBlock hpush
  have hsound := hwf.sound.pushBlock hpush
  have hlinks : LinksOk R.toBlockIds ([x] ++ f.index ++ f.itemsRead) := by
    refine hsound.links.mono fun z hz => ?_
    simpa [ForkDatabase.strong, hhead] using hz
  have hbr := ForkDatabase.fetchBranchFrom_spec hlinks hnum hfetch
  obtain ⟨bs, hlen, ha, hholds⟩ := hwf.built
  obtain ⟨y, rest, hsecond, hy⟩ := hbr.second_top
  have htop : ∀ z ∈ second.head?, R.id z.data = R.headId d.state := by
    intro z hz
    obtain rfl : y = z := by simpa [hsecond] using hz
    exact (ForkDatabase.fetchBlock_mem hy).2
  have hle : second.length ≤ bs.length := by
    rw [hlen]
    exact hlong (f, x) (by rw [hpush]; rfl) hprev hnum (first, second) hfetch
  have hdata := data_eq_of_linked hbr.second_linked htop ha hle
  have ha' : Applied R d.state (second.map (·.data)) d.history := hdata ▸ ha.take _
  obtain ⟨t, ht, -⟩ := ha'.exists_base
  refine ⟨t, hwf, hhead, hbr, ha', fun c hc => hholds c ?_, ht, ?_⟩
  · rw [hdata] at hc
    exact List.mem_of_mem_take hc
  · exact forkPoint_eq (by simp [hsecond]) ha' (by simpa using ht)

namespace Leaving

variable {d : Database B Id S} {f : ForkDatabase B} {x : ForkItem B}
  {first second : List (ForkItem B)} {t : S}

theorem num_head (h : Leaving R d f x first second t) :
    R.numFromId (R.headId t) + second.length = R.numFromId (R.headId d.state) := by
  obtain ⟨t', ht', hnum⟩ := h.applied.exists_base
  obtain rfl : t = t' := Option.some_inj.1 (h.base.symm.trans ht')
  simpa using hnum


end Leaving

/-! ### One block -/

namespace Recorded

variable {d d' : Database B Id S} {b : B}

omit [DecidableEq Id] in
theorem applyBlock (h : d.Recorded R) (happ : d.applyBlock R b = .ok d') : d'.Recorded R := by
  obtain ⟨hstate, hhist, hstore, -⟩ := applyBlock_eq_ok happ
  obtain ⟨bs, hlen, ha, hholds⟩ := h.built
  have hnum := R.num_of_apply hstate
  refine ⟨⟨b :: bs, by simp [hhist, hlen], ?_, ?_⟩, ?_, ?_⟩
  · rw [hhist]
    exact ⟨hstate, ha⟩
  · intro c hc
    rw [hstore]
    rcases List.mem_cons.1 hc with rfl | hc
    · exact BlockDatabase.holds_store ..
    · have := ha.num_le c hc
      exact (hholds c hc).store (by omega)
  · intro n hn
    rw [R.apply_head hstate] at hn
    rw [hstore, BlockDatabase.entries_store_of_ne (by omega)]
    exact h.above n (by omega)
  · intro n hn
    rw [hstore] at hn ⊢
    have hle : max d.store.length (R.numFromId (R.id b) + 1) ≤ n := hn
    rw [BlockDatabase.entries_store_of_ne (by omega)]
    exact h.tight n (by omega)

omit [DecidableEq Id] in
theorem erase {t : S} {ts : List S} {bs : List B} {f : ForkDatabase B} (h : d.Recorded R)
    (hhist : d.history = t :: ts) (hlen : bs.length = ts.length)
    (ha : Applied R d.state (b :: bs) d.history)
    (hholds : ∀ c ∈ b :: bs, d.store.Holds R.toBlockIds c) :
    Recorded R (⟨t, ts, erase R d.store b, f⟩ : Database B Id S) := by
  rw [hhist] at ha
  have happ := ha.1
  have hnum := R.num_of_apply happ
  refine ⟨⟨bs, hlen, ha.2, fun c hc => ?_⟩, ?_, ?_⟩
  · exact holds_erase (hholds c (List.mem_cons_of_mem _ hc)) (ha.num_lt c hc).ne
  · intro n hn
    have hlt : R.numFromId (R.headId t) < n := hn
    refine block_erase fun hb => h.above n ?_
    rw [R.apply_head happ]
    omega
  · exact fun n hn => block_erase fun _ => h.tight n hn

end Recorded

/-! ### All the blocks of a switch -/

/-- What holds throughout a switch: the fork point is still below, and no item is used but those
that were there when it began. -/
structure Kept (R : ChainRules B Id S) (f : ForkDatabase B) (target : Id)
    (d : Database B Id S) : Prop extends Recorded R d where
  within : f.Within d.fork
  reach : ∃ u ∈ d.state :: d.history, R.headId u = target

namespace Kept

variable {f : ForkDatabase B} {target : Id} {d d' : Database B Id S} {held : List (ForkItem B)}

theorem popBlock (h : Kept R f target d) (hheld : ∀ x ∈ held, x ∈ f.strong)
    (hne : R.headId d.state ≠ target) : Kept R f target (d.popBlock R held).state := by
  obtain ⟨u, hu, htarget⟩ := h.reach
  have hu' : u ∈ d.history := (List.mem_cons.1 hu).resolve_left fun heq => hne (heq ▸ htarget)
  obtain ⟨bs, hlen, ha, hholds⟩ := h.built
  rcases hhist : d.history with _ | ⟨t, ts⟩
  · simp [hhist] at hu'
  rcases bs with _ | ⟨b, bs⟩
  · simp [hhist] at hlen
  have ha' := ha
  rw [hhist] at ha'
  rcases popBlock_cases (R := R) held hhist ha'.1 (hholds b List.mem_cons_self) with
    ⟨e, he⟩ | ⟨y, hy, hok⟩
  · rw [he]
    exact h
  · rw [hok]
    refine ⟨h.toRecorded.erase hhist (by simpa [hhist] using hlen) ha hholds, ?_, ?_⟩
    · refine h.within.setHead ?_
      rcases List.mem_append.1 hy with hy | hy
      · rcases List.mem_append.1 hy with hy | hy
        · exact hheld y hy
        · exact h.within.2 y (by simp [ForkDatabase.strong, hy])
      · exact h.within.2 y (by simp [ForkDatabase.strong, hy])
    · exact ⟨u, hhist ▸ hu', htarget⟩

theorem popUntil (hheld : ∀ x ∈ held, x ∈ f.strong) : ∀ {n : ℕ} {d : Database B Id S},
    Kept R f target d → Kept R f target (d.popUntil R held target n).state
  | 0, _, h => h
  | n + 1, d, h => by
    rw [Database.popUntil]
    split
    · exact h
    · rename_i hne
      have hkept := h.popBlock hheld hne
      rcases hpop : d.popBlock R held with d' | ⟨e, d'⟩
      · rw [hpop] at hkept
        exact popUntil hheld hkept
      · rw [hpop] at hkept
        exact hkept

omit [DecidableEq Id] in
theorem applyBlock (h : Kept R f target d) (b : B) :
    Kept R f target (d.applyBlock R b).state := by
  rcases happ : d.applyBlock R b with d' | ⟨e, d'⟩
  · obtain ⟨-, hhist, -, hfork⟩ := applyBlock_eq_ok happ
    obtain ⟨u, hu, htarget⟩ := h.reach
    refine ⟨h.toRecorded.applyBlock happ, ?_, u, ?_, htarget⟩
    · rw [Outcome.state_ok, hfork]
      exact h.within
    · rw [Outcome.state_ok, hhist]
      exact List.mem_cons_of_mem _ hu
  · rw [Outcome.state_threw, applyBlock_threw happ]
    exact h

omit [DecidableEq Id] in
theorem forEach (items : List (ForkItem B)) (h : Kept R f target d) :
    Kept R f target
      (Outcome.forEach (fun x d => Database.applyBlock R x.data d) items d).state :=
  Outcome.forEach_state_induction (fun x _ _ hs => hs.applyBlock x.data) h

omit [DecidableEq Id] in
theorem applyBranch (items : List (ForkItem B)) (h : Kept R f target d) :
    Kept R f target (d.applyBranch R items).1 := by
  obtain ⟨done, rest, d', hrun, -, hall, -⟩ := applyBranch_spec (R := R) items d
  have hkept := h.forEach done
  rw [Outcome.forEach_map (Database.applyBlock R), hall] at hkept
  rw [hrun]
  exact hkept

theorem restore (h : Kept R f target d) (hheld : ∀ x ∈ held, x ∈ f.strong) (n : ℕ)
    (items : List (ForkItem B)) : Kept R f target ((d.popUntil R held target n).bind fun d =>
      (Outcome.forEach (fun x d => Database.applyBlock R x.data d) items d).bind fun d =>
        .threw "apply_block" d).state :=
  Outcome.bind_state_induction (h.popUntil hheld) fun _ h' =>
    Outcome.bind_state_induction (h'.forEach items) fun _ h'' => h''

theorem recover {rest second : List (ForkItem B)} (h : Kept R f (forkPoint R second) d)
    (hheld : ∀ x ∈ held, x ∈ f.strong) (hsecond : ∀ x ∈ second, x ∈ f.strong) :
    Kept R f (forkPoint R second) (d.recover R held rest second).state := by
  have hremove : f.Within (rest.foldl (fun f x => f.remove R.toBlockIds (R.id x.data)) d.fork) :=
    List.foldlRecOn rest _ h.within fun g hg x _ => hg.remove _
  have hfork : ∀ {g : ForkDatabase B}, f.Within g →
      Kept R f (forkPoint R second) { d with fork := g } := fun hg =>
    ⟨⟨h.built, h.above, h.tight⟩, hg, h.reach⟩
  rcases second with _ | ⟨old, older⟩
  · exact (hfork hremove).restore hheld _ _
  · exact (hfork (hremove.setHead (hsecond old List.mem_cons_self))).restore hheld _ _

end Kept

/-! ### A call -/

namespace WellFormed

variable {d : Database B Id S}

theorem switchTo {f : ForkDatabase B} {x : ForkItem B} {first second : List (ForkItem B)} {t : S}
    (h : Leaving R d f x first second t) (hsound : f.Sound R.toBlockIds)
    (hfetch : f.fetchBranchFrom R.toBlockIds [x] (R.id x.data) (R.headId d.state) =
      some (first, second)) : (switchTo R x { d with fork := f }).state.WellFormed R := by
  have hsub : ∀ y ∈ [x] ++ f.index ++ f.itemsRead, y ∈ f.strong := by
    intro y hy
    simpa [ForkDatabase.strong, h.head] using hy
  have hsecond : ∀ y ∈ first ++ second, y ∈ f.strong := fun y hy =>
    hsub y (h.branches.alive y hy)
  have hheld : ∀ y ∈ x :: (first ++ second), y ∈ f.strong := by
    intro y hy
    rcases List.mem_cons.1 hy with rfl | hy
    · exact hsub y (by simp)
    · exact hsecond y hy
  have hstart : Kept R f (forkPoint R second) { d with fork := f } :=
    ⟨⟨h.wf.built, h.wf.above, h.wf.tight⟩, .refl f, t, List.mem_of_getElem? h.base, h.point.symm⟩
  suffices hkept : Kept R f (forkPoint R second) (Database.switchTo R x { d with fork := f }).state
    from ⟨hkept.toRecorded, hsound.within hkept.within⟩
  simp only [Database.switchTo, hfetch]
  refine Outcome.bind_state_induction (hstart.popUntil hheld) fun d₂ h₂ => ?_
  have hbranch := h₂.applyBranch first.reverse
  rcases hrun : applyBranch R first.reverse d₂ with ⟨d₃, _ | ⟨r, rest⟩⟩ <;> rw [hrun] at hbranch
  · exact hbranch
  · exact hbranch.recover hheld fun y hy => hsecond y (List.mem_append_right _ hy)

theorem extend (h : d.WellFormed R) (b : B) : (d.extend R b).state.WellFormed R := by
  rw [Database.extend]
  rcases happ : d.applyBlock R b with d' | ⟨e, d'⟩
  · obtain ⟨-, -, -, hfork⟩ := applyBlock_eq_ok happ
    exact ⟨h.toRecorded.applyBlock happ, by rw [Outcome.state_ok, hfork]; exact h.sound⟩
  · rw [applyBlock_threw happ]
    exact ⟨⟨h.built, h.above, h.tight⟩, h.sound.within ((ForkDatabase.Within.refl _).remove _)⟩

/-- **Pushing a block keeps the database well formed**, whether it returns or throws. -/
theorem pushBlock (skipForkDb : Bool) {b : B} (h : d.WellFormed R) (hlong : d.LongEnough R b) :
    (d.pushBlock R skipForkDb b).state.WellFormed R := by
  rw [Database.pushBlock]
  split
  · exact h.extend b
  · rcases hpush : d.fork.pushBlock R.toBlockIds b with e | ⟨f, x⟩
    · exact h
    have hsound := h.sound.pushBlock hpush
    have hf : WellFormed R { d with fork := f } := ⟨⟨h.built, h.above, h.tight⟩, hsound⟩
    dsimp only
    split
    · exact hf.extend b
    · rename_i hprev
      split
      · rename_i hnum
        rcases hfetch : f.fetchBranchFrom R.toBlockIds [x] (R.id x.data) (R.headId d.state) with
          _ | ⟨first, second⟩
        · rw [Database.switchTo, hfetch]
          exact hf
        · obtain ⟨t, hleave⟩ := exists_leaving h hlong hpush hprev hnum hfetch
          exact switchTo hleave hsound hfetch
      · exact hf

/-- **So it is well formed whatever blocks have been pushed.** -/
theorem run : ∀ {bs : List B} {d : Database B Id S}, d.WellFormed R → d.LongEnoughRun R bs →
    (d.run R bs).WellFormed R
  | [], _, h, _ => h
  | b :: bs, d, h, hlong => by
    show ((d.pushBlock R false b).state.run R bs).WellFormed R
    exact run (h.pushBlock false hlong.1) hlong.2

end WellFormed

end Database

/-! ### A chain of paths -/

/-- A block of a chain in which ids are the paths to the blocks. -/
structure PathBlock where
  label : ℕ
  previous : List ℕ
  deriving DecidableEq

/-- A block is rejected if its label is zero. -/
def pathRules : ChainRules PathBlock (List ℕ) (List ℕ) where
  id b := b.label :: b.previous
  previous := PathBlock.previous
  numFromId := List.length
  null := []
  id_injective := by
    rintro ⟨m, p⟩ ⟨n, q⟩ h
    obtain ⟨rfl, rfl⟩ : m = n ∧ p = q := by simpa using h
    rfl
  num_null := List.length_nil
  num_id _ := rfl
  headId s := s
  apply b s := if b.previous = s ∧ b.label ≠ 0 then some (b.label :: s) else none
  apply_previous := by
    intro b s s' h
    split at h
    · rename_i hb
      exact hb.1.symm
    · simp at h
  apply_head := by
    intro b s s' h
    split at h
    · rename_i hb
      rw [hb.1, Option.some_inj.1 h]
    · simp at h

/-- The database before the first block. -/
def genesis : Database PathBlock (List ℕ) (List ℕ) :=
  ⟨[], [], ⟨fun _ => ⟨[], none⟩, 0⟩, ⟨[], none, [], 0⟩⟩

theorem wellFormed_genesis : genesis.WellFormed pathRules where
  built := ⟨[], rfl, trivial, by simp⟩
  above _ _ := rfl
  tight _ _ := rfl
  sound := by
    refine ⟨?_, ?_, ?_, ?_⟩ <;> intro x hx <;> simp [genesis, ForkDatabase.strong] at hx

end Whitecoin.Chain
