import Whitecoin.Chain.Switch

/-!
# A block is pushed completely or not at all

When `_push_block` throws, the objects and the block store should be what they were before the call.
A block that is refused by the fork database or rejected on top of the head leaves them alone. In
the failure path of a fork switch there is a flaw. It makes the old head the head of the fork
database and only then pops the blocks of the new branch, and every `pop_block` also moves the head
of the fork database to the previous item, along the old branch. If that branch has fewer linked
items below the old head than blocks have to be popped, `pop_block` throws in the middle, and the
database is left on the branch that failed.

The condition found here is exact. It is about the pointers of two items: those of the new head,
which is popped down to the fork point, and those of the old head.
-/

namespace Whitecoin.Chain

namespace Database

variable {B Id S : Type} [DecidableEq Id] (R : ChainRules B Id S)

/-- The objects, and so the head, and the blocks in the store are the same. -/
def Same (d d' : Database B Id S) : Prop :=
  d'.state = d.state ∧
    ∀ id, d'.store.fetchOptional R.toBlockIds id = d.store.fetchOptional R.toBlockIds id

/-- Pushing the block returns or changes nothing. -/
def AllOrNothing (skipForkDb : Bool) (d : Database B Id S) (b : B) : Prop :=
  (d.pushBlock R skipForkDb b).isOk = true ∨ Same R d (d.pushBlock R skipForkDb b).state

/-- If the new branch fails after `k` blocks, the pointers of the old head can be followed `k` times
in what is left of the fork database. One time less is enough if the old head is the first block of
the new branch: it has been applied again by then. -/
def RecoverSafe (f : ForkDatabase B) (held first second : List (ForkItem B)) (k : ℕ) : Prop :=
  k < first.length → ∀ old ∈ second.head?,
    (without R (first.reverse.drop k) f).HasAncestors held k old ∨
    (∃ x ∈ first.getLast?, R.id x.data = R.id old.data) ∧
      (without R (first.reverse.drop k) f).HasAncestors held (k - 1) old

instance (f : ForkDatabase B) (held first second : List (ForkItem B)) (k : ℕ) :
    Decidable (RecoverSafe R f held first second k) :=
  inferInstanceAs (Decidable (_ → _))

/-- If the block makes the chain switch forks, the pointers of the new head can be followed to the
fork point, or not even once, and a failed switch is recovered from. -/
def SwitchSafe (d : Database B Id S) (b : B) : Prop :=
  ∀ p ∈ (d.fork.pushBlock R.toBlockIds b).toOption,
    R.previous p.2.data ≠ R.headId d.state →
    R.numFromId (R.headId d.state) < p.2.num R.toBlockIds →
    ∀ q ∈ p.1.fetchBranchFrom R.toBlockIds [p.2] (R.id p.2.data) (R.headId d.state),
      ¬ p.1.HasAncestors (p.2 :: (q.1 ++ q.2)) 1 p.2 ∨
        p.1.HasAncestors (p.2 :: (q.1 ++ q.2)) q.2.length p.2 ∧
          RecoverSafe R p.1 (p.2 :: (q.1 ++ q.2)) q.1 q.2
            (accepted R q.1.reverse (((d.state :: d.history)[q.2.length]?).getD d.state))

instance (d : Database B Id S) (b : B) : Decidable (SwitchSafe R d b) :=
  inferInstanceAs (Decidable (∀ p ∈ (d.fork.pushBlock R.toBlockIds b).toOption, _ → _ → _))

variable {R}

/-! ### The store after blocks were removed and stored -/

omit [DecidableEq Id] in
/-- A sequence of writes, each to the entry of its block: the entry of a number is that of one of
the blocks, or nothing was written to it. -/
theorem entries_foldl {op : BlockDatabase B Id → B → BlockDatabase B Id}
    {e : B → IndexEntry B Id} (hop : ∀ s b, (op s b).entries =
      Function.update s.entries (R.numFromId (R.id b)) (e b)) (m : ℕ) :
    ∀ (l : List B) (s : BlockDatabase B Id),
      (∃ b ∈ l, R.numFromId (R.id b) = m ∧ (l.foldl op s).entries m = e b) ∨
        (∀ b ∈ l, R.numFromId (R.id b) ≠ m) ∧ (l.foldl op s).entries m = s.entries m
  | [], s => .inr ⟨by simp, rfl⟩
  | c :: l, s => by
    rw [List.foldl_cons]
    rcases entries_foldl hop m l (op s c) with ⟨b, hb, hm, hsome⟩ | ⟨hne, heq⟩
    · exact .inl ⟨b, List.mem_cons_of_mem _ hb, hm, hsome⟩
    · rw [heq, hop]
      by_cases hc : R.numFromId (R.id c) = m
      · exact .inl ⟨c, List.mem_cons_self, hc, by rw [hc, Function.update_self]⟩
      · refine .inr ⟨fun b hb => ?_, Function.update_of_ne (Ne.symm hc) ..⟩
        rcases List.mem_cons.1 hb with rfl | hb
        · exact hc
        · exact hne b hb

omit [DecidableEq Id] in
theorem entries_erase (m : ℕ) (l : List B) (s : BlockDatabase B Id) :
    (∃ b ∈ l, R.numFromId (R.id b) = m ∧ (l.foldl (erase R) s).entries m = ⟨R.id b, none⟩) ∨
      (∀ b ∈ l, R.numFromId (R.id b) ≠ m) ∧ (l.foldl (erase R) s).entries m = s.entries m :=
  entries_foldl (e := fun b => ⟨R.id b, none⟩) (fun _ _ => rfl) m l s

omit [DecidableEq Id] in
theorem entries_storeAll (m : ℕ) (l : List B) (s : BlockDatabase B Id) :
    (∃ b ∈ l, R.numFromId (R.id b) = m ∧ (storeAll R l s).entries m = ⟨R.id b, some b⟩) ∨
      (∀ b ∈ l, R.numFromId (R.id b) ≠ m) ∧ (storeAll R l s).entries m = s.entries m :=
  entries_foldl (e := fun b => ⟨R.id b, some b⟩) (fun _ _ => rfl) m l s

omit [DecidableEq Id] in
theorem length_erase (l : List B) (s : BlockDatabase B Id) :
    (l.foldl (erase R) s).length = s.length := by
  induction l generalizing s with
  | nil => rfl
  | cons b l ih => rw [List.foldl_cons, ih, erase]

omit [DecidableEq Id] in
theorem length_storeAll (l : List B) (s : BlockDatabase B Id) :
    s.length ≤ (storeAll R l s).length := by
  induction l generalizing s with
  | nil => exact le_rfl
  | cons b l ih =>
    refine le_trans ?_ (ih (s.store R.toBlockIds (R.id b) b))
    exact le_max_left ..

theorem fetchOptional_congr {s s' : BlockDatabase B Id} (hlen : s.length ≤ s'.length)
    (htight : ∀ n, s.length ≤ n → (s.entries n).block = none)
    (h : ∀ m, s'.entries m = s.entries m ∨
      (s.entries m).block = none ∧ (s'.entries m).block = none) (id : Id) :
    s'.fetchOptional R.toBlockIds id = s.fetchOptional R.toBlockIds id := by
  have hnone : ∀ {t : BlockDatabase B Id}, (t.entries (R.numFromId id)).block = none →
      t.fetchOptional R.toBlockIds id = none := by
    intro t ht
    rw [BlockDatabase.fetchOptional, ht]
    split
    · rfl
    · split <;> rfl
  rcases h (R.numFromId id) with heq | ⟨h₁, h₂⟩
  · rcases Nat.lt_or_ge (R.numFromId id) s.length with hlt | hge
    · have h₁ : ¬ s.length ≤ R.numFromId id := by omega
      have h₂ : ¬ s'.length ≤ R.numFromId id := by omega
      rw [BlockDatabase.fetchOptional, BlockDatabase.fetchOptional, if_neg h₁, if_neg h₂, heq]
    · have hs := htight _ hge
      rw [hnone hs, hnone (by rw [heq]; exact hs)]
  · rw [hnone h₁, hnone h₂]

omit [DecidableEq Id] in
/-- The store after a switch that failed and was recovered from: the old blocks were removed, the
new ones stored and removed again, and the old ones stored again. -/
theorem entries_recovered {store : BlockDatabase B Id} {old new : List B} {top : ℕ}
    (hold : ∀ b ∈ old, store.Holds R.toBlockIds b)
    (habove : ∀ n, top < n → (store.entries n).block = none)
    (hcover : ∀ c ∈ new, (∃ b ∈ old, R.numFromId (R.id b) = R.numFromId (R.id c)) ∨
      top < R.numFromId (R.id c)) (m : ℕ) :
    (storeAll R old.reverse (new.foldl (erase R)
        (storeAll R new.reverse (old.foldl (erase R) store)))).entries m = store.entries m ∨
      (store.entries m).block = none ∧ ((storeAll R old.reverse (new.foldl (erase R)
        (storeAll R new.reverse (old.foldl (erase R) store)))).entries m).block = none := by
  rcases entries_storeAll (R := R) m old.reverse _ with ⟨b, hb, hm, heq⟩ | ⟨hold', heq⟩
  · -- an old block: it is back
    have := (hold b (List.mem_reverse.1 hb)).1
    rw [hm] at this
    exact .inl (heq.trans this.symm)
  have hold'' : ∀ b ∈ old, R.numFromId (R.id b) ≠ m := fun b hb => hold' b (List.mem_reverse.2 hb)
  rw [heq]
  rcases entries_erase (R := R) m new _ with ⟨c, hc, hm, heq⟩ | ⟨hnew, heq⟩
  · -- a new block above the old head: the entry is empty, as before
    rcases hcover c hc with ⟨b, hb, hbc⟩ | htop
    · exact absurd (hbc.trans hm) (hold'' b hb)
    · exact .inr ⟨habove m (hm ▸ htop), by rw [heq]⟩
  rw [heq]
  rcases entries_storeAll (R := R) m new.reverse _ with ⟨c, hc, hm, -⟩ | ⟨-, heq⟩
  · exact absurd hm (hnew c (List.mem_reverse.1 hc))
  rw [heq]
  rcases entries_erase (R := R) m old _ with ⟨b, hb, hm, -⟩ | ⟨-, heq⟩
  · exact absurd hm (hold'' b hb)
  · exact .inl heq

omit [DecidableEq Id] in
/-- The store after a failed switch whose recovery stopped with one block left, which is the old
head itself. -/
theorem entries_reapplied {store : BlockDatabase B Id} {b : B} {new : List B} {top : ℕ}
    (hold : store.Holds R.toBlockIds b) (habove : ∀ n, top < n → (store.entries n).block = none)
    (hnew : ∀ c ∈ new, top < R.numFromId (R.id c)) (m : ℕ) :
    (new.foldl (erase R) (storeAll R (b :: new.reverse) (erase R store b))).entries m =
        store.entries m ∨
      (store.entries m).block = none ∧
        ((new.foldl (erase R) (storeAll R (b :: new.reverse) (erase R store b))).entries m).block =
          none := by
  rcases entries_erase (R := R) m new _ with ⟨c, hc, hm, heq⟩ | ⟨hne, heq⟩
  · exact .inr ⟨habove m (hm ▸ hnew c hc), by rw [heq]⟩
  rw [heq]
  rcases entries_storeAll (R := R) m (b :: new.reverse) _ with ⟨c, hc, hm, heq⟩ | ⟨hne', heq⟩
  · rcases List.mem_cons.1 hc with rfl | hc
    · have := hold.1
      rw [hm] at this
      exact .inl (heq.trans this.symm)
    · exact absurd hm (hne c (List.mem_reverse.1 hc))
  · rw [heq]
    refine .inl ?_
    show Function.update _ _ _ _ = _
    rw [Function.update_of_ne (Ne.symm (hne' b List.mem_cons_self))]

/-! ### A failed switch -/

namespace Failed

variable {d d₃ : Database B Id S} {f : ForkDatabase B} {x old : ForkItem B}
  {first second older : List (ForkItem B)} {t : S} {done rest : List (ForkItem B)}

theorem recover_same (h : Failed R d f x first (old :: older) t done rest d₃)
    {held : List (ForkItem B)} (hanc : (without R rest f).HasAncestors held done.length old) :
    Same R d (d₃.recover R held rest (old :: older)).state := by
  obtain ⟨y, hy⟩ := Option.isSome_iff_exists.1 hanc
  rw [h.recover_eq_threw held hy]
  refine ⟨rfl, ?_⟩
  -- every block of the new branch has the number of an old block or is above the old head
  have hcover : ∀ c ∈ newest done, (∃ b ∈ (old :: older).map (·.data),
      R.numFromId (R.id b) = R.numFromId (R.id c)) ∨
        R.numFromId (R.headId d.state) < R.numFromId (R.id c) := by
    intro c hc
    rcases Nat.lt_or_ge (R.numFromId (R.headId d.state)) (R.numFromId (R.id c)) with hlt | hle
    · exact .inr hlt
    · exact .inl (exists_num_eq h.applied h.base _ (base_lt_num h.new_applied h.new_base c hc) hle)
  refine fetchOptional_congr ?_ h.wf.tight ?_
  · refine le_trans ?_ (length_storeAll _ _)
    show _ ≤ ((newest done).foldl (erase R) d₃.store).length
    rw [length_erase, h.store]
    refine le_trans ?_ (length_storeAll _ _)
    rw [length_erase]
  · intro m
    have := entries_recovered (R := R) h.holds h.wf.above hcover m
    rw [← h.store] at this
    exact this

/-- With one block of the new branch left, which is the old head, the database is what it was. -/
theorem same_of_last (h : Failed R d f x first (old :: older) t done rest d₃) {z y : ForkItem B}
    {g : ForkDatabase B} (hlast : z ∈ first.getLast?) (hid : R.id z.data = R.id old.data)
    (hpos : 0 < done.length) :
    Same R d (rewound R { d₃ with fork := g } ((newest done).take (done.length - 1)) y) := by
  obtain ⟨done, rfl⟩ : ∃ done', done = z :: done' := by
    rcases done with _ | ⟨w, done⟩
    · simp at hpos
    · refine ⟨done, ?_⟩
      have hhead : first.reverse.head? = some w := by rw [h.split]; rfl
      rw [List.head?_reverse] at hhead
      rw [Option.some_inj.1 (hhead.symm.trans hlast)]
  have hdata : z.data = old.data := R.id_injective hid
  obtain rfl : older = [] := by
    have hz : z ∈ first := List.mem_of_getLast? hlast
    obtain ⟨hone, -⟩ := h.branches.apart z hz (hid.trans h.head_old.symm)
    simpa using hone
  have hnewest : newest (z :: done) = newest done ++ [old.data] := by
    rw [newest, List.map_cons, List.reverse_cons, hdata]
    rfl
  have htake : (newest (z :: done)).take ((z :: done).length - 1) = newest done := by
    rw [hnewest]
    exact List.take_left' (by simp [newest])
  have ha := h.new_applied
  have hbase := h.new_base
  rw [hnewest] at ha hbase
  obtain ⟨u, hu, happ⟩ := ha.exists_oldest (by simpa using hbase)
  -- the same block on the same state
  have happ' : R.apply old.data t = some d.state := by
    have ha' := h.applied
    have hbase' := h.base
    rw [List.map_cons] at ha'
    obtain ⟨v, vs, hv, happ', -⟩ := ha'.exists_cons
    obtain rfl : v = t := by simpa [hv] using hbase'
    exact happ'
  obtain rfl : d.state = u := Option.some_inj.1 (happ'.symm.trans happ)
  rw [htake]
  refine ⟨?_, fetchOptional_congr ?_ h.wf.tight fun m => ?_⟩
  · show ((d₃.state :: d₃.history)[(newest done).length]?).getD d₃.state = d.state
    rw [hu]
    rfl
  · show _ ≤ ((newest done).foldl (erase R) d₃.store).length
    rw [length_erase, h.store]
    refine le_trans ?_ (length_storeAll _ _)
    rw [length_erase]
  · have hlow : ∀ c ∈ newest done, R.numFromId (R.headId d.state) < R.numFromId (R.id c) := by
      have htake' : Applied R d₃.state (newest done) d₃.history := by
        simpa using ha.take (newest done).length
      exact base_lt_num htake' hu
    have := entries_reapplied (R := R) (h.holds old.data (by simp)) h.wf.above hlow m
    show ((newest done).foldl (erase R) d₃.store).entries m = _ ∨ _ ∧
      (((newest done).foldl (erase R) d₃.store).entries m).block = none
    rw [h.store, hnewest, List.reverse_append]
    exact this

/-- Otherwise the recovery stops with some blocks of the new branch still applied. Nothing has
changed then only if one block is left and it is the old head. -/
theorem recover_same_iff (h : Failed R d f x first (old :: older) t done rest d₃)
    {held : List (ForkItem B)} (hanc : ¬ (without R rest f).HasAncestors held done.length old) :
    (d₃.recover R held rest (old :: older)).isOk = false ∧
      (Same R d (d₃.recover R held rest (old :: older)).state ↔
        (∃ x ∈ first.getLast?, R.id x.data = R.id old.data) ∧
          (without R rest f).HasAncestors held (done.length - 1) old) := by
  obtain ⟨j, hj, hyes, hno⟩ := exists_stop hanc
  have hlen := length_le_of_applied h.new_applied
  have hlen' : (newest done).length = done.length := by simp [newest]
  obtain ⟨y, hy⟩ := Option.isSome_iff_exists.1 hyes
  obtain ⟨e, hpop⟩ := popUntil_threw (R := R) held (newest done) (n := d₃.history.length + 1)
    (j := j) (d := { d₃ with fork := { without R rest f with head := some old } }) h.new_applied
    h.holds_new rfl h.new_base (by omega) (by omega) (ForkDatabase.ancestor_head.trans hy)
    (fun h' => hno (ForkDatabase.hasAncestors_head.1 h'))
  rw [h.recover_eq, hpop, Outcome.bind_threw]
  have hnum := h.num_head
  obtain ⟨t', ht', hnew⟩ := h.new_applied.exists_base
  obtain rfl : t = t' := Option.some_inj.1 (h.new_base.symm.trans ht')
  refine ⟨rfl, ?_, ?_⟩
  · rintro ⟨hstate, -⟩
    obtain ⟨u, hu, hlow⟩ := (h.new_applied.take j).exists_base
    have hjlen : ((newest done).take j).length = j := by rw [List.length_take]; omega
    obtain rfl : u = d.state := by
      rw [← hstate]
      show u = ((d₃.state :: d₃.history)[((newest done).take j).length]?).getD d₃.state
      rw [hu]
      rfl
    rw [hjlen] at hu hlow
    -- the block that is left on top has the old head's id, so it is the first of its branch
    obtain ⟨b, hb, hid⟩ := h.new_applied.head_eq (by omega) hu
    obtain ⟨z, hz, rfl⟩ := List.mem_map.1 (List.mem_reverse.1 (List.mem_of_getElem? hb))
    have hzfirst : z ∈ first := by
      rw [← List.mem_reverse, h.split]
      exact List.mem_append_left _ hz
    obtain ⟨hone, hlast⟩ := h.branches.apart z hzfirst hid.symm
    obtain rfl : j = done.length - 1 := by omega
    exact ⟨⟨z, hlast, hid.symm.trans h.head_old⟩, hyes⟩
  · rintro ⟨⟨z, hlast, hid⟩, hanc'⟩
    obtain rfl : j = done.length - 1 := by
      by_contra hne
      exact hno (hanc'.mono (by omega))
    exact h.same_of_last hlast hid (by omega)

end Failed

/-! ### The exact condition -/

namespace Leaving

variable {d : Database B Id S} {f : ForkDatabase B} {x : ForkItem B}
  {first second : List (ForkItem B)} {t : S}

/-- The switch stops before it has left the old branch. It has changed nothing only if it stops at
the first block. -/
theorem stop_same_iff (h : Leaving R d f x first second t) {held : List (ForkItem B)}
    (hanc : ¬ f.HasAncestors held second.length x) :
    ∃ e d', popUntil R held (forkPoint R second) (d.history.length + 1) { d with fork := f } =
      .threw e d' ∧ (Same R d d' ↔ ¬ f.HasAncestors held 1 x) := by
  obtain ⟨j, hj, hyes, hno⟩ := exists_stop hanc
  obtain ⟨y, hy⟩ := Option.isSome_iff_exists.1 hyes
  obtain ⟨e, hpop⟩ := h.pop_threw hj hy hno
  refine ⟨e, _, hpop, ?_, fun hone => ?_⟩
  · -- popping a block lowers the head
    rintro ⟨hstate, -⟩ hone
    obtain ⟨u, hu, hnum⟩ := (h.applied.take j).exists_base
    obtain rfl : u = d.state := by
      rw [← hstate]
      show u = ((d.state :: d.history)[((second.map (·.data)).take j).length]?).getD d.state
      rw [hu]
      rfl
    rw [List.length_take, List.length_map] at hnum
    obtain rfl : j = 0 := by omega
    exact hno hone
  · obtain rfl : j = 0 := by
      by_contra hne
      exact hone (hyes.mono (by omega))
    exact ⟨rfl, fun _ => rfl⟩

theorem switchTo_iff (h : Leaving R d f x first second t)
    (hfetch : f.fetchBranchFrom R.toBlockIds [x] (R.id x.data) (R.headId d.state) =
      some (first, second)) :
    ((switchTo R x { d with fork := f }).isOk = true ∨
        Same R d (switchTo R x { d with fork := f }).state) ↔
      ¬ f.HasAncestors (x :: (first ++ second)) 1 x ∨
        f.HasAncestors (x :: (first ++ second)) second.length x ∧
          RecoverSafe R f (x :: (first ++ second)) first second
            (accepted R first.reverse (((d.state :: d.history)[second.length]?).getD d.state)) := by
  obtain ⟨old, older, rfl, -⟩ := h.branches.second_top
  simp only [switchTo, hfetch]
  by_cases hanc : f.HasAncestors (x :: (first ++ old :: older)) (old :: older).length x
  · obtain ⟨d₂, d₃, done, rest, hpop, hrun, hacc, hfail⟩ := h.exists_failed hanc
    have hone : f.HasAncestors (x :: (first ++ old :: older)) 1 x := hanc.mono (by simp)
    have hdone : first.length = done.length + rest.length := by
      rw [← List.length_reverse, hfail.split, List.length_append]
    have hdrop : first.reverse.drop done.length = rest := by
      rw [hfail.split, List.drop_left]
    have ht : (d.state :: d.history)[(old :: older).length]? = some t := by
      simpa using h.base
    simp only [hpop, Outcome.bind_ok, hrun, RecoverSafe, ht, Option.getD_some, hacc, hdrop]
    rcases rest with _ | ⟨r, rest⟩
    · refine iff_of_true (.inl rfl) (.inr ⟨hanc, fun hlt => absurd hlt ?_⟩)
      simp [hdone]
    · have hlt : done.length < first.length := by simp [hdone]
      by_cases hrec : (without R (r :: rest) f).HasAncestors (x :: (first ++ old :: older))
          done.length old
      · refine iff_of_true (.inr (hfail.recover_same hrec)) (.inr ⟨hanc, fun _ o ho => ?_⟩)
        obtain rfl : old = o := by simpa using ho
        exact .inl hrec
      · obtain ⟨hok, hsame⟩ := hfail.recover_same_iff hrec
        rw [hok, hsame]
        refine ⟨fun hl => .inr ⟨hanc, fun _ o ho => ?_⟩, fun hr => .inr ?_⟩
        · obtain rfl : old = o := by simpa using ho
          exact .inr (hl.resolve_left (by simp))
        · obtain ⟨-, hr⟩ := hr.resolve_left (not_not_intro hone)
          exact (hr hlt old (by simp)).resolve_left hrec
  · obtain ⟨e, d', hpop, hsame⟩ := h.stop_same_iff hanc
    rw [hpop, Outcome.bind_threw, Outcome.isOk_threw, Outcome.state_threw, hsame]
    exact ⟨fun hl => .inl (hl.resolve_left (by simp)),
      fun hr => .inr (hr.resolve_right fun hr => hanc hr.1)⟩

end Leaving

theorem extend_allOrNothing (d : Database B Id S) (f : ForkDatabase B) (b : B) :
    (extend R { d with fork := f } b).isOk = true ∨
      Same R d (extend R { d with fork := f } b).state := by
  rw [extend, applyBlock]
  rcases R.apply b d.state with _ | s
  · exact .inr ⟨rfl, fun _ => rfl⟩
  · exact .inl rfl

/-- **Pushing a block is all or nothing exactly if a switch is safe.** -/
theorem allOrNothing_iff (skipForkDb : Bool) (d : Database B Id S) (b : B)
    (hwf : d.WellFormed R) (hlong : d.LongEnough R b) :
    AllOrNothing R skipForkDb d b ↔ (skipForkDb = false → SwitchSafe R d b) := by
  rw [AllOrNothing, pushBlock]
  rcases skipForkDb with _ | _
  · simp only [Bool.false_eq_true, if_false, forall_const, SwitchSafe]
    rcases hpush : d.fork.pushBlock R.toBlockIds b with e | ⟨f, x⟩
    · exact iff_of_true (.inr ⟨rfl, fun _ => rfl⟩) (by simp [Except.toOption])
    simp only [Except.toOption, Option.mem_some_iff, forall_eq']
    by_cases hprev : R.previous x.data = R.headId d.state
    · rw [if_pos hprev]
      exact iff_of_true (extend_allOrNothing d f b) fun hne => absurd hprev hne
    rw [if_neg hprev]
    by_cases hnum : R.numFromId (R.headId d.state) < x.num R.toBlockIds
    · rw [if_pos hnum]
      rcases hfetch : f.fetchBranchFrom R.toBlockIds [x] (R.id x.data) (R.headId d.state) with
        _ | ⟨first, second⟩
      · refine iff_of_true (.inr ?_) (by simp)
        rw [switchTo, hfetch]
        exact ⟨rfl, fun _ => rfl⟩
      · obtain ⟨t, hleave⟩ := exists_leaving hwf hlong hpush hprev hnum hfetch
        rw [hleave.switchTo_iff hfetch]
        simp [hprev, hnum]
    · rw [if_neg hnum]
      exact iff_of_true (.inl rfl) fun _ hlt => absurd hlt hnum
  · simp only [if_true, Bool.true_eq_false, false_implies, iff_true]
    exact extend_allOrNothing d d.fork b

theorem allOrNothing_iff_recovered :
    AllOrNothing pathRules false (genesis.run pathRules [⟨1, []⟩, ⟨2, [1]⟩, ⟨3, [1]⟩]) ⟨0, [3, 1]⟩ ∧
      (pushBlock pathRules false (genesis.run pathRules [⟨1, []⟩, ⟨2, [1]⟩, ⟨3, [1]⟩])
        ⟨0, [3, 1]⟩).isOk = false :=
  ⟨(allOrNothing_iff false _ _ (wellFormed_genesis.run (by decide +kernel))
    (by decide +kernel)).2 (by decide +kernel), by decide +kernel⟩

end Database

/-- **A failed switch between two first blocks.** The block on top of the second one is rejected;
the second one stays applied, because the first one has no previous item to go back to. -/
theorem push_not_allOrNothing : ∃ (d : Database PathBlock (List ℕ) (List ℕ)) (b : PathBlock),
    d.WellFormed pathRules ∧ d.LongEnough pathRules b ∧ ¬ d.AllOrNothing pathRules false b := by
  refine ⟨genesis.run pathRules [⟨1, []⟩, ⟨2, []⟩], ⟨0, [2]⟩,
    wellFormed_genesis.run (by decide +kernel), by decide +kernel, ?_⟩
  rintro (hok | ⟨hstate, -⟩)
  · exact absurd hok (by decide +kernel)
  · exact absurd hstate (by decide +kernel)

end Whitecoin.Chain
