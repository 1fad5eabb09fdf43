import Whitecoin.Chain.WellFormed

/-!
# A switch to another branch

What `_push_block` does when the new head is on another branch, as equations. The old branch is
popped down to the fork point, which needs the pointers of the new head; the blocks of the new
branch are applied as far as they go; and if one is left, the database goes back to the old branch,
which needs the pointers of the old head.
-/

namespace Whitecoin.Chain

namespace Database

variable {B Id S : Type} [DecidableEq Id] (R : ChainRules B Id S)

/-- How many blocks of a branch apply, the oldest first. -/
def accepted : List (ForkItem B) → S → ℕ
  | [], _ => 0
  | x :: rest, s =>
    match R.apply x.data s with
    | none => 0
    | some s' => accepted rest s' + 1

/-- The fork database without the rest of the new branch. -/
def without (rest : List (ForkItem B)) (f : ForkDatabase B) : ForkDatabase B :=
  rest.foldl (fun f x => f.remove R.toBlockIds (R.id x.data)) f

variable {R}

/-! ### Numbers and stored blocks -/

omit [DecidableEq Id] in
theorem exists_num_eq : ∀ {s t : S} {bs : List B} {h : List S}, Applied R s bs h →
    (s :: h)[bs.length]? = some t → ∀ m, R.numFromId (R.headId t) < m →
    m ≤ R.numFromId (R.headId s) → ∃ b ∈ bs, R.numFromId (R.id b) = m
  | s, t, [], h, _, ht, m, hlt, hle => by
    obtain rfl : s = t := by simpa using ht
    omega
  | s, t, b :: bs, h, ha, ht, m, hlt, hle => by
    obtain ⟨u, us, rfl, happ, ha'⟩ := ha.exists_cons
    rw [R.apply_head happ] at hle
    rcases Nat.eq_or_lt_of_le hle with rfl | hlt'
    · exact ⟨b, List.mem_cons_self, rfl⟩
    · rw [R.num_of_apply happ] at hlt'
      obtain ⟨c, hc, hm⟩ := exists_num_eq ha' (by simpa using ht) m hlt (by omega)
      exact ⟨c, List.mem_cons_of_mem _ hc, hm⟩

omit [DecidableEq Id] in
theorem base_lt_num : ∀ {s t : S} {bs : List B} {h : List S}, Applied R s bs h →
    (s :: h)[bs.length]? = some t → ∀ b ∈ bs, R.numFromId (R.headId t) < R.numFromId (R.id b)
  | _, _, [], _, _, _, _, hb => by simp at hb
  | s, t, c :: bs, h, ha, ht, b, hb => by
    obtain ⟨u, us, rfl, happ, ha'⟩ := ha.exists_cons
    have ht' : (u :: us)[bs.length]? = some t := by simpa using ht
    rcases List.mem_cons.1 hb with rfl | hb
    · obtain ⟨t', ht'', hnum⟩ := ha'.exists_base
      obtain rfl : t = t' := Option.some_inj.1 (ht'.symm.trans ht'')
      rw [R.num_of_apply happ]
      omega
    · exact base_lt_num ha' ht' b hb

omit [DecidableEq Id] in
theorem holds_storeAll : ∀ {s : S} {bs : List B} {h : List S}, Applied R s bs h →
    ∀ (store : BlockDatabase B Id), ∀ b ∈ bs, (storeAll R bs.reverse store).Holds R.toBlockIds b
  | _, [], _, _, _, _, hb => by simp at hb
  | s, c :: bs, h, ha, store, b, hb => by
    obtain ⟨u, us, rfl, happ, ha'⟩ := ha.exists_cons
    have hstore : storeAll R (c :: bs).reverse store =
        (storeAll R bs.reverse store).store R.toBlockIds (R.id c) c := by
      rw [storeAll, List.reverse_cons, List.foldl_append]
      rfl
    rw [hstore]
    rcases List.mem_cons.1 hb with rfl | hb
    · exact BlockDatabase.holds_store ..
    · exact (holds_storeAll ha' store b hb).store (ha.num_lt b hb).ne

/-! ### A switch -/

namespace Leaving

variable {d : Database B Id S} {f : ForkDatabase B} {x : ForkItem B}
  {first second : List (ForkItem B)} {t : S}

/-- Down to the fork point, if the pointers of the new head can be followed that far. -/
theorem pop_ok (h : Leaving R d f x first second t) {held : List (ForkItem B)} {y : ForkItem B}
    (hy : f.ancestor held second.length x = some y) :
    popUntil R held (forkPoint R second) (d.history.length + 1) { d with fork := f } =
      .ok ⟨t, d.history.drop second.length, (second.map (·.data)).foldl (erase R) d.store,
        { f with head := some y }⟩ := by
  have hlen := length_le_of_applied h.applied
  rw [h.point, popUntil_ok (R := R) held (second.map (·.data)) (n := d.history.length + 1)
    (d := { d with fork := f }) h.applied h.holds h.head h.base (by omega) (by simpa using hy),
    rewound, h.base, List.length_map]
  rfl

theorem pop_threw (h : Leaving R d f x first second t) {held : List (ForkItem B)} {y : ForkItem B}
    {j : ℕ} (hj : j < second.length) (hy : f.ancestor held j x = some y)
    (hstop : ¬ f.HasAncestors held (j + 1) x) :
    ∃ e, popUntil R held (forkPoint R second) (d.history.length + 1) { d with fork := f } =
      .threw e (rewound R { d with fork := f } ((second.map (·.data)).take j) y) := by
  have hlen := length_le_of_applied h.applied
  rw [h.point]
  exact popUntil_threw (R := R) held (second.map (·.data)) (n := d.history.length + 1)
    (d := { d with fork := f }) h.applied h.holds h.head h.base (by omega) (by simpa using hj) hy
    hstop

end Leaving

/-! ### Applying the new branch -/

theorem exists_stop {f : ForkDatabase B} {held : List (ForkItem B)} {x : ForkItem B} :
    ∀ {n : ℕ}, ¬ f.HasAncestors held n x →
      ∃ j < n, f.HasAncestors held j x ∧ ¬ f.HasAncestors held (j + 1) x
  | 0, h => absurd ForkDatabase.hasAncestors_zero h
  | n + 1, h => by
    by_cases hn : f.HasAncestors held n x
    · exact ⟨n, Nat.lt_succ_self n, hn, h⟩
    · obtain ⟨j, hj, hyes, hno⟩ := exists_stop hn
      exact ⟨j, Nat.lt_succ_of_lt hj, hyes, hno⟩

omit [DecidableEq Id] in
theorem accepted_eq : ∀ {done rest : List (ForkItem B)} {d d' : Database B Id S},
    Outcome.forEach (applyBlock R) (done.map (·.data)) d = .ok d' →
    (∀ x ∈ rest.head?, R.apply x.data d'.state = none) →
    accepted R (done ++ rest) d.state = done.length
  | [], rest, d, d', h, hstop => by
    obtain rfl : d = d' := by simpa using h
    rcases rest with _ | ⟨x, rest⟩
    · rfl
    · rw [List.nil_append, accepted, hstop x (by simp)]
      rfl
  | x :: done, rest, d, d', h, hstop => by
    rw [List.map_cons, Outcome.forEach_cons] at h
    obtain ⟨d₁, h₁, h⟩ := Outcome.bind_eq_ok.1 h
    obtain ⟨happ, -⟩ := applyBlock_eq_ok h₁
    rw [List.cons_append, accepted, happ, List.length_cons]
    dsimp only
    rw [accepted_eq h hstop]

/-- The blocks of a list of items, the last item's block first. -/
def newest (done : List (ForkItem B)) : List B := (done.map (·.data)).reverse

/-- The situation in which a switch fails: the database has been taken to the fork point, the items
`done` of the new branch have been applied, and `rest` is left. -/
structure Failed (R : ChainRules B Id S) (d : Database B Id S) (f : ForkDatabase B)
    (x : ForkItem B) (first second : List (ForkItem B)) (t : S) (done rest : List (ForkItem B))
    (d₃ : Database B Id S) : Prop extends Leaving R d f x first second t where
  split : first.reverse = done ++ rest
  new_applied : Applied R d₃.state (newest done) d₃.history
  new_base : (d₃.state :: d₃.history)[(newest done).length]? = some t
  history : d₃.history.drop (newest done).length = d.history.drop second.length
  store : d₃.store = storeAll R (newest done).reverse
    ((second.map (·.data)).foldl (erase R) d.store)
  fork : ∃ y, d₃.fork = { f with head := some y }

theorem without_head (rest : List (ForkItem B)) (f : ForkDatabase B) (h : Option (ForkItem B)) :
    without R rest { f with head := h } = { without R rest f with head := h } := by
  induction rest generalizing f with
  | nil => rfl
  | cons x rest ih => exact ih (f.remove R.toBlockIds (R.id x.data))

namespace Failed

variable {d d₃ : Database B Id S} {f : ForkDatabase B} {x old : ForkItem B}
  {first second older : List (ForkItem B)} {t : S} {done rest : List (ForkItem B)}

theorem holds_new (h : Failed R d f x first second t done rest d₃) :
    ∀ b ∈ newest done, d₃.store.Holds R.toBlockIds b := by
  rw [h.store]
  exact holds_storeAll h.new_applied _

theorem head_old (h : Failed R d f x first (old :: older) t done rest d₃) :
    R.headId d.state = R.id old.data := by
  have ha := h.applied
  rw [List.map_cons] at ha
  obtain ⟨u, us, -, happ, -⟩ := ha.exists_cons
  exact R.apply_head happ

/-- The failure path, from the point where the old head is the head of the fork database. -/
theorem recover_eq (h : Failed R d f x first (old :: older) t done rest d₃)
    (held : List (ForkItem B)) : d₃.recover R held rest (old :: older) =
      (popUntil R held (R.headId t) (d₃.history.length + 1)
        { d₃ with fork := { without R rest f with head := some old } }).bind fun d =>
      (Outcome.forEach (applyBlock R) ((old :: older).map (·.data)).reverse d).bind fun d =>
        .threw "apply_block" d := by
  obtain ⟨y, hy⟩ := h.fork
  have hfork : ForkDatabase.setHead (without R rest d₃.fork) old =
      { without R rest f with head := some old } := by
    rw [hy, without_head]
    rfl
  have hall : ∀ d : Database B Id S,
      Outcome.forEach (fun x d => applyBlock R x.data d) (old :: older).reverse d =
        Outcome.forEach (applyBlock R) ((old :: older).map (·.data)).reverse d := fun d => by
    rw [← List.map_reverse, ← Outcome.forEach_map]
  rw [← h.point, ← hfork]
  simp only [recover, hall]
  rfl

/-- The database after the recovery, if the pointers of the old head can be followed as many times
as blocks have to be popped. -/
theorem recover_eq_threw (h : Failed R d f x first (old :: older) t done rest d₃)
    (held : List (ForkItem B)) {y : ForkItem B}
    (hy : (without R rest f).ancestor held done.length old = some y) :
    d₃.recover R held rest (old :: older) = .threw "apply_block"
      ⟨d.state, d.history, storeAll R ((old :: older).map (·.data)).reverse
        ((newest done).foldl (erase R) d₃.store), { without R rest f with head := some y }⟩ := by
  have hlen := length_le_of_applied h.new_applied
  have hpop := popUntil_ok (R := R) held (newest done) (n := d₃.history.length + 1)
    (d := { d₃ with fork := { without R rest f with head := some old } }) h.new_applied
    h.holds_new rfl h.new_base (by omega)
    (ForkDatabase.ancestor_head.trans (by simpa [newest] using hy))
  have hall := forEach_of_applied (R := R) h.applied
    (d := rewound R { d₃ with fork := { without R rest f with head := some old } } (newest done) y)
    (by rw [h.base, rewound, h.new_base]; rfl) (by rw [rewound, h.history, List.length_map])
  rw [h.recover_eq, hpop, Outcome.bind_ok, hall, Outcome.bind_ok]
  rfl

end Failed

namespace Leaving

variable {d : Database B Id S} {f : ForkDatabase B} {x : ForkItem B}
  {first second : List (ForkItem B)} {t : S}

/-- The switch gets to the fork point and applies the new branch, all of it or the items `done`. -/
theorem exists_failed (h : Leaving R d f x first second t) {held : List (ForkItem B)}
    (hanc : f.HasAncestors held second.length x) :
    ∃ d₂ d₃ done rest,
      popUntil R held (forkPoint R second) (d.history.length + 1) { d with fork := f } = .ok d₂ ∧
      d₂.applyBranch R first.reverse = (d₃, rest) ∧ accepted R first.reverse t = done.length ∧
      Failed R d f x first second t done rest d₃ := by
  obtain ⟨y, hy⟩ := Option.isSome_iff_exists.1 hanc
  have hpop := h.pop_ok hy
  obtain ⟨done, rest, d₃, hrun, hsplit, hall, hstop⟩ := applyBranch_spec (R := R) first.reverse
    ⟨t, d.history.drop second.length, (second.map (·.data)).foldl (erase R) d.store,
      { f with head := some y }⟩
  refine ⟨_, d₃, done, rest, hpop, hrun, ?_, ?_⟩
  · rw [hsplit]
    exact accepted_eq hall hstop
  · rw [← List.reverse_reverse (done.map (·.data))] at hall
    obtain ⟨ha, hbase, hdrop, hstore, hfork⟩ := applied_of_forEach hall
    exact ⟨h, hsplit, ha, hbase, hdrop, hstore, ⟨y, hfork⟩⟩

end Leaving

end Database

end Whitecoin.Chain
