import Whitecoin.Chain.BlockDatabase
import Whitecoin.Lib.Outcome

/-!
# Pushing and popping blocks

`_push_block` hands a block to the fork database and then either applies it on top of the head or,
when another branch has become longer, switches to that branch: it pops blocks down to the fork
point, applies the blocks of the new branch one by one, and if one of them throws, pops back and
applies the old branch again.

What applying a block does is a parameter here: a function of the objects and the block that returns
the new objects or throws. Its effects are undone exactly when it throws, and the undo history is
the list of the objects before each block, as long as it needs to be.
-/

namespace Whitecoin.Chain

/-- Blocks, and `apply_block` as a function. A block is applied to the objects whose head is its
previous block, and becomes their head. -/
structure ChainRules (B Id S : Type) extends BlockIds B Id where
  headId : S → Id
  apply : B → S → Option S
  apply_previous : ∀ {b s s'}, apply b s = some s' → headId s = previous b
  apply_head : ∀ {b s s'}, apply b s = some s' → headId s' = id b

/-- The chain database. -/
structure Database (B Id S : Type) where
  state : S
  history : List S
  store : BlockDatabase B Id
  fork : ForkDatabase B

namespace Database

variable {B Id S : Type} [DecidableEq Id] (R : ChainRules B Id S)

def fetchBlockById (d : Database B Id S) (id : Id) : Option B :=
  match d.fork.fetchBlock R.toBlockIds id with
  | some x => some x.data
  | none => d.store.fetchOptional R.toBlockIds id

/-- `pop_block`. -/
def popBlock (held : List (ForkItem B)) (d : Database B Id S) :
    Outcome String (Database B Id S) :=
  match d.fetchBlockById R (R.headId d.state) with
  | none => .threw "there are no blocks to pop" d
  | some _ =>
    match d.fork.popBlock held with
    | .error e => .threw e d
    | .ok fork =>
      match d.store.remove R.toBlockIds (R.headId d.state) with
      | .error e => .threw e { d with fork }
      | .ok store =>
        match d.history with
        | [] => .threw "!back.empty()" { d with fork, store }
        | state :: history => .ok { state, history, store, fork }

/-- `while( head_block_id() != target ) pop_block();`. Each iteration shortens the history, so its
length bounds the iterations. -/
def popUntil (held : List (ForkItem B)) (target : Id) :
    ℕ → Database B Id S → Outcome String (Database B Id S)
  | 0, d => .ok d
  | n + 1, d =>
    if R.headId d.state = target then .ok d
    else (d.popBlock R held).bind (popUntil held target n)

/-- Open a session, apply the block, store it and commit. -/
def applyBlock (b : B) (d : Database B Id S) : Outcome String (Database B Id S) :=
  match R.apply b d.state with
  | none => .threw "apply_block" d
  | some state =>
    .ok { d with
      state
      history := d.state :: d.history
      store := d.store.store R.toBlockIds (R.id b) b }

/-- Apply the items of a branch, the oldest first, as far as they apply: what is reached, and the
items from the first one that throws on. -/
def applyBranch : List (ForkItem B) → Database B Id S → Database B Id S × List (ForkItem B)
  | [], d => (d, [])
  | x :: rest, d =>
    match d.applyBlock R x.data with
    | .ok d => applyBranch rest d
    | .threw _ d => (d, x :: rest)

/-- `branches.second.back()->data.previous`. -/
def forkPoint (second : List (ForkItem B)) : Id :=
  match second.getLast? with
  | none => R.null
  | some x => R.previous x.data

/-- The failure path of the switch: forget the rest of the new branch, make the old head the head of
the fork database, pop what was applied of the new branch and apply the old branch. -/
def recover (held rest second : List (ForkItem B)) (d : Database B Id S) :
    Outcome String (Database B Id S) :=
  let fork := rest.foldl (fun f x => f.remove R.toBlockIds (R.id x.data)) d.fork
  let fork := match second with
    | [] => fork
    | old :: _ => fork.setHead old
  let d := { d with fork }
  (d.popUntil R held (forkPoint R second) (d.history.length + 1)).bind fun d =>
  (Outcome.forEach (fun x d => applyBlock R x.data d) second.reverse d).bind fun d =>
    .threw "apply_block" d

/-- The switch to the branch of `newHead`. -/
def switchTo (newHead : ForkItem B) (d : Database B Id S) : Outcome String (Database B Id S) :=
  match d.fork.fetchBranchFrom R.toBlockIds [newHead] (R.id newHead.data) (R.headId d.state) with
  | none => .threw "fetch_branch_from" d
  | some (first, second) =>
    let held := newHead :: (first ++ second)
    (d.popUntil R held (forkPoint R second) (d.history.length + 1)).bind fun d =>
      match d.applyBranch R first.reverse with
      | (d, []) => .ok d
      | (d, x :: rest) => d.recover R held (x :: rest) second

/-- Apply a block on top of the head. -/
def extend (d : Database B Id S) (b : B) : Outcome String (Database B Id S) :=
  match d.applyBlock R b with
  | .ok d => .ok d
  | .threw e d => .threw e { d with fork := d.fork.remove R.toBlockIds (R.id b) }

/-- `_push_block`. -/
def pushBlock (skipForkDb : Bool) (d : Database B Id S) (b : B) :
    Outcome String (Database B Id S) :=
  if skipForkDb then d.extend R b
  else
    match d.fork.pushBlock R.toBlockIds b with
    | .error e => .threw e d
    | .ok (fork, newHead) =>
      let d := { d with fork }
      if R.previous newHead.data = R.headId d.state then d.extend R b
      else if R.numFromId (R.headId d.state) < newHead.num R.toBlockIds then d.switchTo R newHead
      else .ok d

end Database

variable {B Id S : Type}

/-! ### Blocks and the states they were applied to -/

theorem ChainRules.num_of_apply (R : ChainRules B Id S) {b : B} {s s' : S}
    (h : R.apply b s = some s') : R.numFromId (R.id b) = R.numFromId (R.headId s) + 1 := by
  rw [R.num_id, R.apply_previous h]

/-- The newest states of the history `h` are those to which the blocks `bs` were applied, the newest
block first, with the result `s`. -/
def Applied (R : ChainRules B Id S) : S → List B → List S → Prop
  | _, [], _ => True
  | s, b :: bs, t :: ts => R.apply b t = some s ∧ Applied R t bs ts
  | _, _ :: _, [] => False

namespace Applied

variable {R : ChainRules B Id S} {s : S} {b : B} {bs : List B} {h : List S}

theorem exists_cons (ha : Applied R s (b :: bs) h) :
    ∃ t ts, h = t :: ts ∧ R.apply b t = some s ∧ Applied R t bs ts := by
  rcases h with _ | ⟨t, ts⟩
  · exact ha.elim
  · exact ⟨t, ts, rfl, ha.1, ha.2⟩

/-- The state the oldest of the blocks was applied to; its head is that many blocks lower. -/
theorem exists_base : ∀ {s : S} {bs : List B} {h : List S}, Applied R s bs h →
    ∃ t, (s :: h)[bs.length]? = some t ∧
      R.numFromId (R.headId t) + bs.length = R.numFromId (R.headId s)
  | s, [], h, _ => ⟨s, by simp, by simp⟩
  | s, b :: bs, h, ha => by
    obtain ⟨t, ts, rfl, happ, ha'⟩ := ha.exists_cons
    obtain ⟨t', ht', hnum⟩ := exists_base ha'
    refine ⟨t', by simpa using ht', ?_⟩
    rw [R.apply_head happ, R.num_of_apply happ, List.length_cons]
    omega

theorem head_ne {t : S} (ha : Applied R s (b :: bs) h)
    (ht : (s :: h)[(b :: bs).length]? = some t) : R.headId s ≠ R.headId t := by
  obtain ⟨t', ht', hnum⟩ := ha.exists_base
  obtain rfl : t = t' := Option.some_inj.1 (ht.symm.trans ht')
  intro heq
  rw [heq, List.length_cons] at hnum
  omega

theorem num_le : ∀ {s : S} {bs : List B} {h : List S}, Applied R s bs h → ∀ c ∈ bs,
    R.numFromId (R.id c) ≤ R.numFromId (R.headId s)
  | _, [], _, _, _, hc => by simp at hc
  | s, b :: bs, h, ha, c, hc => by
    obtain ⟨t, ts, rfl, happ, ha'⟩ := ha.exists_cons
    rcases List.mem_cons.1 hc with rfl | hc
    · rw [R.apply_head happ]
    · have := num_le ha' c hc
      rw [R.apply_head happ, R.num_of_apply happ]
      omega

theorem num_lt (ha : Applied R s (b :: bs) h) : ∀ c ∈ bs,
    R.numFromId (R.id c) < R.numFromId (R.id b) := by
  obtain ⟨t, ts, rfl, happ, ha'⟩ := ha.exists_cons
  intro c hc
  have := ha'.num_le c hc
  rw [R.num_of_apply happ]
  omega

theorem head_eq : ∀ {s u : S} {bs : List B} {h : List S} {j : ℕ}, Applied R s bs h →
    j < bs.length → (s :: h)[j]? = some u → ∃ b, bs[j]? = some b ∧ R.headId u = R.id b
  | _, _, [], _, _, _, hj, _ => by simp at hj
  | s, u, b :: bs, h, j, ha, hj, hu => by
    obtain ⟨t, ts, rfl, happ, ha'⟩ := ha.exists_cons
    rcases j with _ | j
    · obtain rfl : s = u := by simpa using hu
      exact ⟨b, rfl, R.apply_head happ⟩
    · obtain ⟨c, hc, hid⟩ := head_eq ha' (by simpa using hj) (by simpa using hu)
      exact ⟨c, by simpa using hc, hid⟩

theorem exists_oldest : ∀ {s t : S} {bs : List B} {h : List S}, Applied R s (bs ++ [b]) h →
    (s :: h)[bs.length + 1]? = some t →
    ∃ u, (s :: h)[bs.length]? = some u ∧ R.apply b t = some u
  | s, t, [], h, ha, ht => by
    obtain ⟨u, us, rfl, happ, -⟩ := ha.exists_cons
    obtain rfl : u = t := by simpa using ht
    exact ⟨s, rfl, happ⟩
  | s, t, c :: bs, h, ha, ht => by
    rw [List.cons_append] at ha
    obtain ⟨u, us, rfl, happ, ha'⟩ := ha.exists_cons
    obtain ⟨v, hv, hb⟩ := exists_oldest ha' (by simpa using ht)
    exact ⟨v, by simpa using hv, hb⟩

theorem take : ∀ {s : S} {bs : List B} {h : List S} (n : ℕ), Applied R s bs h →
    Applied R s (bs.take n) h
  | _, _, _, 0, _ => trivial
  | _, [], _, _ + 1, _ => trivial
  | _, b :: bs, h, n + 1, ha => by
    obtain ⟨t, ts, rfl, happ, ha'⟩ := ha.exists_cons
    exact ⟨happ, ha'.take n⟩

end Applied

/-! ### Popping -/

namespace Database

variable [DecidableEq Id] {R : ChainRules B Id S} {held : List (ForkItem B)}

/-- The entries of these blocks are empty. -/
def erase (R : ChainRules B Id S) (store : BlockDatabase B Id) (b : B) : BlockDatabase B Id :=
  { store with
    entries := Function.update store.entries (R.numFromId (R.id b)) ⟨R.id b, none⟩ }

/-- The database after these blocks were popped, the newest first. -/
def rewound (R : ChainRules B Id S) (d : Database B Id S) (bs : List B) (y : ForkItem B) :
    Database B Id S where
  state := ((d.state :: d.history)[bs.length]?).getD d.state
  history := d.history.drop bs.length
  store := bs.foldl (erase R) d.store
  fork := { d.fork with head := some y }

variable {d d' : Database B Id S} {b : B} {t : S} {ts : List S} {x y : ForkItem B}
  {store : BlockDatabase B Id}

theorem popBlock_ok (hhist : d.history = t :: ts) (happ : R.apply b t = some d.state)
    (hholds : d.store.Holds R.toBlockIds b) (hhead : d.fork.head = some x)
    (hlock : d.fork.lock held x.prev = some y) :
    d.popBlock R held =
      .ok ⟨t, ts, erase R d.store b, { d.fork with head := some y }⟩ := by
  have hfetch : ∃ c, d.fetchBlockById R (R.headId d.state) = some c := by
    rw [fetchBlockById, R.apply_head happ, hholds.fetchOptional]
    split <;> exact ⟨_, rfl⟩
  obtain ⟨c, hc⟩ := hfetch
  have hremove : d.store.remove R.toBlockIds (R.headId d.state) = .ok (erase R d.store b) := by
    rw [R.apply_head happ, hholds.remove]
    rfl
  simp only [popBlock, hc, ForkDatabase.popBlock_eq_ok hhead hlock, hremove, hhist]

theorem popBlock_threw (hhead : d.fork.head = some x) (hlock : d.fork.lock held x.prev = none) :
    ∃ e, d.popBlock R held = .threw e d := by
  obtain ⟨e, he⟩ := ForkDatabase.popBlock_eq_error hhead hlock
  rw [popBlock]
  split
  · exact ⟨_, rfl⟩
  · exact ⟨e, by rw [he]⟩

theorem popBlock_cases (held : List (ForkItem B)) (hhist : d.history = t :: ts)
    (happ : R.apply b t = some d.state) (hholds : d.store.Holds R.toBlockIds b) :
    (∃ e, d.popBlock R held = .threw e d) ∨
      ∃ y ∈ held ++ d.fork.index ++ d.fork.itemsRead, d.popBlock R held =
        .ok ⟨t, ts, erase R d.store b, { d.fork with head := some y }⟩ := by
  rcases hhead : d.fork.head with _ | x
  · refine .inl ?_
    rw [popBlock, ForkDatabase.popBlock, hhead]
    split <;> exact ⟨_, rfl⟩
  · rcases hlock : d.fork.lock held x.prev with _ | y
    · exact .inl (popBlock_threw hhead hlock)
    · exact .inr ⟨y, (ForkDatabase.lock_mem hlock).1, popBlock_ok hhist happ hholds hhead hlock⟩

omit [DecidableEq Id] in
theorem block_erase {n : ℕ} (h : n ≠ R.numFromId (R.id b) → (store.entries n).block = none) :
    ((erase R store b).entries n).block = none := by
  by_cases hn : n = R.numFromId (R.id b)
  · simp [erase, hn]
  · simp [erase, hn, h]

omit [DecidableEq Id] in
theorem holds_erase {c : B} (h : store.Holds R.toBlockIds c)
    (hne : R.numFromId (R.id c) ≠ R.numFromId (R.id b)) :
    (erase R store b).Holds R.toBlockIds c := by
  refine ⟨?_, h.2⟩
  show Function.update _ _ _ _ = _
  rw [Function.update_of_ne hne, h.1]

omit [DecidableEq Id] in
theorem rewound_cons {bs : List B} (hhist : d.history = t :: ts) (hbase : bs.length ≤ ts.length) :
    rewound R ⟨t, ts, erase R d.store b, { d.fork with head := some x }⟩ bs y =
      rewound R d (b :: bs) y := by
  obtain ⟨e, he⟩ : ∃ e, (t :: ts)[bs.length]? = some e :=
    ⟨_, List.getElem?_eq_getElem (by simp; omega)⟩
  simp only [rewound, hhist, List.length_cons, List.getElem?_cons_succ, he, Option.getD_some,
    List.drop_succ_cons, List.foldl_cons]

omit [DecidableEq Id] in
theorem rewound_nil (hhead : d.fork.head = some x) : rewound R d [] x = d := by
  obtain ⟨state, history, store, ⟨index, head, itemsRead, nextPtr⟩⟩ := d
  obtain rfl : head = some x := hhead
  simp [rewound]

omit [DecidableEq Id] in
theorem length_le_of_applied : ∀ {s : S} {bs : List B} {h : List S}, Applied R s bs h →
    bs.length ≤ h.length
  | _, [], _, _ => Nat.zero_le _
  | _, b :: bs, h, ha => by
    obtain ⟨t, ts, rfl, -, ha'⟩ := ha.exists_cons
    have := length_le_of_applied ha'
    simpa using this

/-- The loop ends at its target if the pointers of the fork database's head can be followed that
many times. -/
theorem popUntil_ok (held : List (ForkItem B)) : ∀ (bs : List B) {n : ℕ} {d : Database B Id S}
    {x y : ForkItem B} {t : S},
    Applied R d.state bs d.history → (∀ b ∈ bs, d.store.Holds R.toBlockIds b) →
    d.fork.head = some x → (d.state :: d.history)[bs.length]? = some t → bs.length < n →
    d.fork.ancestor held bs.length x = some y →
    d.popUntil R held (R.headId t) n = .ok (rewound R d bs y)
  | [], n + 1, d, x, y, t, _, _, hhead, ht, _, hy => by
    obtain rfl : d.state = t := by simpa using ht
    obtain rfl : x = y := by simpa [ForkDatabase.ancestor] using hy
    rw [popUntil, if_pos rfl, rewound_nil hhead]
  | b :: bs, n + 1, d, x, y, t, ha, hholds, hhead, ht, hn, hy => by
    obtain ⟨s₁, ts, hhist, happ, ha'⟩ := ha.exists_cons
    obtain ⟨z, hlock, hy⟩ := Option.bind_eq_some_iff.1 hy
    have hpop := popBlock_ok (R := R) hhist happ (hholds b List.mem_cons_self) hhead hlock
    rw [popUntil, if_neg (ha.head_ne ht), hpop, Outcome.bind_ok,
      popUntil_ok held bs (n := n)
        (d := ⟨s₁, ts, erase R d.store b, { d.fork with head := some z }⟩) ha'
        (fun c hc => holds_erase (hholds c (List.mem_cons_of_mem _ hc)) (ha.num_lt c hc).ne)
        rfl (by simpa [hhist] using ht) (by simpa using hn)
        (ForkDatabase.ancestor_head.trans hy),
      rewound_cons hhist (length_le_of_applied ha')]

theorem popUntil_threw (held : List (ForkItem B)) : ∀ (bs : List B) {n j : ℕ}
    {d : Database B Id S} {x y : ForkItem B} {t : S},
    Applied R d.state bs d.history → (∀ b ∈ bs, d.store.Holds R.toBlockIds b) →
    d.fork.head = some x → (d.state :: d.history)[bs.length]? = some t → bs.length < n →
    j < bs.length → d.fork.ancestor held j x = some y → ¬ d.fork.HasAncestors held (j + 1) x →
    ∃ e, d.popUntil R held (R.headId t) n = .threw e (rewound R d (bs.take j) y)
  | b :: bs, n + 1, 0, d, x, y, t, ha, hholds, hhead, ht, hn, hj, hy, hstop => by
    -- the first pop throws
    have hlock : d.fork.lock held x.prev = none := by
      by_contra hsome
      obtain ⟨z, hz⟩ := Option.ne_none_iff_exists'.1 hsome
      exact hstop (ForkDatabase.hasAncestors_succ.2 ⟨z, hz, ForkDatabase.hasAncestors_zero⟩)
    obtain rfl : x = y := by simpa [ForkDatabase.ancestor] using hy
    obtain ⟨e, he⟩ := popBlock_threw (R := R) hhead hlock
    refine ⟨e, ?_⟩
    rw [popUntil, if_neg (ha.head_ne ht), he, List.take_zero, rewound_nil hhead]
    rfl
  | b :: bs, n + 1, j + 1, d, x, y, t, ha, hholds, hhead, ht, hn, hj, hy, hstop => by
    obtain ⟨s₁, ts, hhist, happ, ha'⟩ := ha.exists_cons
    obtain ⟨z, hlock, hy⟩ := Option.bind_eq_some_iff.1 hy
    have hpop := popBlock_ok (R := R) hhist happ (hholds b List.mem_cons_self) hhead hlock
    have hstop' : ¬ d.fork.HasAncestors held (j + 1) z := fun h =>
      hstop (ForkDatabase.hasAncestors_succ.2 ⟨z, hlock, h⟩)
    obtain ⟨e, he⟩ := popUntil_threw held bs (n := n) (j := j)
      (d := ⟨s₁, ts, erase R d.store b, { d.fork with head := some z }⟩) ha'
      (fun c hc => holds_erase (hholds c (List.mem_cons_of_mem _ hc)) (ha.num_lt c hc).ne)
      rfl (by simpa [hhist] using ht) (by simpa using hn) (by simpa using hj)
      (ForkDatabase.ancestor_head.trans hy) (fun h => hstop' (ForkDatabase.hasAncestors_head.1 h))
    have hle := length_le_of_applied ha'
    refine ⟨e, ?_⟩
    rw [popUntil, if_neg (ha.head_ne ht), hpop, Outcome.bind_ok, he, List.take_succ_cons,
      rewound_cons hhist (by rw [List.length_take]; omega)]

/-! ### Applying a branch -/

omit [DecidableEq Id] in
theorem applyBlock_eq_ok (h : d.applyBlock R b = .ok d') :
    R.apply b d.state = some d'.state ∧ d'.history = d.state :: d.history ∧
      d'.store = d.store.store R.toBlockIds (R.id b) b ∧ d'.fork = d.fork := by
  rw [applyBlock] at h
  rcases happ : R.apply b d.state with _ | s
  · simp [happ] at h
  · rw [happ, Outcome.ok.injEq] at h
    rw [← h]
    exact ⟨rfl, rfl, rfl, rfl⟩

omit [DecidableEq Id] in
theorem applyBlock_threw {e : String} (h : d.applyBlock R b = .threw e d') : d' = d := by
  rw [applyBlock] at h
  split at h
  · exact (Outcome.threw.inj h).2.symm
  · simp at h

omit [DecidableEq Id] in
theorem applyBlock_of_apply {s : S} (h : R.apply b d.state = some s) : d.applyBlock R b =
      .ok ⟨s, d.state :: d.history, d.store.store R.toBlockIds (R.id b) b, d.fork⟩ := by
  rw [applyBlock, h]

/-- These blocks are stored, the first one first. -/
def storeAll (R : ChainRules B Id S) (bs : List B) (store : BlockDatabase B Id) :
    BlockDatabase B Id :=
  bs.foldl (fun store b => store.store R.toBlockIds (R.id b) b) store

omit [DecidableEq Id] in
theorem applied_of_forEach : ∀ {bs : List B} {d d' : Database B Id S},
    Outcome.forEach (applyBlock R) bs.reverse d = .ok d' →
    Applied R d'.state bs d'.history ∧ (d'.state :: d'.history)[bs.length]? = some d.state ∧
      d'.history.drop bs.length = d.history ∧ d'.store = storeAll R bs.reverse d.store ∧
      d'.fork = d.fork
  | [], d, d', h => by
    obtain rfl : d = d' := by simpa using h
    exact ⟨trivial, rfl, rfl, rfl, rfl⟩
  | b :: bs, d, d', h => by
    rw [List.reverse_cons, Outcome.forEach_append] at h
    obtain ⟨d₁, h₁, h⟩ := Outcome.bind_eq_ok.1 h
    obtain ⟨ha, hbase, hdrop, hstore, hfork⟩ := applied_of_forEach h₁
    rw [Outcome.forEach_cons] at h
    obtain ⟨d₂, h₂, h⟩ := Outcome.bind_eq_ok.1 h
    obtain rfl : d₂ = d' := by simpa using h
    obtain ⟨happ, hhist, hst, hf⟩ := applyBlock_eq_ok h₂
    refine ⟨by rw [hhist]; exact ⟨happ, ha⟩, ?_, ?_, ?_, hf.trans hfork⟩
    · rw [hhist, List.length_cons, List.getElem?_cons_succ, hbase]
    · rw [hhist, List.length_cons, List.drop_succ_cons, hdrop]
    · rw [hst, hstore, storeAll, storeAll, List.reverse_cons, List.foldl_append]
      rfl

omit [DecidableEq Id] in
theorem forEach_of_applied : ∀ {bs : List B} {d : Database B Id S} {s : S} {h : List S},
    Applied R s bs h → (s :: h)[bs.length]? = some d.state → h.drop bs.length = d.history →
    Outcome.forEach (applyBlock R) bs.reverse d =
      .ok ⟨s, h, storeAll R bs.reverse d.store, d.fork⟩
  | [], d, s, h, _, hbase, hdrop => by
    obtain rfl : s = d.state := by simpa using hbase
    obtain rfl : h = d.history := by simpa using hdrop
    rfl
  | b :: bs, d, s, h, ha, hbase, hdrop => by
    obtain ⟨t, ts, rfl, happ, ha'⟩ := ha.exists_cons
    have hih := forEach_of_applied (d := d) ha' (by simpa using hbase) (by simpa using hdrop)
    rw [List.reverse_cons, Outcome.forEach_append, hih, Outcome.bind_ok, Outcome.forEach_cons,
      applyBlock_of_apply (d := ⟨t, ts, _, _⟩) happ, Outcome.bind_ok, Outcome.forEach_nil,
      storeAll, storeAll, List.foldl_append]
    rfl

omit [DecidableEq Id] in
theorem applyBranch_spec : ∀ (items : List (ForkItem B)) (d : Database B Id S),
    ∃ done rest d', d.applyBranch R items = (d', rest) ∧ items = done ++ rest ∧
      Outcome.forEach (applyBlock R) (done.map (·.data)) d = .ok d' ∧
      ∀ x ∈ rest.head?, R.apply x.data d'.state = none
  | [], d => ⟨[], [], d, rfl, rfl, rfl, by simp⟩
  | x :: items, d => by
    rcases happ : R.apply x.data d.state with _ | s
    · refine ⟨[], x :: items, d, ?_, rfl, rfl, by simpa using happ⟩
      rw [applyBranch, applyBlock, happ]
    · obtain ⟨done, rest, d', hrun, hitems, hall, hstop⟩ := applyBranch_spec items
        ⟨s, d.state :: d.history, d.store.store R.toBlockIds (R.id x.data) x.data, d.fork⟩
      refine ⟨x :: done, rest, d', ?_, by rw [hitems, List.cons_append], ?_, hstop⟩
      · rw [applyBranch, applyBlock_of_apply happ]
        exact hrun
      · rw [List.map_cons, Outcome.forEach_cons, applyBlock_of_apply happ, Outcome.bind_ok]
        exact hall

end Database

end Whitecoin.Chain
