import Mathlib.Data.List.Nodup
import Mathlib.Logic.Function.Basic

/-!
# Batches

Items with states, linked by ids. A *source* starts alone; a *batch* lists sources and takes them
along; *followers* are attached to a batch; a *loose* item is attached to something that is not a
batch, and nobody looks at it again.

Decisions are taken at one item and carried out at the batch around it. That is right as long as
the items around a batch agree, which is what `Coherent` says: the sources of a batch are in the
state of the batch, and so is a follower whose state is one of the *busy* ones. The theorems say
which changes keep the agreement, and `Coherent.settled_apart` what the agreement is good for: an
item that has reached a busy state other than that of a batch does not move with the batch.
-/

namespace Batch

inductive Kind where
  | source
  | batch
  | follower
  | loose
  deriving DecidableEq

structure Item (ι σ : Type) where
  kind : Kind
  relate : ι
  listed : List ι
  state : σ

/-- The id that names nothing, the state in which a source is in no batch, and the busy states. -/
structure Rules (ι σ : Type) where
  nil : ι
  fresh : σ
  Busy : σ → Prop

variable {ι σ : Type}

/-- The item in another state. -/
def Item.to (n : Item ι σ) (st : σ) : Item ι σ := { n with state := st }

namespace Item

variable (n : Item ι σ) (st : σ)

@[simp] theorem kind_to : (n.to st).kind = n.kind := rfl

@[simp] theorem relate_to : (n.to st).relate = n.relate := rfl

@[simp] theorem listed_to : (n.to st).listed = n.listed := rfl

@[simp] theorem state_to : (n.to st).state = st := rfl

end Item

/-- Every item gets the state that `new` gives for it. -/
def moved (new : ι → Item ι σ → σ) (view : ι → Option (Item ι σ)) : ι → Option (Item ι σ) :=
  fun id => (view id).map fun n => n.to (new id n)

section

variable {view : ι → Option (Item ι σ)} {new : ι → Item ι σ → σ} {id : ι} {n : Item ι σ}

theorem moved_eq_some {n' : Item ι σ} :
    moved new view id = some n' ↔ ∃ n, view id = some n ∧ n' = n.to (new id n) := by
  rw [moved, Option.map_eq_some_iff]
  simp only [eq_comm]

theorem moved_of_some (h : view id = some n) : moved new view id = some (n.to (new id n)) :=
  moved_eq_some.mpr ⟨n, h, rfl⟩

end

/-! ### Links -/

/-- A batch is attached to one of the distinct sources it lists. -/
structure Lists (view : ι → Option (Item ι σ)) (n : Item ι σ) : Prop where
  relate : n.relate ∈ n.listed
  nodup : n.listed.Nodup
  listed : ∀ w ∈ n.listed, ∃ W, view w = some W ∧ W.kind = .source

structure Linked (R : Rules ι σ) (view : ι → Option (Item ι σ)) : Prop where
  nil : view R.nil = none
  source : ∀ id n, view id = some n → n.kind = .source → n.relate = R.nil
  batch : ∀ id n, view id = some n → n.kind = .batch → Lists view n
  loose : ∀ id n, view id = some n → n.kind = .loose →
    ∃ x, view n.relate = some x ∧ x.kind ≠ .batch
  disjoint : ∀ id n id' n' w, view id = some n → n.kind = .batch → view id' = some n' →
    n'.kind = .batch → w ∈ n.listed → w ∈ n'.listed → id = id'

namespace Linked

variable {R : Rules ι σ} {view : ι → Option (Item ι σ)} {new : ι → Item ι σ → σ}
  {id u w : ι} {n U W : Item ι σ}

theorem kind_of_listed (h : Linked R view) (hU : view u = some U) (hk : U.kind = .batch)
    (hw : w ∈ U.listed) (hW : view w = some W) : W.kind = .source := by
  obtain ⟨W', hW', hk'⟩ := (h.batch u U hU hk).listed w hw
  obtain rfl := Option.mem_unique hW hW'
  exact hk'

theorem follower_of_relate (h : Linked R view) (hU : view u = some U) (hk : U.kind = .batch)
    (hn : view id = some n) (hrel : n.relate = u) : n.kind = .follower := by
  cases hkind : n.kind with
  | source =>
    have := h.source id n hn hkind
    rw [← hrel, this, h.nil] at hU
    cases hU
  | batch =>
    have hsource := h.kind_of_listed hn hkind (h.batch id n hn hkind).relate (hrel ▸ hU)
    rw [hk] at hsource
    cases hsource
  | follower => rfl
  | loose =>
    obtain ⟨x, hx, hne⟩ := h.loose id n hn hkind
    rw [hrel, hU, Option.some.injEq] at hx
    exact absurd (hx ▸ hk) hne

/-- **Changes of states keep the links.** -/
theorem moved (h : Linked R view) : Linked R (moved new view) := by
  constructor
  case nil => rw [Batch.moved, h.nil, Option.map_none]
  case source =>
    intro id _ hn'
    obtain ⟨n, hn, rfl⟩ := moved_eq_some.mp hn'
    exact h.source id n hn
  case batch =>
    intro id _ hn' hk
    obtain ⟨n, hn, rfl⟩ := moved_eq_some.mp hn'
    obtain ⟨hrel, hnodup, hlisted⟩ := h.batch id n hn hk
    refine ⟨hrel, hnodup, fun w hw => ?_⟩
    obtain ⟨W, hW, hWk⟩ := hlisted w hw
    exact ⟨_, moved_of_some hW, hWk⟩
  case loose =>
    intro id _ hn' hk
    obtain ⟨n, hn, rfl⟩ := moved_eq_some.mp hn'
    obtain ⟨x, hx, hne⟩ := h.loose id n hn hk
    exact ⟨_, moved_of_some hx, hne⟩
  case disjoint =>
    intro id _ id' _ w hm hk hm' hk'
    obtain ⟨n, hn, rfl⟩ := moved_eq_some.mp hm
    obtain ⟨n', hn', rfl⟩ := moved_eq_some.mp hm'
    exact h.disjoint id n id' n' w hn hk hn' hk'

end Linked

/-! ### New items -/

section Insert

variable [DecidableEq ι] {R : Rules ι σ} {view : ι → Option (Item ι σ)} {id x : ι} {n X : Item ι σ}

theorem update_of_some (hnone : view x = none) (hn : view id = some n) :
    Function.update view x (some X) id = some n := by
  rw [Function.update_of_ne]
  · exact hn
  · rintro rfl
    rw [hnone] at hn
    cases hn

theorem update_eq_some (hn : Function.update view x (some X) id = some n) :
    (id = x ∧ n = X) ∨ view id = some n := by
  by_cases hid : id = x
  · subst hid
    rw [Function.update_self, Option.some.injEq] at hn
    exact .inl ⟨rfl, hn.symm⟩
  · rw [Function.update_of_ne hid] at hn
    exact .inr hn

/-- **A new item keeps the links**, if a new batch lists only sources that are in no other one. -/
theorem Linked.insert (h : Linked R view) (hnone : view x = none) (hx : x ≠ R.nil)
    (hsource : X.kind = .source → X.relate = R.nil)
    (hloose : X.kind = .loose → ∃ y, view X.relate = some y ∧ y.kind ≠ .batch)
    (hbatch : X.kind = .batch → Lists view X ∧ ∀ id n w, view id = some n → n.kind = .batch →
      w ∈ n.listed → w ∉ X.listed) : Linked R (Function.update view x (some X)) := by
  constructor
  case nil => rw [Function.update_of_ne hx.symm, h.nil]
  case source =>
    intro id n hn
    rcases update_eq_some hn with ⟨-, rfl⟩ | hn
    · exact hsource
    · exact h.source id n hn
  case batch =>
    intro id n hn hk
    obtain ⟨hrel, hnodup, hlisted⟩ : Lists view n := by
      rcases update_eq_some hn with ⟨-, rfl⟩ | hn
      · exact (hbatch hk).1
      · exact h.batch id n hn hk
    refine ⟨hrel, hnodup, fun w hw => ?_⟩
    obtain ⟨W, hW, hWk⟩ := hlisted w hw
    exact ⟨W, update_of_some hnone hW, hWk⟩
  case loose =>
    intro id n hn hk
    obtain ⟨y, hy, hne⟩ : ∃ y, view n.relate = some y ∧ y.kind ≠ .batch := by
      rcases update_eq_some hn with ⟨-, rfl⟩ | hn
      · exact hloose hk
      · exact h.loose id n hn hk
    exact ⟨y, update_of_some hnone hy, hne⟩
  case disjoint =>
    intro id n id' n' w hm hk hm' hk' hw hw'
    rcases update_eq_some hm with ⟨rfl, rfl⟩ | hn <;>
      rcases update_eq_some hm' with ⟨rfl, rfl⟩ | hn'
    · rfl
    · exact absurd hw ((hbatch hk).2 id' n' w hn' hk' hw')
    · exact absurd hw' ((hbatch hk').2 id n w hn hk hw)
    · exact h.disjoint id n id' n' w hn hk hn' hk' hw hw'

end Insert

/-! ### States -/

structure Coherent (R : Rules ι σ) (view : ι → Option (Item ι σ)) : Prop extends Linked R view where
  fresh : ∀ id n, view id = some n → n.state = R.fresh → n.kind = .source
  together : ∀ u U w W, view u = some U → U.kind = .batch → w ∈ U.listed → view w = some W →
    W.state = U.state
  busy : ∀ id n, view id = some n → n.kind = .follower → R.Busy n.state →
    ∃ U, view n.relate = some U ∧ U.kind = .batch ∧ U.state = n.state

namespace Coherent

variable {R : Rules ι σ} {view : ι → Option (Item ι σ)} {new : ι → Item ι σ → σ}
  {id u w x : ι} {n U W X : Item ι σ} {st : σ}

theorem empty (h : ∀ id, view id = none) : Coherent R view := by
  refine ⟨⟨h _, ?_, ?_, ?_, ?_⟩, ?_, ?_, ?_⟩ <;> intro id <;> simp [h]

theorem batch_ne_fresh (h : Coherent R view) (hU : view u = some U) (hk : U.kind = .batch) :
    U.state ≠ R.fresh := by
  intro hfresh
  have := h.fresh u U hU hfresh
  rw [hk] at this
  cases this

theorem fresh_not_listed (h : Coherent R view) (hW : view w = some W) (hst : W.state = R.fresh)
    (hU : view u = some U) (hk : U.kind = .batch) : w ∉ U.listed := by
  intro hw
  exact h.batch_ne_fresh hU hk ((h.together u U w W hU hk hw hW).symm.trans hst)

theorem state_of_busy (h : Coherent R view) (hn : view id = some n) (hk : n.kind = .follower)
    (hbusy : R.Busy n.state) (hU : view n.relate = some U) :
    U.kind = .batch ∧ U.state = n.state := by
  obtain ⟨U', hU', hk', hst⟩ := h.busy id n hn hk hbusy
  obtain rfl := Option.mem_unique hU hU'
  exact ⟨hk', hst⟩

/-! ### Batches move -/

/-- The item is none of those that move with the batch. -/
structure Apart (u : ι) (U : Item ι σ) (id : ι) (n : Item ι σ) : Prop where
  ne : id ≠ u
  not_listed : id ∉ U.listed
  relate_ne : n.relate ≠ u

/-- **Who has reached a state of its own does not move with a batch**: a source, or an item in a
busy state. -/
theorem settled_apart (h : Coherent R view) (hU : view u = some U) (hk : U.kind = .batch)
    (hn : view id = some n) (hne : n.state ≠ U.state) (hbusy : n.kind = .source ∨ R.Busy n.state) :
    Apart u U id n := by
  refine ⟨?_, fun hlisted => hne (h.together u U id n hU hk hlisted hn), fun hrel => ?_⟩
  · rintro rfl
    exact hne (congrArg _ (Option.mem_unique hn hU))
  · have hfollower := h.follower_of_relate hU hk hn hrel
    have hb : R.Busy n.state := hbusy.resolve_left (by rw [hfollower]; decide)
    exact hne (h.state_of_busy hn hfollower hb (hrel.symm ▸ hU)).2.symm

theorem batch_apart (h : Coherent R view) (hU : view u = some U) (hk : U.kind = .batch)
    (hn : view id = some n) (hnk : n.kind = .batch) (hid : id ≠ u) : Apart u U id n := by
  refine ⟨hid, fun hlisted => ?_, fun hrel => ?_⟩
  · have := h.kind_of_listed hU hk hlisted hn
    rw [hnk] at this
    cases this
  · have := h.follower_of_relate hU hk hn hrel
    rw [hnk] at this
    cases this

theorem listed_apart (h : Coherent R view) (hU : view u = some U) (hk : U.kind = .batch)
    (hn : view id = some n) (hnk : n.kind = .batch) (hid : id ≠ u) (hw : w ∈ n.listed)
    (hW : view w = some W) : Apart u U w W := by
  have hWk := h.kind_of_listed hn hnk hw hW
  refine ⟨?_, fun hw' => hid (h.disjoint id n u U w hn hnk hU hk hw hw'), fun hrel => ?_⟩
  · rintro rfl
    obtain rfl := Option.mem_unique hU hW
    rw [hk] at hWk
    cases hWk
  · have := h.follower_of_relate hU hk hW hrel
    rw [hWk] at this
    cases this

/-- A change of states that moves the batch `u` to the state `st`: the batch and its sources get
that state, what is attached to it ends in no busy state but that one, and nothing else changes. -/
structure MovesBatch (R : Rules ι σ) (view : ι → Option (Item ι σ)) (u : ι) (U : Item ι σ) (st : σ)
    (new : ι → Item ι σ → σ) : Prop where
  batch : ∀ id n, view id = some n → id = u ∨ id ∈ U.listed → new id n = st
  following : ∀ id n, view id = some n → n.kind = .follower → n.relate = u →
    new id n ≠ R.fresh ∧ (R.Busy (new id n) → new id n = st)
  rest : ∀ id n, view id = some n → Apart u U id n → new id n = n.state

/-- A change that sets one state moves the batch, if it picks the batch and its sources, only what
is attached to it besides, and all of that which is busy. -/
theorem movesBatch (h : Coherent R view) (hU : view u = some U)
    {q : ι → Item ι σ → Prop} [∀ id n, Decidable (q id n)]
    (hnew : ∀ id n, view id = some n → new id n = if q id n then st else n.state)
    (hbatch : ∀ id n, id = u ∨ id ∈ U.listed → q id n)
    (hbusy : ∀ id n, n.relate = u → n.state = U.state → R.Busy n.state → q id n ∨ n.state = st)
    (hrest : ∀ id n, view id = some n → q id n → id = u ∨ id ∈ U.listed ∨ n.relate = u)
    (hst : st ≠ R.fresh) : MovesBatch R view u U st new := by
  refine ⟨fun id n hn hin => by rw [hnew id n hn, if_pos (hbatch id n hin)], ?_, ?_⟩
  · intro id n hn hfollower hrel
    rw [hnew id n hn]
    split
    · exact ⟨hst, fun _ => rfl⟩
    · next hq =>
      refine ⟨fun hfresh => ?_, fun hb => ?_⟩
      · have := h.fresh id n hn hfresh
        rw [hfollower] at this
        cases this
      · have hsame := (h.state_of_busy hn hfollower hb (hrel.symm ▸ hU)).2
        exact (hbusy id n hrel hsame.symm hb).resolve_left hq
  · intro id n hn hapart
    rw [hnew id n hn, if_neg]
    intro hq
    rcases hrest id n hn hq with hu | hl | hr
    exacts [hapart.ne hu, hapart.not_listed hl, hapart.relate_ne hr]

/-- **A batch, its sources and what is attached to it move together.** -/
theorem moveBatch (h : Coherent R view) (hU : view u = some U) (hk : U.kind = .batch)
    (hst : st ≠ R.fresh) (hnew : MovesBatch R view u U st new) : Coherent R (moved new view) := by
  refine ⟨h.toLinked.moved, ?_, ?_, ?_⟩
  · -- nobody becomes fresh again
    intro id _ hn' hfresh
    obtain ⟨n, hn, rfl⟩ := moved_eq_some.mp hn'
    rw [Item.state_to] at hfresh
    by_cases hin : id = u ∨ id ∈ U.listed
    · exact absurd ((hnew.batch id n hn hin).symm.trans hfresh) hst
    rw [not_or] at hin
    by_cases hrel : n.relate = u
    · exact absurd hfresh
        (hnew.following id n hn (h.follower_of_relate hU hk hn hrel) hrel).1
    · exact h.fresh id n hn ((hnew.rest id n hn ⟨hin.1, hin.2, hrel⟩).symm.trans hfresh)
  · intro v _ w _ hV' hVk hw hW'
    obtain ⟨V, hV, rfl⟩ := moved_eq_some.mp hV'
    obtain ⟨W, hW, rfl⟩ := moved_eq_some.mp hW'
    rw [Item.kind_to] at hVk
    rw [Item.listed_to] at hw
    rw [Item.state_to, Item.state_to]
    by_cases hv : v = u
    · subst hv
      obtain rfl := Option.mem_unique hU hV
      rw [hnew.batch w W hW (.inr hw), hnew.batch v U hU (.inl rfl)]
    · rw [hnew.rest v V hV (h.batch_apart hU hk hV hVk hv),
        hnew.rest w W hW (h.listed_apart hU hk hV hVk hv hw hW)]
      exact h.together v V w W hV hVk hw hW
  · intro id _ hn' hfollower hbusy
    obtain ⟨n, hn, rfl⟩ := moved_eq_some.mp hn'
    rw [Item.kind_to] at hfollower
    rw [Item.state_to] at hbusy
    rw [Item.relate_to, Item.state_to]
    by_cases hrel : n.relate = u
    · rw [hrel, (hnew.following id n hn hfollower hrel).2 hbusy]
      exact ⟨_, moved_of_some hU, hk, hnew.batch u U hU (.inl rfl)⟩
    · have hapart : Apart u U id n := by
        refine ⟨?_, fun hlisted => ?_, hrel⟩
        · rintro rfl
          obtain rfl := Option.mem_unique hU hn
          rw [hk] at hfollower
          cases hfollower
        · have := h.kind_of_listed hU hk hlisted hn
          rw [hfollower] at this
          cases this
      rw [hnew.rest id n hn hapart] at hbusy ⊢
      obtain ⟨V, hV, hVk, hVst⟩ := h.busy id n hn hfollower hbusy
      refine ⟨_, moved_of_some hV, hVk, ?_⟩
      rw [Item.state_to, hnew.rest _ V hV (h.batch_apart hU hk hV hVk hrel), hVst]

/-- **A source that is in no batch moves.** -/
theorem moveSource (h : Coherent R view) (hW : view w = some W) (hst : W.state = R.fresh)
    (hnew : ∀ id n, view id = some n → id ≠ w → new id n = n.state)
    (hself : new w W ≠ R.fresh) : Coherent R (moved new view) := by
  have hWk := h.fresh w W hW hst
  have hne : ∀ {id n}, view id = some n → n.kind ≠ .source → id ≠ w := by
    rintro id n hn hk rfl
    obtain rfl := Option.mem_unique hn hW
    exact hk hWk
  have hbatch : ∀ {u U}, view u = some U → U.kind = .batch → new u U = U.state := fun hU hk =>
    hnew _ _ hU (hne hU (by rw [hk]; decide))
  refine ⟨h.toLinked.moved, ?_, ?_, ?_⟩
  · intro id _ hn' hfresh
    obtain ⟨n, hn, rfl⟩ := moved_eq_some.mp hn'
    rw [Item.state_to] at hfresh
    by_cases hid : id = w
    · subst hid
      obtain rfl := Option.mem_unique hW hn
      exact absurd hfresh hself
    · rw [hnew id n hn hid] at hfresh
      exact h.fresh id n hn hfresh
  · intro u _ v _ hU' hk hv hV'
    obtain ⟨U, hU, rfl⟩ := moved_eq_some.mp hU'
    obtain ⟨V, hV, rfl⟩ := moved_eq_some.mp hV'
    rw [Item.kind_to] at hk
    rw [Item.listed_to] at hv
    have hvw : v ≠ w := by
      rintro rfl
      exact h.fresh_not_listed hW hst hU hk hv
    rw [Item.state_to, Item.state_to, hbatch hU hk, hnew v V hV hvw]
    exact h.together u U v V hU hk hv hV
  · intro id _ hn' hfollower hbusy
    obtain ⟨n, hn, rfl⟩ := moved_eq_some.mp hn'
    rw [Item.kind_to] at hfollower
    rw [Item.state_to, hnew id n hn (hne hn (by rw [hfollower]; decide))] at hbusy
    obtain ⟨U, hU, hk, hUst⟩ := h.busy id n hn hfollower hbusy
    refine ⟨_, moved_of_some hU, hk, ?_⟩
    rw [Item.state_to, Item.state_to, Item.relate_to, hbatch hU hk, hUst,
      hnew id n hn (hne hn (by rw [hfollower]; decide))]

/-! ### Items come and go -/

variable [DecidableEq ι]

/-- **A new item that is not a batch.** If it is a busy follower, it follows a batch in its own
state. -/
theorem insert (h : Coherent R view) (hnone : view x = none) (hx : x ≠ R.nil)
    (hk : X.kind ≠ .batch) (hsource : X.kind = .source → X.relate = R.nil)
    (hloose : X.kind = .loose → ∃ y, view X.relate = some y ∧ y.kind ≠ .batch)
    (hfresh : X.state = R.fresh → X.kind = .source)
    (hbusy : X.kind = .follower → R.Busy X.state →
      ∃ U, view X.relate = some U ∧ U.kind = .batch ∧ U.state = X.state) :
    Coherent R (Function.update view x (some X)) := by
  refine ⟨h.toLinked.insert hnone hx hsource hloose fun hc => absurd hc hk, ?_, ?_, ?_⟩
  · intro id n hn
    rcases update_eq_some hn with ⟨-, rfl⟩ | hn
    · exact hfresh
    · exact h.fresh id n hn
  · intro u U w W hU hUk hw hW
    rcases update_eq_some hU with ⟨-, rfl⟩ | hU
    · exact absurd hUk hk
    · obtain ⟨W', hW', -⟩ := (h.batch u U hU hUk).listed w hw
      obtain rfl := Option.mem_unique hW (update_of_some hnone hW')
      exact h.together u U w W hU hUk hw hW'
  · intro id n hn hfollower hb
    obtain ⟨U, hU, hUk, hst⟩ : ∃ U, view n.relate = some U ∧ U.kind = .batch ∧
        U.state = n.state := by
      rcases update_eq_some hn with ⟨-, rfl⟩ | hn
      · exact hbusy hfollower hb
      · exact h.busy id n hn hfollower hb
    exact ⟨U, update_of_some hnone hU, hUk, hst⟩

/-- **A new batch of distinct sources that are in none yet**, which move to its state. -/
theorem insertBatch (h : Coherent R view) (hnone : view x = none) (hx : x ≠ R.nil)
    (hk : X.kind = .batch) (hst : X.state ≠ R.fresh) (hrel : X.relate ∈ X.listed)
    (hnodup : X.listed.Nodup)
    (hlisted : ∀ w ∈ X.listed, ∃ W, view w = some W ∧ W.state = R.fresh)
    (hnew : ∀ id n, view id = some n → new id n = if id ∈ X.listed then X.state else n.state) :
    Coherent R (Function.update (moved new view) x (some X)) := by
  have hnone' : moved new view x = none := by rw [moved, hnone, Option.map_none]
  -- an item that is not a fresh source keeps its state
  have hkeep : ∀ {id n}, view id = some n → n.state ≠ R.fresh → new id n = n.state := by
    intro id n hn hne
    rw [hnew id n hn, if_neg]
    intro hmem
    obtain ⟨W, hW, hWst⟩ := hlisted id hmem
    obtain rfl := Option.mem_unique hn hW
    exact hne hWst
  have hlinked : Linked R (Function.update (moved new view) x (some X)) := by
    refine h.toLinked.moved.insert hnone' hx (fun hc => ?_) (fun hc => ?_)
      fun _ => ⟨⟨hrel, hnodup, fun w hw => ?_⟩, ?_⟩
    · rw [hk] at hc
      cases hc
    · rw [hk] at hc
      cases hc
    · obtain ⟨W, hW, hWst⟩ := hlisted w hw
      exact ⟨_, moved_of_some hW, h.fresh w W hW hWst⟩
    · -- the listed sources are fresh, and those are in no old batch
      intro u _ w hU' hUk hw hw'
      obtain ⟨U, hU, rfl⟩ := moved_eq_some.mp hU'
      obtain ⟨W, hW, hWst⟩ := hlisted w hw'
      exact h.fresh_not_listed hW hWst hU hUk hw
  refine ⟨hlinked, ?_, ?_, ?_⟩
  · intro id _ hm hfresh
    rcases update_eq_some hm with ⟨-, rfl⟩ | hm
    · exact absurd hfresh hst
    · obtain ⟨n, hn, rfl⟩ := moved_eq_some.mp hm
      rw [Item.state_to, hnew id n hn] at hfresh
      split at hfresh
      · exact absurd hfresh hst
      · exact h.fresh id n hn hfresh
  · intro u _ w W hm hUk hw hW
    rcases update_eq_some hm with ⟨-, rfl⟩ | hm
    · obtain ⟨W', hW', -⟩ := hlisted w hw
      obtain rfl := Option.some.inj
        (hW.symm.trans (update_of_some hnone' (moved_of_some hW')))
      rw [Item.state_to, hnew w W' hW', if_pos hw]
    · obtain ⟨U, hU, rfl⟩ := moved_eq_some.mp hm
      rw [Item.listed_to] at hw
      rw [Item.kind_to] at hUk
      obtain ⟨W', hW', -⟩ := (h.batch u U hU hUk).listed w hw
      obtain rfl := Option.some.inj
        (hW.symm.trans (update_of_some hnone' (moved_of_some hW')))
      have hUst := h.batch_ne_fresh hU hUk
      have hWst := h.together u U w W' hU hUk hw hW'
      rw [Item.state_to, Item.state_to, hkeep hU hUst, hkeep hW' (hWst ▸ hUst), hWst]
  · intro id _ hm hfollower hbusy
    rcases update_eq_some hm with ⟨-, rfl⟩ | hm
    · rw [hk] at hfollower
      cases hfollower
    · obtain ⟨n, hn, rfl⟩ := moved_eq_some.mp hm
      rw [Item.kind_to] at hfollower
      have hnst : new id n = n.state := hkeep hn fun hfresh => by
        have := h.fresh id n hn hfresh
        rw [hfollower] at this
        cases this
      rw [Item.state_to, hnst] at hbusy
      obtain ⟨U, hU, hUk, hUst⟩ := h.busy id n hn hfollower hbusy
      refine ⟨_, update_of_some hnone' (moved_of_some hU), hUk, ?_⟩
      rw [Item.state_to, Item.state_to, Item.relate_to, hkeep hU (h.batch_ne_fresh hU hUk), hUst,
        hnst]

/-- **A follower is dropped**, if no loose item is attached to it. -/
theorem remove (h : Coherent R view) (hX : view x = some X) (hk : X.kind = .follower)
    (hloose : ∀ id n, view id = some n → n.kind = .loose → n.relate ≠ x) :
    Coherent R (Function.update view x none) := by
  have hback : ∀ {id n}, Function.update view x none id = some n → view id = some n := by
    intro id n hn
    by_cases hid : id = x
    · subst hid
      rw [Function.update_self] at hn
      cases hn
    · rwa [Function.update_of_ne hid] at hn
  have hforth : ∀ {id n}, view id = some n → n.kind ≠ .follower →
      Function.update view x none id = some n := by
    intro id n hn hne
    rw [Function.update_of_ne]
    · exact hn
    · rintro rfl
      obtain rfl := Option.mem_unique hn hX
      exact hne hk
  refine ⟨⟨?_, ?_, ?_, ?_, ?_⟩, ?_, ?_, ?_⟩
  · by_cases hid : R.nil = x
    · rw [hid, Function.update_self]
    · rw [Function.update_of_ne hid, h.nil]
  · exact fun id n hn => h.source id n (hback hn)
  · intro id n hn hnk
    obtain ⟨hrel, hnodup, hlisted⟩ := h.batch id n (hback hn) hnk
    refine ⟨hrel, hnodup, fun w hw => ?_⟩
    obtain ⟨W, hW, hWk⟩ := hlisted w hw
    exact ⟨W, hforth hW (by rw [hWk]; decide), hWk⟩
  · intro id n hn hnk
    obtain ⟨y, hy, hne⟩ := h.loose id n (hback hn) hnk
    refine ⟨y, ?_, hne⟩
    rw [Function.update_of_ne (hloose id n (hback hn) hnk)]
    exact hy
  · intro id n id' n' w hn hnk hn' hnk'
    exact h.disjoint id n id' n' w (hback hn) hnk (hback hn') hnk'
  · exact fun id n hn => h.fresh id n (hback hn)
  · exact fun u U w W hU hUk hw hW => h.together u U w W (hback hU) hUk hw (hback hW)
  · intro id n hn hfollower hbusy
    obtain ⟨U, hU, hUk, hUst⟩ := h.busy id n (hback hn) hfollower hbusy
    exact ⟨U, hforth hU (by rw [hUk]; decide), hUk, hUst⟩

end Coherent

end Batch
