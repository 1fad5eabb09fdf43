import Whitecoin.Db.ObjectDatabase

/-!
# Sessions and the objects they started from

A run of the object database leaves a stack of undo states, and each of them takes the objects back
to where its session began. `Chain` says that of a list of states and a list of snapshots: the
newest state reverts the current objects to the newest snapshot, the next state reverts that
snapshot to the next one, and so on. `Tracks` says that the undo database holds such a list as the
newest part of its history, in memory or in the store.

The lemmas here are the steps: what opening a session, changing an object, undoing, merging and
popping do to a tracked history. Whole runs are put together from them elsewhere.
-/

namespace Whitecoin.Db

variable {V K I : Type}

/-- The states lead, one after the other, from the objects `cur` through the snapshots. -/
def Chain (R : UndoState V → View V → View V → Prop) :
    View V → List (UndoState V) → List (View V) → Prop
  | _, [], [] => True
  | cur, st :: ss, v :: vs => R st cur v ∧ Chain R v ss vs
  | _, _, _ => False

namespace Chain

variable {R : UndoState V → View V → View V → Prop} {cur v : View V} {ss : List (UndoState V)}
  {vs : List (View V)}

theorem nil : Chain R cur [] [] := trivial

theorem length_eq : ∀ {cur : View V} {ss : List (UndoState V)} {vs : List (View V)},
    Chain R cur ss vs → ss.length = vs.length
  | _, [], [], _ => rfl
  | _, _ :: _, _ :: _, h => by simp [length_eq h.2]

theorem exists_cons (h : Chain R cur ss (v :: vs)) :
    ∃ st ss', ss = st :: ss' ∧ R st cur v ∧ Chain R v ss' vs := by
  cases ss with
  | nil => exact h.elim
  | cons st ss' => exact ⟨st, ss', rfl, h.1, h.2⟩

theorem take : ∀ {cur : View V} {ss : List (UndoState V)} {vs : List (View V)} (n : ℕ),
    Chain R cur ss vs → Chain R cur (ss.take n) (vs.take n)
  | _, _, _, 0, _ => trivial
  | _, [], [], _ + 1, _ => trivial
  | _, _ :: _, _ :: _, n + 1, h => ⟨h.1, take n h.2⟩

end Chain

namespace ObjectDatabase

variable [DecidableEq K] [DecidableEq I] {H : StateHash V I}

/-- A database as the program leaves it: ids are given out in order, spilled states are read back in
time, and the store is addressed by content. -/
structure WellFormed (H : StateHash V I) (d : ObjectDatabase V K I) : Prop where
  fresh : d.view.Fresh
  backed : d.undoDb.Backed
  addressed : d.undoDb.Addressed H

/-- The newest states of the history are `ss`, and they lead back through the snapshots `vs`. -/
structure Tracks (H : StateHash V I) (d : ObjectDatabase V K I) (ss : List (UndoState V))
    (vs : List (View V)) : Prop where
  chain : Chain UndoState.Reverts d.view ss vs
  held : ss.map H.undoId <+: d.undoDb.ids H
  backed : d.undoDb.Backed
  addressed : d.undoDb.Addressed H
  fresh : d.view.Fresh
  freshSnaps : ∀ v ∈ vs, v.Fresh

namespace Tracks

variable {d d' : ObjectDatabase V K I} {st : UndoState V} {ss : List (UndoState V)} {v : View V}
  {vs : List (View V)}

omit [DecidableEq I] in
theorem back_eq (h : d.Tracks H (st :: ss) vs) :
    ∃ rest, d.undoDb.back = st :: rest ∧
      ss.map H.undoId <+: rest.map H.undoId ++ d.undoDb.stack := by
  have hheld := h.held
  cases hback : d.undoDb.back with
  | nil =>
    have hst : d.undoDb.stack = [] := h.backed.resolve_right (by simp [hback])
    rw [UndoDatabase.ids, hback, hst] at hheld
    simp at hheld
  | cons b rest =>
    rw [UndoDatabase.ids, hback, List.map_cons, List.map_cons, List.cons_append,
      List.cons_prefix_cons] at hheld
    rw [H.injective hheld.1]
    exact ⟨rest, rfl, hheld.2⟩

theorem start {k : ℕ} (h : d.Tracks H ss vs) (hon : d.undoDb.disabled = false)
    (hm : 20 ≤ d.undoDb.maxSize) (hok : d.startUndoSession H false = .ok d')
    (hkeep : (H.undoId UndoState.empty :: ss.map H.undoId).take k <+: d'.undoDb.ids H) :
    d'.Tracks H ((UndoState.empty :: ss).take k) ((d.view :: vs).take k) := by
  obtain ⟨u, hu, rfl⟩ := Outcome.lift_eq_ok.1 hok
  obtain rfl := UndoDatabase.startUndoSession_eq (.inl hon) (.inl hm) hu
  refine ⟨Chain.take k ⟨UndoState.reverts_empty _, h.chain⟩, ?_,
    UndoDatabase.backed_afterStart hm h.backed, UndoDatabase.addressed_afterStart h.addressed,
    h.fresh, ?_⟩
  · rw [List.map_take]
    exact hkeep
  · intro w hw
    rcases List.mem_cons.1 (List.mem_of_mem_take hw) with rfl | hw
    · exact h.fresh
    · exact h.freshSnaps w hw

omit [DecidableEq I] in
theorem call (h : d.Tracks H (st :: ss) (v :: vs)) (hon : d.undoDb.disabled = false) (c : Call V) :
    ∃ rest st', d.undoDb.back = st :: rest ∧ CallSpec d (d.call c).state c st rest st' ∧
      (d.call c).state.Tracks H (st' :: ss) (v :: vs) := by
  obtain ⟨rest, hback, hheld⟩ := h.back_eq
  obtain ⟨st', hspec⟩ := call_spec hon hback c
  refine ⟨rest, st', hback, hspec, ⟨hspec.effect.reverts h.fresh h.chain.1, h.chain.2⟩, ?_, ?_, ?_,
    hspec.effect.fresh h.fresh, h.freshSnaps⟩
  · rw [UndoDatabase.ids, hspec.undoDb]
    exact List.cons_prefix_cons.2 ⟨rfl, hheld⟩
  · rw [UndoDatabase.Backed, hspec.undoDb]
    have hb := h.backed
    rw [UndoDatabase.Backed, hback] at hb
    exact hb
  · rw [UndoDatabase.Addressed, hspec.undoDb]
    exact h.addressed

/-- The undo loops returned and the rest of the history was read back: the objects are those of
the snapshot, and the rest of the history stays tracked. -/
theorem of_reload (h : d.Tracks H (st :: ss) (v :: vs)) {rest : List (UndoState V)}
    {u : UndoDatabase V I} {message : String} (hback : d.undoDb.back = st :: rest)
    (hres : st.restore d.indexes = .ok d'.indexes)
    (hu : UndoDatabase.reload H message { d.undoDb with disabled := true, back := rest } = .ok u)
    (hd' : d'.undoDb.back = u.back ∧ d'.undoDb.stack = u.stack ∧ d'.undoDb.storage = u.storage) :
    d'.view = v ∧ d'.Tracks H ss vs := by
  obtain ⟨rest', hback', hheld⟩ := h.back_eq
  obtain rfl : rest' = rest := by simpa [hback] using hback'.symm
  have hview : d'.view = v := h.chain.1.view_restore hres
  obtain ⟨hre, hb⟩ := UndoDatabase.reload_ok (H := H) (by exact h.addressed) hu
  refine ⟨hview, by rw [hview]; exact h.chain.2, ?_, ?_, ?_, ?_, ?_⟩
  · have hids : d'.undoDb.ids H = u.ids H := by
      rw [UndoDatabase.ids, hd'.1, hd'.2.1, UndoDatabase.ids]
    rw [hids, hre.ids]
    exact hheld
  · rw [UndoDatabase.Backed, hd'.1, hd'.2.1]
    exact hb
  · rw [UndoDatabase.Addressed, hd'.2.2]
    exact hre.addressed
  · rw [hview]
    exact h.freshSnaps v (List.mem_cons_self ..)
  · exact fun w hw => h.freshSnaps w (List.mem_cons_of_mem _ hw)

/-- A returning `undo` gives back the snapshot, and the rest of the history stays tracked. -/
theorem undo (h : d.Tracks H (st :: ss) (v :: vs)) (hok : d.undo H = .ok d') :
    d'.view = v ∧ d'.Tracks H ss vs := by
  obtain ⟨rest, hback, -⟩ := h.back_eq
  obtain ⟨st', rest', u, -, -, hback', hres, hu, hd'⟩ := undo_eq_ok hok
  obtain ⟨rfl, rfl⟩ : st = st' ∧ rest = rest' := by simpa [hback] using hback'
  exact h.of_reload hback hres hu (by simp [hd'])

omit [DecidableEq I] in
theorem back_eq_two {st prev : UndoState V} (h : d.Tracks H (st :: prev :: ss) vs)
    {b p : UndoState V} {rest : List (UndoState V)} (hback : d.undoDb.back = b :: p :: rest) :
    b = st ∧ p = prev ∧ ss.map H.undoId <+: rest.map H.undoId ++ d.undoDb.stack := by
  have hheld := h.held
  simp only [UndoDatabase.ids, hback, List.map_cons, List.cons_append,
    List.cons_prefix_cons] at hheld
  exact ⟨(H.injective hheld.1).symm, (H.injective hheld.2.1).symm, hheld.2.2⟩

theorem merge {prev : UndoState V} {w : View V} (h : d.Tracks H (st :: prev :: ss) (v :: w :: vs))
    (hok : d.merge H = .ok d') :
    d'.indexes = d.indexes ∧ d'.Tracks H (prev.merge st :: ss) (w :: vs) := by
  obtain ⟨b, p, rest, u, -, hback, hu, rfl⟩ := merge_eq_ok hok
  obtain ⟨rfl, rfl, hheld⟩ := h.back_eq_two hback
  obtain ⟨hre, hb⟩ := UndoDatabase.reload_ok (H := H) (by exact h.addressed) hu
  refine ⟨rfl, ⟨h.chain.2.1.merge h.chain.1, h.chain.2.2⟩, ?_, hb, hre.addressed, h.fresh, ?_⟩
  · have hids : UndoDatabase.ids H { u with activeSessions := u.activeSessions - 1 } = u.ids H := rfl
    rw [hids, hre.ids]
    exact List.cons_prefix_cons.2 ⟨rfl, hheld⟩
  · exact fun x hx => h.freshSnaps x (List.mem_cons_of_mem _ hx)

end Tracks

end ObjectDatabase

end Whitecoin.Db
