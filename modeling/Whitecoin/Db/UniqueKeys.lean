import Whitecoin.Db.Restore
import Whitecoin.Db.Sessions

/-!
# Undo with unique secondary keys

A `generic_index` may have unique keys besides the id. Undoing a session then can fail, although the
objects it started from had no two equal keys and the objects it ends with have none either:

* a modification that breaks uniqueness is rejected, and the container erases the object; its old
  value is recorded, and `undo` looks for an object that is gone;
* `undo` writes the old values back one at a time, in the order of the ids. If two objects exchanged
  keys in the session, the first old value meets its key in the other object, and the container
  erases the object it was to restore.

Apart from these, `undo` returns and restores everything. The condition is exact.
-/

namespace Whitecoin.Db

variable {V K I : Type} [DecidableEq K]

/-- No value of `start` has, in `final`, its unique key in another object, unless that object
existed at `start` with a smaller id. Such an object has got its own old value back by then. -/
def KeysFree (keys : ℕ → List (ℕ → V → K)) (start final : View V) : Prop :=
  ∀ t i j v w, start.obj ⟨t, i⟩ = some v → (final.obj ⟨t, i⟩).isSome → final.obj ⟨t, j⟩ = some w →
    i ≠ j → clash (keys t) i v j w = true → (start.obj ⟨t, j⟩).isSome ∧ j < i

namespace ObjectDatabase

/-- Some modification of the sequence is rejected. -/
def AnyRejected (d : ObjectDatabase V K I) : List (Call V) → Prop
  | [] => False
  | c :: calls => d.Rejected c ∨ AnyRejected (d.call c).state calls

/-! ### A sequence of calls in one session -/

variable {d : ObjectDatabase V K I} {st : UndoState V} {rest : List (UndoState V)}

/-- What a sequence of calls leaves of the session's state `st`. -/
structure RunSpec (calls : List (Call V)) (d d' : ObjectDatabase V K I) (snap : View V)
    (rest : List (UndoState V)) (st' : UndoState V) : Prop where
  undoDb : d'.undoDb = { d.undoDb with back := st' :: rest }
  keysOf : d'.indexes.keysOf = d.indexes.keysOf
  reverts : st'.Reverts d'.view snap
  liveIn : st'.LiveIn d'.view ↔ ¬ d.AnyRejected calls

/-- Along a sequence of calls the session's state keeps reverting to the snapshot, and the objects
it records are in place exactly if no modification was rejected. -/
theorem runCalls_spec (snap : View V) (calls : List (Call V)) (hon : d.undoDb.disabled = false)
    (hback : d.undoDb.back = st :: rest) (hf : d.view.Fresh) (hrev : st.Reverts d.view snap)
    (hlive : st.LiveIn d.view) : ∃ st', RunSpec calls d (runCalls d calls) snap rest st' := by
  suffices h : ∀ (calls : List (Call V)) (d : ObjectDatabase V K I) (st : UndoState V),
      d.undoDb.disabled = false → d.undoDb.back = st :: rest → d.view.Fresh →
      st.Reverts d.view snap → ∃ st',
        (runCalls d calls).undoDb = { d.undoDb with back := st' :: rest } ∧
        (runCalls d calls).indexes.keysOf = d.indexes.keysOf ∧
        st'.Reverts (runCalls d calls).view snap ∧
        (st'.LiveIn (runCalls d calls).view ↔ st.LiveIn d.view ∧ ¬ d.AnyRejected calls) by
    obtain ⟨st', hu, hk, hr, hl⟩ := h calls d st hon hback hf hrev
    exact ⟨st', hu, hk, hr, hl.trans (by simp [hlive])⟩
  intro calls
  induction calls with
  | nil =>
    intro d st _ hback _ hrev
    exact ⟨st, UndoDatabase.eq_self hback, rfl, hrev, by simp [AnyRejected, runCalls]⟩
  | cons c calls ih =>
    intro d st hon hback hf hrev
    obtain ⟨st₁, hspec⟩ := call_spec hon hback c
    have hrev₁ := hspec.effect.reverts hf hrev
    obtain ⟨st', hu, hk, hr, hl⟩ := ih (d.call c).state st₁ (by rw [hspec.undoDb]; exact hon)
      (by rw [hspec.undoDb]) (hspec.effect.fresh hf) hrev₁
    refine ⟨st', ?_, hk.trans hspec.keysOf, hr, hl.trans ?_⟩
    · rw [hspec.undoDb] at hu
      exact hu
    · rw [hspec.effect.liveIn_iff hrev, AnyRejected, not_or, and_assoc]

end ObjectDatabase

/-! ### The keys met while the old values are written back -/

theorem compare_lt_iff {t i j : ℕ} : compare (⟨t, j⟩ : ObjectId) ⟨t, i⟩ = .lt ↔ j < i := by
  have h : compare (⟨t, j⟩ : ObjectId) ⟨t, i⟩ = (compare t t).then (compare j i) := rfl
  rw [h, Nat.compare_eq_eq.2 rfl, Ordering.eq_then, Nat.compare_eq_lt]

variable {st : UndoState V} {ix : Indexes V K} {start : View V}

/-- With every recorded object in place, no old value meets its key while it is written back
exactly if the keys are free in the sense of `KeysFree`. -/
theorem during_free_iff (hrev : st.Reverts ix.view start) (hlive : st.LiveIn ix.view)
    (hunique : ∀ s i j v w, start.obj ⟨s, i⟩ = some v → start.obj ⟨s, j⟩ = some w → i ≠ j →
      clash (ix.keysOf s) i v j w = false) :
    (∀ a v, st.oldValues[a]? = some v →
      ∀ j w, UndoState.during st.oldValues ix.view a ⟨a.spaceType, j⟩ = some w → j ≠ a.inst →
        clash (ix.keysOf a.spaceType) a.inst v j w = false) ↔
      KeysFree ix.keysOf start ix.view := by
  -- an object that was there at the start, is still there and was not modified has its old value
  have hsame : ∀ id v, start.obj id = some v → (ix.view.obj id).isSome →
      st.oldValues[id]? = none → ix.view.obj id = some v := by
    intro id v hv hsome hold
    have hobj := hrev.obj id
    cases he : st.entry id with
    | nop => rw [he, hv] at hobj; exact hobj.symm
    | new => simp [he, hv] at hobj
    | upd x => simp [(UndoState.entry_eq_upd_iff hrev.disjoint).1 he] at hold
    | del x =>
      have hfits := hrev.fits id
      rw [he, UndoEntry.fits_del] at hfits
      rw [hfits] at hsome
      simp at hsome
  have hupd : ∀ id v, st.oldValues[id]? = some v → start.obj id = some v := by
    intro id v hv
    rw [hrev.obj id, (UndoState.entry_eq_upd_iff hrev.disjoint).2 hv, UndoEntry.revert_upd]
  constructor
  · intro hfree t i j v w hv hi hj hne hcl
    cases hold : st.oldValues[(⟨t, i⟩ : ObjectId)]? with
    | none =>
      rw [ix.clash_eq_false (hsame _ v hv hi hold) hj hne] at hcl
      simp at hcl
    | some x =>
      obtain rfl : v = x := Option.some_inj.1 (hv.symm.trans (hupd _ x hold))
      have hmeet := hfree ⟨t, i⟩ v hold j
      simp only [UndoState.during, compare_lt_iff] at hmeet
      by_cases hlt : j < i
      · refine ⟨?_, hlt⟩
        cases hb : st.oldValues[(⟨t, j⟩ : ObjectId)]? with
        | some y => simp [hupd _ y hb]
        | none =>
          exact absurd (hmeet w (by simpa [hlt, hb] using hj) (Ne.symm hne)) (by simp [hcl])
      · exact absurd (hmeet w (by simpa [hlt] using hj) (Ne.symm hne)) (by simp [hcl])
  · rintro hfree ⟨t, i⟩ v hold j w hdur hne
    by_contra hcl
    rw [Bool.not_eq_false] at hcl
    have hi : (ix.view.obj ⟨t, i⟩).isSome := by
      have := hlive ⟨t, i⟩
      rwa [(UndoState.entry_eq_upd_iff hrev.disjoint).2 hold] at this
    have hv := hupd _ v hold
    simp only [UndoState.during, compare_lt_iff] at hdur
    -- the other object has its current value, or already its old one
    cases hb : st.oldValues[(⟨t, j⟩ : ObjectId)]? with
    | some y =>
      by_cases hlt : j < i
      · obtain rfl : y = w := by simpa [hlt, hb] using hdur
        rw [hunique t i j v y hv (hupd _ y hb) (Ne.symm hne)] at hcl
        simp at hcl
      · have hj : ix.view.obj ⟨t, j⟩ = some w := by simpa [hlt] using hdur
        exact hlt (hfree t i j v w hv hi hj (Ne.symm hne) hcl).2
    | none =>
      have hj : ix.view.obj ⟨t, j⟩ = some w := by simpa [hb] using hdur
      obtain ⟨y, hy⟩ := Option.isSome_iff_exists.1 (hfree t i j v w hv hi hj (Ne.symm hne) hcl).1
      have hjy := hsame _ y hy (by rw [hj]; rfl) hb
      obtain rfl : w = y := Option.some_inj.1 (hj.symm.trans hjy)
      rw [hunique t i j v w hv hy (Ne.symm hne)] at hcl
      simp at hcl

/-! ### The session as a whole -/

section session

variable [DecidableEq I] {H : StateHash V I}

/-- Opening a session leaves an empty state in memory, and closing it will not read back others. -/
theorem start_spec {d₀ d₁ : ObjectDatabase V K I} (hwf : d₀.WellFormed H)
    (hon : d₀.undoDb.disabled = false) (hmax : 20 ≤ d₀.undoDb.maxSize)
    (hstart : d₀.startUndoSession H false = .ok d₁) :
    d₁.indexes = d₀.indexes ∧ d₁.undoDb.disabled = false ∧ d₁.undoDb.activeSessions ≠ 0 ∧
      ∃ rest, d₁.undoDb.back = UndoState.empty :: rest ∧
        (d₁.undoDb.stack = [] ∨ 5 < rest.length) := by
  obtain ⟨u, hu, rfl⟩ := Outcome.lift_eq_ok.1 hstart
  obtain rfl := UndoDatabase.startUndoSession_eq (.inl hon) (.inl hmax) hu
  obtain ⟨rest, hrest⟩ := UndoDatabase.back_afterStart (H := H) (u := d₀.undoDb) (by omega)
  refine ⟨rfl, UndoDatabase.disabled_afterStart _, Nat.succ_ne_zero _, rest, hrest, ?_⟩
  refine (UndoDatabase.stack_afterStart (H := H) hmax hwf.backed).imp_right fun hlt => ?_
  rw [hrest, List.length_cons] at hlt
  omega

theorem undo_isOk_iff {d : ObjectDatabase V K I} {st : UndoState V} {rest : List (UndoState V)}
    (hon : d.undoDb.disabled = false) (hact : d.undoDb.activeSessions ≠ 0)
    (hback : d.undoDb.back = st :: rest) (hroom : d.undoDb.stack = [] ∨ 5 < rest.length) :
    (d.undo H).isOk = true ↔ (st.restore d.indexes).isOk = true := by
  have hreload : UndoDatabase.reload H "undo load stack back failed"
      { d.undoDb with disabled := true, back := rest } =
      .ok { d.undoDb with disabled := true, back := rest } := by
    rw [UndoDatabase.reload, if_neg]
    rintro ⟨hst, hle⟩
    rcases hroom with h | h
    · exact hst h
    · exact absurd hle (by simpa using h)
  rw [ObjectDatabase.undo, if_neg (by simp [hon, hact]), hback]
  simp only [ObjectDatabase.restoreThen]
  cases hres : st.restore d.indexes with
  | threw e ix => simp
  | ok ix =>
    simp [UndoDatabase.undo, hon, hact, hback, hreload]

/-- **Undo with unique keys.** One session of arbitrary calls on arbitrary indexes, and `undo`: it
returns, with the objects and next ids the session started from, exactly when no modification of the
session was rejected and no old value will meet its own unique key in another object. -/
theorem undo_restores_iff_of_unique_keys {d₀ d₁ : ObjectDatabase V K I} (hwf : d₀.WellFormed H)
    (hon : d₀.undoDb.disabled = false) (hmax : 20 ≤ d₀.undoDb.maxSize)
    (hstart : d₀.startUndoSession H false = .ok d₁) (calls : List (Call V)) :
    ((d₁.runCalls calls).undo H).isOk = true ∧
        ((d₁.runCalls calls).undo H).state.view = d₀.view ↔
      ¬ d₁.AnyRejected calls ∧ KeysFree d₀.indexes.keysOf d₀.view (d₁.runCalls calls).view := by
  obtain ⟨hix, hon₁, hact₁, rest, hback₁, hroom⟩ := start_spec hwf hon hmax hstart
  have hview₁ : d₁.view = d₀.view := by rw [ObjectDatabase.view, hix, ObjectDatabase.view]
  obtain ⟨st, hspec⟩ := ObjectDatabase.runCalls_spec d₀.view calls hon₁ hback₁
    (by rw [hview₁]; exact hwf.fresh) (by rw [hview₁]; exact UndoState.reverts_empty _)
    (fun id => by simp)
  have hon₂ : (d₁.runCalls calls).undoDb.disabled = false := by rw [hspec.undoDb]; exact hon₁
  have hact₂ : (d₁.runCalls calls).undoDb.activeSessions ≠ 0 := by rw [hspec.undoDb]; exact hact₁
  have hback₂ : (d₁.runCalls calls).undoDb.back = st :: rest := by rw [hspec.undoDb]
  have hroom₂ : (d₁.runCalls calls).undoDb.stack = [] ∨ 5 < rest.length := by
    rw [hspec.undoDb]
    exact hroom
  have hkeys : (d₁.runCalls calls).indexes.keysOf = d₀.indexes.keysOf := by
    rw [hspec.keysOf, hix]
  have hunique : ∀ s i j v w, d₀.view.obj ⟨s, i⟩ = some v → d₀.view.obj ⟨s, j⟩ = some w → i ≠ j →
      clash ((d₁.runCalls calls).indexes.keysOf s) i v j w = false := by
    intro s i j v w hi hj hne
    rw [hkeys]
    exact d₀.indexes.clash_eq_false hi hj hne
  have hok : ((d₁.runCalls calls).undo H).isOk = true ↔
      ¬ d₁.AnyRejected calls ∧ KeysFree d₀.indexes.keysOf d₀.view (d₁.runCalls calls).view := by
    rw [undo_isOk_iff hon₂ hact₂ hback₂ hroom₂, hspec.reverts.restore_isOk_iff hunique,
      ← hspec.liveIn, ← hkeys]
    exact and_congr_right fun hlive => during_free_iff hspec.reverts hlive hunique
  refine ⟨fun h => hok.1 h.1, fun h => ⟨hok.2 h, ?_⟩⟩
  -- a returning undo is exact
  obtain ⟨st', rest', u, -, -, hback', hres, -⟩ :=
    ObjectDatabase.undo_eq_ok (Outcome.isOk_iff.1 (hok.2 h))
  obtain ⟨rfl, -⟩ : st = st' ∧ rest = rest' := by simpa [hback₂] using hback'
  exact hspec.reverts.view_restore hres

end session

/-! ### Two objects with one unique key -/

/-- Two objects, with the values 1 and 2, in an index that has the value as a unique key. -/
def twoKeyed : ObjectDatabase ℕ ℕ (Option (UndoState ℕ)) where
  indexes := Std.ExtTreeMap.insert ∅ 1
    ⟨.generic (((MultiIndex.blank [fun _ v => v]).put 0 1 (by decide +kernel)).put 1 2
      (by decide +kernel)), 2⟩
  undoDb := ⟨0, false, [], [], 1440, some fun _ => none⟩

/-- The same with a session open. -/
def twoKeyedSession : ObjectDatabase ℕ ℕ (Option (UndoState ℕ)) :=
  (twoKeyed.startUndoSession (StateHash.identity ℕ) false).state

theorem twoKeyed_obj (id : ObjectId) : twoKeyed.view.obj id =
    if id = ⟨1, 1⟩ then some 2 else if id = ⟨1, 0⟩ then some 1 else none := by
  obtain ⟨t, i⟩ := id
  by_cases ht : t = 1
  · subst ht
    simp [twoKeyed, ObjectDatabase.view, Indexes.findObject, Derived.find, MultiIndex.getElem?_put,
      MultiIndex.blank]
  · simp [twoKeyed, ObjectDatabase.view, Indexes.findObject, Indexes.getElem?_insert_index, ht]

theorem twoKeyed_wellFormed : twoKeyed.WellFormed (StateHash.identity ℕ) := by
  refine ⟨fun id v hv => ⟨2, ?_, ?_⟩, .inl rfl, fun db hdb id st hst => ?_⟩
  · rw [twoKeyed_obj] at hv
    split at hv
    · subst_vars; rfl
    · split at hv
      · subst_vars; rfl
      · simp at hv
  · rw [twoKeyed_obj] at hv
    split at hv
    · subst_vars; decide
    · split at hv
      · subst_vars; decide
      · simp at hv
  · obtain rfl : (fun _ => none) = db := by simpa [twoKeyed] using hdb
    simp at hst

/-- The second object gets a new key and the first object takes its old one. -/
def passKey : List (Call ℕ) := [.modify ⟨1, 1⟩ fun _ => 4, .modify ⟨1, 0⟩ fun _ => 2]

/-- The two objects exchange their keys. -/
def exchangeKeys : List (Call ℕ) :=
  [.modify ⟨1, 0⟩ fun _ => 3, .modify ⟨1, 1⟩ fun _ => 1, .modify ⟨1, 0⟩ fun _ => 2]

theorem view_call_modify {d : ObjectDatabase ℕ ℕ (Option (UndoState ℕ))} {id : ObjectId} {x y : ℕ}
    (hx : d.indexes.findObject id = some x) (hok : (d.indexes.modify id fun _ => y).isOk = true) :
    (d.call (.modify id fun _ => y)).state.view = d.view.setObj id (some y) := by
  have hview := Indexes.view_modify hx fun _ => y
  rw [if_pos hok] at hview
  simpa [ObjectDatabase.call, ObjectDatabase.modify, hx, ObjectDatabase.view] using hview

theorem undo_restores_passKey :
    (twoKeyedSession.runCalls passKey).view.obj ⟨1, 0⟩ = some 2 ∧
      ((twoKeyedSession.runCalls passKey).undo (StateHash.identity ℕ)).isOk = true ∧
      ((twoKeyedSession.runCalls passKey).undo (StateHash.identity ℕ)).state.view =
        twoKeyed.view := by
  have hstart : twoKeyed.startUndoSession (StateHash.identity ℕ) false = .ok twoKeyedSession :=
    Outcome.isOk_iff.1 (by decide +kernel)
  have h₁ : (twoKeyedSession.indexes.modify ⟨1, 1⟩ fun _ => 4).isOk = true := by decide +kernel
  have h₂ : ((twoKeyedSession.call (.modify ⟨1, 1⟩ fun _ => 4)).state.indexes.modify ⟨1, 0⟩
      fun _ => 2).isOk = true := by decide +kernel
  have hview : (twoKeyedSession.runCalls passKey).view =
      (twoKeyed.view.setObj ⟨1, 1⟩ (some 4)).setObj ⟨1, 0⟩ (some 2) := by
    have hfirst := view_call_modify (d := twoKeyedSession) (x := 2) (by decide +kernel) h₁
    have hsecond := view_call_modify (x := 1) (by decide +kernel) h₂
    rw [hfirst] at hsecond
    exact hsecond
  refine ⟨by decide +kernel, (undo_restores_iff_of_unique_keys twoKeyed_wellFormed rfl (by decide)
    hstart passKey).2 ⟨?_, ?_⟩⟩
  · rintro (⟨old, hold, hcol⟩ | ⟨old, hold, hcol⟩ | h)
    · exact (Indexes.modify_isOk hold _).1 h₁ hcol
    · exact (Indexes.modify_isOk hold _).1 h₂ hcol
    · exact h
  · have hkeys : twoKeyed.indexes.keysOf 1 = [fun _ v => v] := rfl
    intro t i j v w hv hi hj hne hcl
    simp only [hview, View.setObj_obj, twoKeyed_obj, ObjectId.mk.injEq] at hv hi hj
    clear hstart h₁ h₂ hview
    split_ifs at hv <;> split_ifs at hj <;> simp_all [clash, twoKeyed_obj]
    omega

/-- **Undo fails with unique keys.** If two objects exchange their keys, every call returns and
`undo` throws: the first old value meets its key in the second object, and the first object is lost.
If a modification is rejected, `undo` looks for the object that the container erased. -/
theorem undo_fails_of_unique_keys :
    ((twoKeyedSession.runCalls exchangeKeys).view.obj ⟨1, 0⟩ = some 2 ∧
      (twoKeyedSession.runCalls exchangeKeys).view.obj ⟨1, 1⟩ = some 1 ∧
      ((twoKeyedSession.runCalls exchangeKeys).undo (StateHash.identity ℕ)).isOk = false ∧
      ((twoKeyedSession.runCalls exchangeKeys).undo (StateHash.identity ℕ)).state.view.obj ⟨1, 0⟩ =
        none) ∧
    (((twoKeyedSession.runCalls [.modify ⟨1, 0⟩ fun _ => 2]).undo (StateHash.identity ℕ)).isOk =
        false ∧
      ((twoKeyedSession.runCalls [.modify ⟨1, 0⟩ fun _ => 2]).undo
        (StateHash.identity ℕ)).state.view.obj ⟨1, 0⟩ = none) := by
  decide +kernel

end Whitecoin.Db
