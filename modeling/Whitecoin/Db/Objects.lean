import Whitecoin.Db.Index

/-!
# The objects of a database

`object_database` keeps one primary index for each space and type. This module has the calls that
change objects (`create`, `modify`, `remove`, `insert`, `setNextId`), without the undo log, and
describes each of them by what it does to a `View`: the value under every id, and the next id of
every index. Two databases with the same view differ at most in the padding of their vectors, and
the view is what the undo database promises to restore.
-/

namespace Whitecoin.Db

/-- What can be observed of the objects: the value under each id, the next id of each index. -/
@[ext] structure View (V : Type) where
  obj : ObjectId → Option V
  next : ℕ → Option ℕ

namespace View

variable {V : Type}

def setObj (w : View V) (id : ObjectId) (o : Option V) : View V :=
  { w with obj := Function.update w.obj id o }

def setNext (w : View V) (t n : ℕ) : View V :=
  { w with next := Function.update w.next t (some n) }

@[simp] theorem setObj_obj (w : View V) (id : ObjectId) (o : Option V) (j : ObjectId) :
    (w.setObj id o).obj j = if j = id then o else w.obj j := by
  simp [setObj, Function.update_apply]

@[simp] theorem setObj_next (w : View V) (id : ObjectId) (o : Option V) :
    (w.setObj id o).next = w.next := rfl

@[simp] theorem setNext_obj (w : View V) (t n : ℕ) : (w.setNext t n).obj = w.obj := rfl

@[simp] theorem setNext_next (w : View V) (t n s : ℕ) :
    (w.setNext t n).next s = if s = t then some n else w.next s := by
  simp [setNext, Function.update_apply]

/-- Ids are given out in order: every object is below the next id of its index. -/
def Fresh (w : View V) : Prop :=
  ∀ id v, w.obj id = some v → ∃ n, w.next id.spaceType = some n ∧ id.inst < n

variable {w : View V}

theorem Fresh.setObj (hf : w.Fresh) {id : ObjectId} {v : V} (hv : w.obj id = some v) (o : Option V) :
    (w.setObj id o).Fresh := by
  intro j x hx
  rw [setObj_obj] at hx
  split at hx
  · subst_vars
    exact hf j v hv
  · exact hf j x hx

theorem Fresh.create (hf : w.Fresh) {t n : ℕ} (hn : w.next t = some n) (v : V) :
    ((w.setObj ⟨t, n⟩ (some v)).setNext t (n + 1)).Fresh := by
  intro j x hx
  rw [setNext_obj, setObj_obj] at hx
  by_cases hs : j.spaceType = t
  · refine ⟨n + 1, by simp [hs], ?_⟩
    split at hx
    · rename_i hj
      rw [hj]
      exact Nat.lt_succ_self n
    · obtain ⟨m, hm, hlt⟩ := hf j x hx
      rw [hs, hn, Option.some.injEq] at hm
      omega
  · rw [if_neg fun h => hs (by rw [h])] at hx
    obtain ⟨m, hm, hlt⟩ := hf j x hx
    exact ⟨m, by simpa [hs] using hm, hlt⟩

end View

/-- The primary indexes of a database, by space and type. -/
abbrev Indexes (V K : Type) [DecidableEq K] : Type :=
  Std.ExtTreeMap ℕ (PrimaryIndex V K) compare

namespace Indexes

variable {V K : Type} [DecidableEq K]

def findObject (ix : Indexes V K) (id : ObjectId) : Option V :=
  ix[id.spaceType]?.bind fun p => p.derived.find id.inst

def view (ix : Indexes V K) : View V where
  obj := ix.findObject
  next t := ix[t]?.map PrimaryIndex.nextId

/-- The unique keys of the index of space and type `t`. -/
def keysOf (ix : Indexes V K) (t : ℕ) : List (ℕ → V → K) :=
  (ix[t]?.map fun p => p.derived.keys).getD []

/-- A call on the index of space and type `t`, which has to exist. -/
def onIndex (ix : Indexes V K) (t : ℕ)
    (call : PrimaryIndex V K → Outcome String (PrimaryIndex V K)) : Outcome String (Indexes V K) :=
  match ix[t]? with
  | none => .threw "idx" ix
  | some p => (call p).lift fun p' => ix.insert t p'

/-- `create`: the object gets the next id, and the id is used up once the container has it. -/
def create (ix : Indexes V K) (t : ℕ) (constructor : ℕ → V) : Outcome String (Indexes V K) :=
  ix.onIndex t fun p =>
    match p.derived.create p.nextId (constructor p.nextId) with
    | .ok d => .ok ⟨d, p.nextId + 1⟩
    | .threw e d => .threw e ⟨d, p.nextId⟩

/-- `modify( get_object( id ), m )`. -/
def modify (ix : Indexes V K) (id : ObjectId) (m : V → V) : Outcome String (Indexes V K) :=
  match ix.findObject id with
  | none => .threw "Unable to find Object" ix
  | some old =>
    ix.onIndex id.spaceType fun p =>
      (p.derived.modify id.inst (m old)).lift fun d => { p with derived := d }

/-- `remove( get_object( id ) )`. -/
def remove (ix : Indexes V K) (id : ObjectId) : Outcome String (Indexes V K) :=
  match ix.findObject id with
  | none => .threw "Unable to find Object" ix
  | some _ => ix.onIndex id.spaceType fun p => .ok { p with derived := p.derived.remove id.inst }

def insert (ix : Indexes V K) (id : ObjectId) (v : V) : Outcome String (Indexes V K) :=
  ix.onIndex id.spaceType fun p =>
    (p.derived.insert id.inst v).lift fun d => { p with derived := d }

def setNextId (ix : Indexes V K) (t n : ℕ) : Outcome String (Indexes V K) :=
  ix.onIndex t fun p => .ok { p with nextId := n }

/-- Another object of the index of `id` has a unique key in common with `v`. -/
def Collides (ix : Indexes V K) (id : ObjectId) (v : V) : Prop :=
  ∃ j w, ix.findObject ⟨id.spaceType, j⟩ = some w ∧ j ≠ id.inst ∧
    clash (ix.keysOf id.spaceType) id.inst v j w = true

/-! ### A call on one index -/

section onIndex

variable {ix : Indexes V K} {t : ℕ} {p : PrimaryIndex V K}

theorem onIndex_of_some (h : ix[t]? = some p)
    (call : PrimaryIndex V K → Outcome String (PrimaryIndex V K)) :
    ix.onIndex t call = (call p).lift fun p' => Std.ExtTreeMap.insert ix t p' := by
  simp [onIndex, h]

theorem getElem?_insert_index (ix : Indexes V K) (t s : ℕ) (p : PrimaryIndex V K) :
    (Std.ExtTreeMap.insert ix t p)[s]? = if s = t then some p else ix[s]? := by
  rw [Std.ExtTreeMap.getElem?_insert]
  simp only [Nat.compare_eq_eq, @eq_comm _ t s]

theorem findObject_of_some (h : ix[t]? = some p) (i : ℕ) :
    ix.findObject ⟨t, i⟩ = p.derived.find i := by
  simp [findObject, h]

theorem exists_index_of_findObject {id : ObjectId} {v : V} (h : ix.findObject id = some v) :
    ∃ p, ix[id.spaceType]? = some p ∧ p.derived.find id.inst = some v := by
  simpa [findObject, Option.bind_eq_some_iff] using h

theorem keysOf_of_some (h : ix[t]? = some p) : ix.keysOf t = p.derived.keys := by
  simp [keysOf, h]

theorem view_next_of_some (h : ix[t]? = some p) : ix.view.next t = some p.nextId := by
  simp [view, h]

@[simp] theorem view_obj (ix : Indexes V K) (id : ObjectId) : ix.view.obj id = ix.findObject id :=
  rfl

theorem view_insert_index (h : ix[t]? = some p) {q : PrimaryIndex V K} {i : ℕ} {o : Option V}
    (hfind : ∀ j, q.derived.find j = if j = i then o else p.derived.find j)
    (hnext : q.nextId = p.nextId) :
    Indexes.view (Std.ExtTreeMap.insert ix t q) = ix.view.setObj ⟨t, i⟩ o := by
  ext1
  · funext ⟨s, j⟩
    by_cases hs : s = t
    · subst hs
      simp [findObject, h, hfind]
    · simp [findObject, getElem?_insert_index, hs]
  · funext s
    by_cases hs : s = t
    · subst hs
      simp [view, getElem?_insert_index, h, hnext]
    · simp [view, getElem?_insert_index, hs]

theorem keysOf_insert_index (h : ix[t]? = some p) {p' : PrimaryIndex V K}
    (hkeys : p'.derived.keys = p.derived.keys) :
    Indexes.keysOf (Std.ExtTreeMap.insert ix t p') = ix.keysOf := by
  funext s
  by_cases hs : s = t
  · subst hs
    simp [keysOf, h, hkeys]
  · simp [keysOf, getElem?_insert_index, hs]

end onIndex

/-! ### The calls -/

variable {ix ix' : Indexes V K} {id : ObjectId} {t : ℕ}

variable {constructor : ℕ → V} {old v : V} {n : ℕ}

theorem view_create (h : ix.create t constructor = .ok ix') :
    ∃ n, ix.view.next t = some n ∧
      ix'.view = (ix.view.setObj ⟨t, n⟩ (some (constructor n))).setNext t (n + 1) := by
  cases hp : ix[t]? with
  | none => simp [create, onIndex, hp] at h
  | some p =>
    rw [create, onIndex_of_some hp, Outcome.lift_eq_ok] at h
    obtain ⟨p', hp', rfl⟩ := h
    cases hd : p.derived.create p.nextId (constructor p.nextId) with
    | threw e d => simp [hd] at hp'
    | ok d =>
      obtain rfl : (⟨d, p.nextId + 1⟩ : PrimaryIndex V K) = p' := by simpa [hd] using hp'
      refine ⟨p.nextId, view_next_of_some hp, ?_⟩
      have hobj := view_insert_index hp (q := ⟨d, p.nextId⟩) (Derived.find_create hd) rfl
      ext1
      · have := congrArg View.obj hobj
        funext ⟨s, j⟩
        rw [View.setNext_obj, ← this]
        by_cases hs : s = t
        · subst hs
          simp [findObject]
        · simp [findObject, getElem?_insert_index, hs]
      · funext s
        by_cases hs : s = t
        · subst hs
          simp [view]
        · simp [view, getElem?_insert_index, hs]

theorem create_threw {e : String} (h : ix.create t constructor = .threw e ix') : ix' = ix := by
  cases hp : ix[t]? with
  | none =>
    simp only [create, onIndex, hp, Outcome.threw.injEq] at h
    exact h.2.symm
  | some p =>
    rw [create, onIndex_of_some hp] at h
    cases hd : p.derived.create p.nextId (constructor p.nextId) with
    | ok d => simp [hd] at h
    | threw e' d =>
      obtain rfl := Derived.create_threw hd
      simp only [hd, Outcome.lift_threw, Outcome.threw.injEq] at h
      obtain ⟨-, rfl⟩ := h
      refine Std.ExtTreeMap.ext_getElem? fun s => ?_
      rw [getElem?_insert_index]
      split
      · subst_vars; exact hp.symm
      · rfl

theorem keysOf_create (ix : Indexes V K) (t : ℕ) (constructor : ℕ → V) :
    (ix.create t constructor).state.keysOf = ix.keysOf := by
  cases hp : ix[t]? with
  | none => simp [create, onIndex, hp]
  | some p =>
    rw [create, onIndex_of_some hp, Outcome.state_lift]
    apply keysOf_insert_index hp
    have := Derived.keys_create p.derived p.nextId (constructor p.nextId)
    cases hd : p.derived.create p.nextId (constructor p.nextId) <;> simpa [hd] using this

theorem modify_of_none (h : ix.findObject id = none) (m : V → V) :
    ix.modify id m = .threw "Unable to find Object" ix := by
  simp [modify, h]

theorem view_modify (h : ix.findObject id = some old) (m : V → V) :
    (ix.modify id m).state.view =
      ix.view.setObj id (if (ix.modify id m).isOk then some (m old) else none) := by
  obtain ⟨p, hp, hfind⟩ := exists_index_of_findObject h
  simp only [modify, h, onIndex_of_some hp, Outcome.state_lift, Outcome.isOk_lift]
  exact view_insert_index hp (Derived.find_modify hfind (m old)) rfl

theorem view_modify_ok {m : V → V} (h : ix.modify id m = .ok ix') :
    ∃ old, ix.findObject id = some old ∧ ix'.view = ix.view.setObj id (some (m old)) := by
  cases hfind : ix.findObject id with
  | none => simp [modify_of_none hfind] at h
  | some old => exact ⟨old, rfl, by simpa [h] using view_modify hfind m⟩

theorem keysOf_modify (ix : Indexes V K) (id : ObjectId) (m : V → V) :
    (ix.modify id m).state.keysOf = ix.keysOf := by
  cases h : ix.findObject id with
  | none => rw [modify_of_none h]; rfl
  | some old =>
    obtain ⟨p, hp, -⟩ := exists_index_of_findObject h
    simp only [modify, h, onIndex_of_some hp, Outcome.state_lift]
    exact keysOf_insert_index hp (Derived.keys_modify ..)

theorem collides_of_some {p : PrimaryIndex V K} (hp : ix[id.spaceType]? = some p) (v : V) :
    ix.Collides id v ↔ p.derived.Collides id.inst v := by
  simp only [Collides, Derived.Collides, findObject_of_some hp, keysOf_of_some hp]

theorem modify_isOk (h : ix.findObject id = some old) (m : V → V) :
    (ix.modify id m).isOk = true ↔ ¬ ix.Collides id (m old) := by
  obtain ⟨p, hp, -⟩ := exists_index_of_findObject h
  simp only [modify, h, onIndex_of_some hp, Outcome.isOk_lift, Derived.modify_isOk,
    collides_of_some hp]

theorem remove_of_none (h : ix.findObject id = none) :
    ix.remove id = .threw "Unable to find Object" ix := by
  simp [remove, h]

theorem remove_isOk (h : ix.findObject id = some old) : (ix.remove id).isOk = true := by
  obtain ⟨p, hp, -⟩ := exists_index_of_findObject h
  simp [remove, h, onIndex_of_some hp]

theorem view_remove (h : ix.findObject id = some old) :
    (ix.remove id).state.view = ix.view.setObj id none := by
  obtain ⟨p, hp, hfind⟩ := exists_index_of_findObject h
  simp only [remove, h, onIndex_of_some hp, Outcome.lift_ok, Outcome.state_ok]
  exact view_insert_index hp (Derived.find_remove hfind) rfl

theorem view_remove_ok (h : ix.remove id = .ok ix') : ix'.view = ix.view.setObj id none := by
  cases hfind : ix.findObject id with
  | none => simp [remove_of_none hfind] at h
  | some old => simpa [h] using view_remove hfind

theorem keysOf_remove (ix : Indexes V K) (id : ObjectId) :
    (ix.remove id).state.keysOf = ix.keysOf := by
  cases h : ix.findObject id with
  | none => rw [remove_of_none h]; rfl
  | some old =>
    obtain ⟨p, hp, -⟩ := exists_index_of_findObject h
    simp only [remove, h, onIndex_of_some hp, Outcome.state_lift]
    exact keysOf_insert_index hp (Derived.keys_remove ..)

theorem view_insert (h : ix.insert id v = .ok ix') : ix'.view = ix.view.setObj id (some v) := by
  cases hp : ix[id.spaceType]? with
  | none => simp [insert, onIndex, hp] at h
  | some p =>
    rw [insert, onIndex_of_some hp, Outcome.lift_eq_ok] at h
    obtain ⟨p', hp', rfl⟩ := h
    obtain ⟨d, hd, rfl⟩ := Outcome.lift_eq_ok.1 hp'
    exact view_insert_index hp (Derived.find_insert hd) rfl

theorem keysOf_insert (ix : Indexes V K) (id : ObjectId) (v : V) :
    (ix.insert id v).state.keysOf = ix.keysOf := by
  cases hp : ix[id.spaceType]? with
  | none => simp [insert, onIndex, hp]
  | some p =>
    rw [insert, onIndex_of_some hp, Outcome.state_lift, Outcome.state_lift]
    exact keysOf_insert_index hp (Derived.keys_insert ..)

/-- An object can be put back if its index exists, its id is free and so are its keys. -/
theorem insert_isOk (hnext : ix.view.next id.spaceType = some n) (hid : ix.findObject id = none)
    (h : ¬ ix.Collides id v) : (ix.insert id v).isOk = true := by
  cases hp : ix[id.spaceType]? with
  | none => simp [view, hp] at hnext
  | some p =>
    rw [collides_of_some hp] at h
    have hfree : p.derived.find id.inst = none := by
      simpa [findObject, hp] using hid
    simpa [insert, onIndex_of_some hp] using Derived.insert_isOk hfree h

theorem setNextId_isOk {m : ℕ} (hnext : ix.view.next t = some m) (n : ℕ) :
    (ix.setNextId t n).isOk = true := by
  cases hp : ix[t]? with
  | none => simp [view, hp] at hnext
  | some p => simp [setNextId, onIndex_of_some hp]

theorem view_setNextId (h : ix.setNextId t n = .ok ix') : ix'.view = ix.view.setNext t n := by
  cases hp : ix[t]? with
  | none => simp [setNextId, onIndex, hp] at h
  | some p =>
    obtain rfl : Std.ExtTreeMap.insert ix t { p with nextId := n } = ix' := by
      simpa [setNextId, onIndex_of_some hp] using h
    ext1
    · funext ⟨s, j⟩
      by_cases hs : s = t
      · subst hs
        simp [findObject, hp]
      · simp [findObject, getElem?_insert_index, hs]
    · funext s
      by_cases hs : s = t
      · subst hs
        simp [view]
      · simp [view, getElem?_insert_index, hs]

theorem keysOf_setNextId (ix : Indexes V K) (t n : ℕ) :
    (ix.setNextId t n).state.keysOf = ix.keysOf := by
  cases hp : ix[t]? with
  | none => simp [setNextId, onIndex, hp]
  | some p =>
    simp only [setNextId, onIndex_of_some hp, Outcome.lift_ok, Outcome.state_ok]
    exact keysOf_insert_index hp rfl

theorem clash_eq_false (ix : Indexes V K) {s i j : ℕ} {w : V} (hi : ix.findObject ⟨s, i⟩ = some v)
    (hj : ix.findObject ⟨s, j⟩ = some w) (hne : i ≠ j) : clash (ix.keysOf s) i v j w = false := by
  obtain ⟨p, hp, hfi⟩ := exists_index_of_findObject hi
  rw [findObject_of_some hp] at hj
  rw [keysOf_of_some hp]
  exact p.derived.clash_eq_false hfi hj hne

end Indexes

end Whitecoin.Db
