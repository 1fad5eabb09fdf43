import Whitecoin.Db.Reverts
import Whitecoin.Db.UndoHistory

/-!
# The object database with its undo log

`object_database` is the indexes together with the undo database: each call that changes an object
records the change in the innermost undo state, and `undo` and `pop_commit` run the loops of
`UndoState.restore` on the indexes before they drop that state.

The order matters when a call fails. `create` records only after the container has accepted the
object. `modify` records before, so a modification that the container rejects is recorded although
the object is gone.
-/

namespace Whitecoin.Db

/-- The objects and the undo log. -/
structure ObjectDatabase (V K I : Type) [DecidableEq K] where
  indexes : Indexes V K
  undoDb : UndoDatabase V I

/-- A call that changes objects. -/
inductive Call (V : Type) where
  | create (t : ℕ) (constructor : ℕ → V)
  | modify (id : ObjectId) (m : V → V)
  | remove (id : ObjectId)

namespace ObjectDatabase

variable {V K I : Type} [DecidableEq K] [DecidableEq I] (H : StateHash V I)

def view (d : ObjectDatabase V K I) : View V := d.indexes.view

/-- The instance the next object of the index gets. -/
def nextInstance (d : ObjectDatabase V K I) (t : ℕ) : ℕ :=
  (d.indexes[t]?.map PrimaryIndex.nextId).getD 0

def create (d : ObjectDatabase V K I) (t : ℕ) (constructor : ℕ → V) :
    Outcome String (ObjectDatabase V K I) :=
  match d.indexes.create t constructor with
  | .ok ix => .ok ⟨ix, d.undoDb.onCreate ⟨t, d.nextInstance t⟩⟩
  | .threw e ix => .threw e { d with indexes := ix }

def modify (d : ObjectDatabase V K I) (id : ObjectId) (m : V → V) :
    Outcome String (ObjectDatabase V K I) :=
  match d.indexes.findObject id with
  | none => .threw "Unable to find Object" d
  | some old => (d.indexes.modify id m).lift fun ix => ⟨ix, d.undoDb.onModify id old⟩

def remove (d : ObjectDatabase V K I) (id : ObjectId) : Outcome String (ObjectDatabase V K I) :=
  match d.indexes.findObject id with
  | none => .threw "Unable to find Object" d
  | some old => (d.indexes.remove id).lift fun ix => ⟨ix, d.undoDb.onRemove id old⟩

def call (d : ObjectDatabase V K I) : Call V → Outcome String (ObjectDatabase V K I)
  | .create t constructor => d.create t constructor
  | .modify id m => d.modify id m
  | .remove id => d.remove id

/-- A sequence of calls; the exceptions they throw are caught. -/
def runCalls (d : ObjectDatabase V K I) (calls : List (Call V)) : ObjectDatabase V K I :=
  calls.foldl (fun d c => (d.call c).state) d

def startUndoSession (d : ObjectDatabase V K I) (forceEnable : Bool) :
    Outcome String (ObjectDatabase V K I) :=
  (d.undoDb.startUndoSession H forceEnable).lift fun u => { d with undoDb := u }

def merge (d : ObjectDatabase V K I) : Outcome String (ObjectDatabase V K I) :=
  (d.undoDb.merge H).lift fun u => { d with undoDb := u }

def commit (d : ObjectDatabase V K I) : Outcome String (ObjectDatabase V K I) :=
  d.undoDb.commit.lift fun u => { d with undoDb := u }

def setMaxSize (d : ObjectDatabase V K I) (n : ℕ) : ObjectDatabase V K I :=
  { d with undoDb := d.undoDb.setMaxSize n }

/-- Run the undo loops of the innermost state, then `close`, which is told whether they threw. -/
def restoreThen (d : ObjectDatabase V K I) (st : UndoState V)
    (close : Option (UndoState V) → Outcome String (UndoDatabase V I)) :
    Outcome String (ObjectDatabase V K I) :=
  match st.restore d.indexes with
  | .ok ix => (close none).lift fun u => ⟨ix, u⟩
  | .threw e ix => .threw e ⟨ix, (close (some st)).state⟩

/-- `undo`. Its assertions come before any object is touched. -/
def undo (d : ObjectDatabase V K I) : Outcome String (ObjectDatabase V K I) :=
  if d.undoDb.disabled = true ∨ d.undoDb.activeSessions = 0 then
    (d.undoDb.undo H none).lift fun u => { d with undoDb := u }
  else
    match d.undoDb.back with
    | [] => (d.undoDb.undo H none).lift fun u => { d with undoDb := u }
    | st :: _ => d.restoreThen st (d.undoDb.undo H)

/-- `pop_commit`. -/
def popCommit (d : ObjectDatabase V K I) : Outcome String (ObjectDatabase V K I) :=
  if d.undoDb.activeSessions ≠ 0 then
    (d.undoDb.popCommit H none).lift fun u => { d with undoDb := u }
  else
    match d.undoDb.back with
    | [] => (d.undoDb.popCommit H none).lift fun u => { d with undoDb := u }
    | st :: _ => d.restoreThen st (d.undoDb.popCommit H)

/-- The call is a modification that the container rejects. -/
def Rejected (d : ObjectDatabase V K I) : Call V → Prop
  | .modify id m => ∃ old, d.indexes.findObject id = some old ∧ d.indexes.Collides id (m old)
  | _ => False

/-! ### One call -/

variable {H}

/-- Everything a call can do to the objects and to the innermost state `st`, with undo enabled. -/
inductive Effect (d : ObjectDatabase V K I) (st : UndoState V) :
    Call V → View V → UndoState V → Prop where
  /-- The index or the object was missing, or the creation was rejected. -/
  | unchanged {c : Call V} (hok : ¬ d.Rejected c) : Effect d st c d.view st
  | created {t n : ℕ} {constructor : ℕ → V} (hn : d.view.next t = some n) :
    Effect d st (.create t constructor)
      ((d.view.setObj ⟨t, n⟩ (some (constructor n))).setNext t (n + 1)) (st.onCreate ⟨t, n⟩)
  | modified {id : ObjectId} {m : V → V} {old : V} (hold : d.view.obj id = some old)
    (hok : ¬ d.indexes.Collides id (m old)) :
    Effect d st (.modify id m) (d.view.setObj id (some (m old))) (st.onModify id old)
  /-- The modification was recorded and then rejected; the object is gone. -/
  | rejected {id : ObjectId} {m : V → V} {old : V} (hold : d.view.obj id = some old)
    (hcol : d.indexes.Collides id (m old)) :
    Effect d st (.modify id m) (d.view.setObj id none) (st.onModify id old)
  | removed {id : ObjectId} {old : V} (hold : d.view.obj id = some old) :
    Effect d st (.remove id) (d.view.setObj id none) (st.onRemove id old)

/-- What one call leaves: only the innermost state of the log changes, and no index changes its
unique keys. -/
structure CallSpec (d d' : ObjectDatabase V K I) (c : Call V) (st : UndoState V)
    (rest : List (UndoState V)) (st' : UndoState V) : Prop where
  undoDb : d'.undoDb = { d.undoDb with back := st' :: rest }
  keysOf : d'.indexes.keysOf = d.indexes.keysOf
  effect : d.Effect st c d'.view st'

variable {d d' : ObjectDatabase V K I}

omit [DecidableEq I] in
theorem call_spec {st : UndoState V} {rest : List (UndoState V)} (hon : d.undoDb.disabled = false)
    (hback : d.undoDb.back = st :: rest) (c : Call V) :
    ∃ st', CallSpec d (d.call c).state c st rest st' := by
  cases c with
  | create t constructor =>
    cases hix : d.indexes.create t constructor with
    | threw e ix =>
      obtain rfl := Indexes.create_threw hix
      refine ⟨st, ?_⟩
      simp only [call, create, hix, Outcome.state_threw]
      exact ⟨UndoDatabase.eq_self hback, rfl, .unchanged fun h => h⟩
    | ok ix =>
      obtain ⟨n, hn, hview⟩ := Indexes.view_create hix
      have hinst : d.nextInstance t = n := by
        simp only [Indexes.view] at hn
        simp [nextInstance, hn]
      have hkeys := Indexes.keysOf_create d.indexes t constructor
      rw [hix] at hkeys
      refine ⟨st.onCreate ⟨t, n⟩, ?_⟩
      simp only [call, create, hix, hinst, Outcome.state_ok]
      refine ⟨UndoDatabase.record_eq hon hback _, hkeys, ?_⟩
      rw [view, hview]
      exact .created hn
  | modify id m =>
    cases hfind : d.indexes.findObject id with
    | none =>
      refine ⟨st, ?_⟩
      simp only [call, modify, hfind, Outcome.state_threw]
      refine ⟨UndoDatabase.eq_self hback, rfl, .unchanged ?_⟩
      rintro ⟨old, hold, -⟩
      simp [hfind] at hold
    | some old =>
      refine ⟨st.onModify id old, ?_⟩
      simp only [call, modify, hfind, Outcome.state_lift]
      refine ⟨UndoDatabase.record_eq hon hback _, Indexes.keysOf_modify .., ?_⟩
      rw [view, Indexes.view_modify hfind m]
      by_cases hcol : d.indexes.Collides id (m old)
      · rw [if_neg fun hok => (Indexes.modify_isOk hfind m).1 hok hcol]
        exact .rejected hfind hcol
      · rw [if_pos ((Indexes.modify_isOk hfind m).2 hcol)]
        exact .modified hfind hcol
  | remove id =>
    cases hfind : d.indexes.findObject id with
    | none =>
      refine ⟨st, ?_⟩
      simp only [call, remove, hfind, Outcome.state_threw]
      exact ⟨UndoDatabase.eq_self hback, rfl, .unchanged fun h => h⟩
    | some old =>
      refine ⟨st.onRemove id old, ?_⟩
      simp only [call, remove, hfind, Outcome.state_lift]
      refine ⟨UndoDatabase.record_eq hon hback _, Indexes.keysOf_remove .., ?_⟩
      rw [view, Indexes.view_remove hfind]
      exact .removed hfind

namespace Effect

variable {d : ObjectDatabase V K I} {st st' : UndoState V} {c : Call V} {w snap : View V}

omit [DecidableEq I]

theorem reverts (h : d.Effect st c w st') (hf : d.view.Fresh) (hrev : st.Reverts d.view snap) :
    st'.Reverts w snap := by
  cases h with
  | unchanged => exact hrev
  | created hn => exact hrev.onCreate hf hn _
  | modified hold => exact hrev.onModify hf hold _
  | rejected hold => exact hrev.onModify hf hold _
  | removed hold => exact hrev.onRemove hf hold

theorem fresh (h : d.Effect st c w st') (hf : d.view.Fresh) : w.Fresh := by
  cases h with
  | unchanged => exact hf
  | created hn => exact hf.create hn _
  | modified hold => exact hf.setObj hold _
  | rejected hold => exact hf.setObj hold _
  | removed hold => exact hf.setObj hold _

/-- What the log records at an id, and whether the object is in place, after the call. -/
theorem live_iff (h : d.Effect st c w st') (hrev : st.Reverts d.view snap) (hok : ¬ d.Rejected c)
    (j : ObjectId) : (st'.entry j).Live (w.obj j) ∨
      st'.entry j = st.entry j ∧ w.obj j = d.view.obj j := by
  cases h with
  | unchanged => exact .inr ⟨rfl, rfl⟩
  | @created t n constructor hn =>
    rw [UndoState.entry_onCreate, View.setNext_obj, View.setObj_obj]
    by_cases hj : j = ⟨t, n⟩
    · simp [hj]
    · simp [hj]
  | @modified id m old hold hcol =>
    rw [UndoState.entry_onModify hrev.disjoint (hrev.entry_ne_del hold), View.setObj_obj]
    by_cases hj : j = id
    · subst hj
      refine .inl ?_
      rw [if_pos rfl, if_pos rfl]
      exact UndoEntry.live_onModify (hold ▸ hrev.fits j) (m old)
    · simp [hj]
  | @rejected id m old hold hcol => exact absurd ⟨old, hold, hcol⟩ hok
  | @removed id old hold =>
    rw [UndoState.entry_onRemove hrev.disjoint, View.setObj_obj]
    by_cases hj : j = id
    · subst hj
      refine .inl ?_
      rw [if_pos rfl, if_pos rfl]
      exact UndoEntry.live_onRemove _ old
    · simp [hj]

theorem missing (h : d.Effect st c w st') (hrev : st.Reverts d.view snap) {id : ObjectId}
    (hid : st.entry id ≠ .nop) (hgone : d.view.obj id = none) :
    st'.entry id = st.entry id ∧ w.obj id = none := by
  cases h with
  | unchanged => exact ⟨rfl, hgone⟩
  | @created t n constructor hn =>
    have hne : id ≠ ⟨t, n⟩ := by
      rintro rfl
      exact hid (hrev.entry_eq_nop hn)
    simp [UndoState.entry_onCreate, hne, hgone]
  | @modified j m old hold hcol =>
    have hne : id ≠ j := fun heq => by simp [← heq, hgone] at hold
    simp [UndoState.entry_onModify hrev.disjoint (hrev.entry_ne_del hold), hne, hgone]
  | @rejected j m old hold hcol =>
    have hne : id ≠ j := fun heq => by simp [← heq, hgone] at hold
    simp [UndoState.entry_onModify hrev.disjoint (hrev.entry_ne_del hold), hne, hgone]
  | @removed j old hold =>
    have hne : id ≠ j := fun heq => by simp [← heq, hgone] at hold
    simp [UndoState.entry_onRemove hrev.disjoint, hne, hgone]

/-- **Recorded objects stay in place exactly as long as no modification is rejected.** -/
theorem liveIn_iff (h : d.Effect st c w st') (hrev : st.Reverts d.view snap) :
    st'.LiveIn w ↔ st.LiveIn d.view ∧ ¬ d.Rejected c := by
  constructor
  · intro hlive
    refine ⟨fun id => ?_, ?_⟩
    · cases ho : d.view.obj id with
      | some v => cases st.entry id <;> simp
      | none =>
        by_cases hnop : st.entry id = .nop
        · simp [hnop]
        · obtain ⟨he, hw⟩ := h.missing hrev hnop ho
          have := hlive id
          rwa [he, hw] at this
    · rintro hrej
      cases h with
      | unchanged hok => exact hok hrej
      | created => exact hrej
      | removed => exact hrej
      | @modified id m old hold hcol =>
        obtain ⟨old', hold', hcol'⟩ := hrej
        obtain rfl : old = old' := Option.some_inj.1 (hold.symm.trans hold')
        exact hcol hcol'
      | @rejected id m old hold hcol =>
        have := hlive id
        rw [UndoState.entry_onModify hrev.disjoint (hrev.entry_ne_del hold), if_pos rfl,
          View.setObj_obj, if_pos rfl] at this
        have hdel := hrev.entry_ne_del hold
        cases he : st.entry id with
        | del x => exact hdel x he
        | _ => simp [he, UndoEntry.onModify] at this
  · rintro ⟨hlive, hok⟩ j
    rcases h.live_iff hrev hok j with hl | ⟨he, hw⟩
    · exact hl
    · rw [he, hw]
      exact hlive j

end Effect

/-! ### Closing a session -/

theorem undo_eq_ok (h : d.undo H = .ok d') :
    ∃ st rest u, d.undoDb.disabled = false ∧ d.undoDb.activeSessions ≠ 0 ∧
      d.undoDb.back = st :: rest ∧ st.restore d.indexes = .ok d'.indexes ∧
      UndoDatabase.reload H "undo load stack back failed"
        { d.undoDb with disabled := true, back := rest } = .ok u ∧
      d'.undoDb = { u with disabled := false, activeSessions := u.activeSessions - 1 } := by
  rw [undo] at h
  split at h
  · rename_i hcond
    rcases hcond with hdis | hact
    · simp [UndoDatabase.undo, hdis] at h
    · cases hdis : d.undoDb.disabled <;> cases hback : d.undoDb.back <;>
        simp [UndoDatabase.undo, hact, hdis, hback] at h
  · rename_i hcond
    simp only [not_or, Bool.not_eq_true] at hcond
    split at h
    · rename_i hback
      simp [UndoDatabase.undo, hcond.1, hback] at h
    · rename_i st rest hback
      rw [restoreThen] at h
      cases hres : st.restore d.indexes with
      | threw e ix => simp [hres] at h
      | ok ix =>
        simp only [hres, Outcome.lift_eq_ok] at h
        obtain ⟨u', hu', rfl⟩ := h
        simp only [UndoDatabase.undo, hcond.1, hback, hcond.2, Bool.false_eq_true, if_false] at hu'
        obtain ⟨u, hu, hfin⟩ := Outcome.bind_eq_ok.1 hu'
        refine ⟨st, rest, u, hcond.1, hcond.2, hback, hres, hu, ?_⟩
        simpa using hfin.symm

theorem popCommit_eq_ok (h : d.popCommit H = .ok d') :
    ∃ st rest u, d.undoDb.activeSessions = 0 ∧ d.undoDb.back = st :: rest ∧
      st.restore d.indexes = .ok d'.indexes ∧
      UndoDatabase.reload H "pop_commit load stack back failed"
        { d.undoDb with disabled := true, back := rest } = .ok u ∧
      d'.undoDb = { u with disabled := false } := by
  rw [popCommit] at h
  split at h
  · rename_i hact
    simp [UndoDatabase.popCommit, hact] at h
  · rename_i hact
    simp only [ne_eq, not_not] at hact
    split at h
    · rename_i hback
      simp [UndoDatabase.popCommit, hact, hback] at h
    · rename_i st rest hback
      rw [restoreThen] at h
      cases hres : st.restore d.indexes with
      | threw e ix => simp [hres] at h
      | ok ix =>
        simp only [hres, Outcome.lift_eq_ok] at h
        obtain ⟨u', hu', rfl⟩ := h
        rw [UndoDatabase.popCommit, if_neg (not_not.2 hact), hback] at hu'
        obtain ⟨u, hu, rfl⟩ := Outcome.lift_eq_ok.1 hu'
        exact ⟨st, rest, u, hact, hback, hres, hu, rfl⟩

theorem merge_eq_ok (h : d.merge H = .ok d') :
    ∃ st prev rest u, d.undoDb.activeSessions ≠ 0 ∧ d.undoDb.back = st :: prev :: rest ∧
      UndoDatabase.reload H "merge load stack back"
        { d.undoDb with back := prev.merge st :: rest } = .ok u ∧
      d' = ⟨d.indexes, { u with activeSessions := u.activeSessions - 1 }⟩ := by
  obtain ⟨u', hu', rfl⟩ := Outcome.lift_eq_ok.1 h
  rw [UndoDatabase.merge] at hu'
  split at hu'
  · simp at hu'
  · rename_i hact
    split at hu'
    · rename_i st prev rest hback
      obtain ⟨u, hu, hfin⟩ := Outcome.bind_eq_ok.1 hu'
      refine ⟨st, prev, rest, u, hact, hback, hu, ?_⟩
      rw [Outcome.ok.injEq] at hfin
      rw [← hfin]
    · simp at hu'

end ObjectDatabase

end Whitecoin.Db
