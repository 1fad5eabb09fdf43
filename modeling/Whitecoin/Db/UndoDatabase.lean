import Whitecoin.Db.UndoState

/-!
# The undo database

`undo_database` keeps the undo states of the open and the committed sessions. The newest ones are
in memory, in the deque `back`. When that grows to thirty, the oldest are written to a key-value
store and only their ids stay, in the deque `_stack`; when it shrinks to five, ids are read back.
The store is addressed by content: a state is stored under its hash, so two equal states share one
entry, and removing one of them removes both.

Both deques are lists with the **newest state first**: `back()` is the head, `front()` the last
element. With this order the whole history is `back` followed by `stack`, and `UndoDatabase.ids`
names it uniformly, in memory or not.

The calls of the object database inside `undo` and `pop_commit` are an argument here: `fault` is
`none` when they all returned, and otherwise the contents left in the state that was being undone.
`ObjectDatabase` supplies the actual outcome.
-/

namespace Whitecoin.Db

/-- The hash under which states are stored. The source uses a cryptographic digest of the packed
state; the model takes it to be free of collisions and never the null id. -/
structure StateHash (V I : Type) where
  undoId : UndoState V → I
  nullId : I
  injective : Function.Injective undoId
  ne_null : ∀ st, undoId st ≠ nullId

/-- The states themselves can serve as their names. -/
def StateHash.identity (V : Type) : StateHash V (Option (UndoState V)) :=
  ⟨some, none, Option.some_injective _, fun _ => Option.some_ne_none _⟩

/-- `max_back_size`. -/
def maxBackSize : ℕ := 20

/-- The undo database. `storage` is `none` while the key-value store is closed. -/
structure UndoDatabase (V I : Type) where
  activeSessions : ℕ
  disabled : Bool
  stack : List I
  back : List (UndoState V)
  maxSize : ℕ
  storage : Option (I → Option (UndoState V))

namespace UndoDatabase

variable {V I : Type} [DecidableEq I] (H : StateHash V I)

def size (u : UndoDatabase V I) : ℕ := u.stack.length + u.back.length

def enable (u : UndoDatabase V I) : UndoDatabase V I := { u with disabled := false }

def disable (u : UndoDatabase V I) : UndoDatabase V I := { u with disabled := true }

def setMaxSize (u : UndoDatabase V I) (n : ℕ) : UndoDatabase V I := { u with maxSize := n }

/-! ### The key-value store -/

/-- `store_undo_state`: put the state under its hash. -/
def storeUndoState (u : UndoDatabase V I) (st : UndoState V) : Outcome String (UndoDatabase V I) :=
  match u.storage with
  | none => .threw "undo_storage closed" u
  | some db => .ok { u with storage := some (Function.update db (H.undoId st) (some st)) }

/-- `undo_storage::remove`; deleting an absent key succeeds. -/
def removeState (u : UndoDatabase V I) (id : I) : Outcome String (UndoDatabase V I) :=
  if id = H.nullId then .threw "id != undo_state_id_type()" u
  else
    match u.storage with
    | none => .threw "undo_storage closed" u
    | some db => .ok { u with storage := some (Function.update db id none) }

/-- `undo_storage::get_state`. -/
def getState (u : UndoDatabase V I) (id : I) : Option (UndoState V) :=
  u.storage.bind fun db => db id

/-! ### Opening a session -/

/-- The inner loop of `start_undo_session` that moves states out of memory: states that fit in
`max_size` are stored, the others dropped. Each iteration takes one state out of `back`, so its
length bounds the iterations. -/
def spillLoop : ℕ → UndoDatabase V I → Outcome String (UndoDatabase V I)
  | 0, u => .ok u
  | n + 1, u =>
    if maxBackSize ≤ u.back.length then
      match u.back.getLast? with
      | none => .ok u
      | some front =>
        (if u.back.length < u.maxSize then
          (u.storeUndoState H front).lift fun u => { u with stack := H.undoId front :: u.stack }
        else .ok u).bind fun u => spillLoop n { u with back := u.back.dropLast }
    else .ok u

/-- The last loop of `start_undo_session`: drop states until `max_size` are left. `pop_front` of an
empty deque is undefined in the source; here it throws. -/
def trimLoop : ℕ → UndoDatabase V I → Outcome String (UndoDatabase V I)
  | 0, u => .ok u
  | n + 1, u =>
    if u.maxSize < u.size then
      if maxBackSize < u.size ∧ u.stack ≠ [] then
        match u.stack.getLast? with
        | none => .ok u
        | some front =>
          (u.removeState H front).bind fun u => trimLoop n { u with stack := u.stack.dropLast }
      else
        match u.back with
        | [] => .threw "pop_front of an empty deque" u
        | _ :: _ => trimLoop n { u with back := u.back.dropLast }
    else .ok u

/-- `start_undo_session`. The outer spilling loop of the source runs at most once, since the inner
one leaves fewer than `max_back_size` states. -/
def startUndoSession (u : UndoDatabase V I) (forceEnable : Bool) :
    Outcome String (UndoDatabase V I) :=
  if u.disabled = true ∧ forceEnable = false then .ok u
  else
    let u := { u with disabled := false, back := UndoState.empty :: u.back }
    (if maxBackSize + 10 ≤ u.back.length then spillLoop H u.back.length u else .ok u).bind fun u =>
    (trimLoop H u.size u).bind fun u => .ok { u with activeSessions := u.activeSessions + 1 }

/-! ### Recording -/

/-- Update the innermost state, unless undo is disabled. -/
def record (u : UndoDatabase V I) (f : UndoState V → UndoState V) : UndoDatabase V I :=
  if u.disabled then u
  else
    match u.back with
    | [] => u
    | st :: rest => { u with back := f st :: rest }

def onCreate (u : UndoDatabase V I) (id : ObjectId) : UndoDatabase V I :=
  u.record fun st => st.onCreate id

def onModify (u : UndoDatabase V I) (id : ObjectId) (v : V) : UndoDatabase V I :=
  u.record fun st => st.onModify id v

def onRemove (u : UndoDatabase V I) (id : ObjectId) (v : V) : UndoDatabase V I :=
  u.record fun st => st.onRemove id v

omit [DecidableEq I] in
theorem record_eq {u : UndoDatabase V I} {st : UndoState V} {rest : List (UndoState V)}
    (hon : u.disabled = false) (hback : u.back = st :: rest) (f : UndoState V → UndoState V) :
    u.record f = { u with back := f st :: rest } := by
  simp [record, hon, hback]

omit [DecidableEq I] in
theorem eq_self {u : UndoDatabase V I} {l : List (UndoState V)} (hback : u.back = l) :
    u = { u with back := l } := by
  rw [← hback]

/-! ### Closing a session -/

/-- The loop that reads states back, shared by `undo`, `merge` and `pop_commit`. A state that
cannot be read leaves the empty state that was to receive it. -/
def reloadLoop (message : String) : ℕ → UndoDatabase V I → Outcome String (UndoDatabase V I)
  | 0, u => .ok u
  | n + 1, u =>
    match u.stack with
    | [] => .ok u
    | id :: rest =>
      if u.back.length < maxBackSize then
        match u.getState id with
        | none => .threw message { u with back := u.back ++ [UndoState.empty] }
        | some st =>
          (removeState H { u with back := u.back ++ [st] } id).bind fun u =>
            reloadLoop message n { u with stack := rest }
      else .ok u

/-- Read states back when at most five are left in memory. -/
def reload (message : String) (u : UndoDatabase V I) : Outcome String (UndoDatabase V I) :=
  if u.stack ≠ [] ∧ u.back.length ≤ 5 then reloadLoop H message u.stack.length u else .ok u

/-- `undo`. -/
def undo (u : UndoDatabase V I) (fault : Option (UndoState V)) :
    Outcome String (UndoDatabase V I) :=
  if u.disabled then .threw "!_disabled" u
  else
    match u.back with
    | [] => .threw "back.size()>0" u
    | _ :: rest =>
      if u.activeSessions = 0 then .threw "_active_sessions > 0" u
      else
        match fault with
        | some left => .threw "object_database" { u with disabled := true, back := left :: rest }
        | none =>
          (reload H "undo load stack back failed" { u with disabled := true, back := rest }).bind
            fun u => .ok { u with disabled := false, activeSessions := u.activeSessions - 1 }

/-- `merge`. -/
def merge (u : UndoDatabase V I) : Outcome String (UndoDatabase V I) :=
  if u.activeSessions = 0 then .threw "_active_sessions > 0" u
  else
    match u.back with
    | st :: prev :: rest =>
      (reload H "merge load stack back" { u with back := prev.merge st :: rest }).bind
        fun u => .ok { u with activeSessions := u.activeSessions - 1 }
    | _ => .threw "back.size() >=2" u

/-- `commit`. -/
def commit (u : UndoDatabase V I) : Outcome String (UndoDatabase V I) :=
  if u.disabled then .ok u
  else if u.activeSessions = 0 then .threw "_active_sessions > 0" u
  else .ok { u with activeSessions := u.activeSessions - 1 }

/-- `pop_commit`. Undo is enabled again also when it throws. -/
def popCommit (u : UndoDatabase V I) (fault : Option (UndoState V)) :
    Outcome String (UndoDatabase V I) :=
  if u.activeSessions ≠ 0 then .threw "_active_sessions == 0" u
  else
    match u.back with
    | [] => .threw "!back.empty()" u
    | _ :: rest =>
      match fault with
      | some left => .threw "object_database" { u with disabled := false, back := left :: rest }
      | none =>
        (reload H "pop_commit load stack back failed"
          { u with disabled := true, back := rest }).lift enable

/-! ### The history by name -/

/-- The names of the states held, newest first, in memory or not. -/
def ids (u : UndoDatabase V I) : List I := u.back.map H.undoId ++ u.stack

/-- Every stored state is stored under its own hash. -/
def Addressed (u : UndoDatabase V I) : Prop :=
  ∀ db, u.storage = some db → ∀ id st, db id = some st → H.undoId st = id

/-- States are read back before the ones in memory run out. -/
def Backed (u : UndoDatabase V I) : Prop := u.stack = [] ∨ 5 < u.back.length

end UndoDatabase

end Whitecoin.Db
