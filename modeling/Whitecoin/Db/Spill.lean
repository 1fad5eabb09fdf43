import Mathlib.Data.List.Infix
import Whitecoin.Db.UndoHistory

/-!
# Spilling against a plain deque

The undo database moves old states to a key-value store. `PlainUndo` is the database without that:
one deque in memory, from which the oldest states are dropped when there are more than `max_size`.
This module runs both on the same calls and compares what they hold.

Two things separate them. When `max_size` has been lowered, a session that spills may drop states
from memory although older ones are in the store (`KeepsOrder` fails). And the store is addressed
by content, so of two equal states that are spilled only one copy exists, and reading one of them
back loses the other. Where neither happens, the spilling database always holds a run of the newest
states of the plain one, and every state it names can be read back.
-/

namespace Whitecoin.Db

variable {V I : Type}

/-! ### The reference -/

/-- An undo database that never spills; the newest state is first. -/
structure PlainUndo (V : Type) where
  activeSessions : ℕ
  disabled : Bool
  deque : List (UndoState V)
  maxSize : ℕ

namespace PlainUndo

def startUndoSession (p : PlainUndo V) (forceEnable : Bool) : PlainUndo V :=
  if p.disabled = true ∧ forceEnable = false then p
  else
    { p with
      disabled := false
      deque := (UndoState.empty :: p.deque).take p.maxSize
      activeSessions := p.activeSessions + 1 }

def record (p : PlainUndo V) (f : UndoState V → UndoState V) : PlainUndo V :=
  if p.disabled then p
  else
    match p.deque with
    | [] => p
    | st :: rest => { p with deque := f st :: rest }

def undo (p : PlainUndo V) (fault : Option (UndoState V)) : PlainUndo V :=
  if p.disabled then p
  else
    match p.deque with
    | [] => p
    | _ :: rest =>
      if p.activeSessions = 0 then p
      else
        match fault with
        | some left => { p with disabled := true, deque := left :: rest }
        | none => { p with deque := rest, activeSessions := p.activeSessions - 1 }

def merge (p : PlainUndo V) : PlainUndo V :=
  if p.activeSessions = 0 then p
  else
    match p.deque with
    | st :: prev :: rest =>
      { p with deque := prev.merge st :: rest, activeSessions := p.activeSessions - 1 }
    | _ => p

theorem merge_of_short {p : PlainUndo V} (h : p.deque.length < 2) : p.merge = p := by
  rw [merge]
  split
  · rfl
  · split
    · rename_i hdeque
      rw [hdeque, List.length_cons, List.length_cons] at h
      omega
    · rfl

def commit (p : PlainUndo V) : PlainUndo V :=
  if p.disabled then p
  else if p.activeSessions = 0 then p
  else { p with activeSessions := p.activeSessions - 1 }

def popCommit (p : PlainUndo V) (fault : Option (UndoState V)) : PlainUndo V :=
  if p.activeSessions ≠ 0 then p
  else
    match p.deque with
    | [] => p
    | _ :: rest =>
      match fault with
      | some left => { p with disabled := false, deque := left :: rest }
      | none => { p with disabled := false, deque := rest }

end PlainUndo

/-! ### Runs -/

/-- The calls of the undo database. The argument of `undo` and `popCommit` is the outcome of the
calls they make to the object database. -/
inductive UndoCall (V : Type) where
  | start (forceEnable : Bool)
  | onCreate (id : ObjectId)
  | onModify (id : ObjectId) (v : V)
  | onRemove (id : ObjectId) (v : V)
  | undo (fault : Option (UndoState V))
  | merge
  | commit
  | popCommit (fault : Option (UndoState V))
  | setMaxSize (n : ℕ)

namespace UndoDatabase

variable [DecidableEq I] (H : StateHash V I)

/-- The state after a call, whether it returned or threw. -/
def apply (u : UndoDatabase V I) : UndoCall V → UndoDatabase V I
  | .start f => (u.startUndoSession H f).state
  | .onCreate id => u.onCreate id
  | .onModify id v => u.onModify id v
  | .onRemove id v => u.onRemove id v
  | .undo fault => (u.undo H fault).state
  | .merge => (u.merge H).state
  | .commit => u.commit.state
  | .popCommit fault => (u.popCommit H fault).state
  | .setMaxSize n => u.setMaxSize n

/-- The states after a sequence of calls. -/
def run (u : UndoDatabase V I) (calls : List (UndoCall V)) : UndoDatabase V I :=
  calls.foldl (apply H) u

theorem merge_of_short {u : UndoDatabase V I} (h : u.back.length < 2) :
    (u.merge H).state = u := by
  rw [merge]
  split
  · rfl
  · split
    · rename_i hback
      rw [hback, List.length_cons, List.length_cons] at h
      omega
    · rfl

omit [DecidableEq I] in
/-- The states held, newest first; `none` if the store lacks one of those named by `stack`. -/
def history (u : UndoDatabase V I) : Option (List (UndoState V)) :=
  (u.stack.mapM u.getState).map (u.back ++ ·)

/-- A new undo database over an open store. -/
def fresh (maxSize : ℕ) (db : I → Option (UndoState V)) : UndoDatabase V I :=
  ⟨0, false, [], [], maxSize, some db⟩

end UndoDatabase

namespace PlainUndo

def apply (p : PlainUndo V) : UndoCall V → PlainUndo V
  | .start f => p.startUndoSession f
  | .onCreate id => p.record fun st => st.onCreate id
  | .onModify id v => p.record fun st => st.onModify id v
  | .onRemove id v => p.record fun st => st.onRemove id v
  | .undo fault => p.undo fault
  | .merge => p.merge
  | .commit => p.commit
  | .popCommit fault => p.popCommit fault
  | .setMaxSize n => { p with maxSize := n }

def run (p : PlainUndo V) (calls : List (UndoCall V)) : PlainUndo V :=
  calls.foldl apply p

def fresh (V : Type) (maxSize : ℕ) : PlainUndo V := ⟨0, false, [], maxSize⟩

end PlainUndo

section Refinement

variable [DecidableEq I] {H : StateHash V I}

/-- The states held, in the store and in memory, are a run of the newest states of the plain deque,
no two names are equal, and reading back never misses a state. -/
structure HoldsNewest (H : StateHash V I) (u : UndoDatabase V I) (p : PlainUndo V) : Prop where
  newest : ∃ states ∈ u.history, states <+: p.deque
  distinct : u.stack.Nodup
  readable : ∀ message n back, (UndoDatabase.reloadLoop H message n { u with back }).isOk = true

/-- What a call must find. A new session drops no state from memory while an older one stays in the
store, and spills no two equal states; a call that finds no state to work on in memory would find
none in the plain deque. -/
def InStep (H : StateHash V I) (u : UndoDatabase V I) (p : PlainUndo V) : UndoCall V → Prop
  | .start f => (u.disabled = true ∧ f = false) ∨
      ((u.stack = [] ∨ u.KeepsOrder) ∧ (u.pushed.spill H).stack.Nodup)
  | .undo _ | .popCommit _ => u.back = [] → p.deque = []
  | .merge => u.back.length < 2 → p.deque.length < 2
  | _ => True

instance (u : UndoDatabase V I) (p : PlainUndo V) : ∀ c, Decidable (InStep H u p c)
  | .start f => inferInstanceAs (Decidable ((u.disabled = true ∧ f = false) ∨
      ((u.stack = [] ∨ u.KeepsOrder) ∧ (u.pushed.spill H).stack.Nodup)))
  | .undo _ | .popCommit _ => decidable_of_iff (u.back.isEmpty = true → p.deque.isEmpty = true)
      (by simp [InStep])
  | .merge => inferInstanceAs (Decidable (u.back.length < 2 → p.deque.length < 2))
  | .onCreate _ | .onModify _ _ | .onRemove _ _ | .commit | .setMaxSize _ => .isTrue trivial

/-- Every call of a run finds what it must. -/
def InStepRun (H : StateHash V I) : UndoDatabase V I → PlainUndo V → List (UndoCall V) → Prop
  | _, _, [] => True
  | u, p, c :: calls => InStep H u p c ∧ InStepRun H (u.apply H c) (p.apply c) calls

instance decidableInStepRun : ∀ (u : UndoDatabase V I) (p : PlainUndo V)
    (calls : List (UndoCall V)), Decidable (InStepRun H u p calls)
  | _, _, [] => .isTrue trivial
  | u, p, c :: calls =>
    have := decidableInStepRun (u.apply H c) (p.apply c) calls
    inferInstanceAs (Decidable (InStep H u p c ∧ InStepRun H (u.apply H c) (p.apply c) calls))

/-! ### The states in the store -/

/-- `stack` names exactly these states, all distinct and all in the store. -/
structure Stored (H : StateHash V I) (u : UndoDatabase V I) (states : List (UndoState V)) :
    Prop where
  stack : u.stack = states.map H.undoId
  stored : ∀ st ∈ states, u.getState (H.undoId st) = some st
  nodup : u.stack.Nodup

namespace Stored

variable {u : UndoDatabase V I} {states : List (UndoState V)}

omit [DecidableEq I] in
theorem congr (h : Stored H u states) {u' : UndoDatabase V I} (hstack : u'.stack = u.stack)
    (hdb : u'.storage = u.storage) : Stored H u' states := by
  refine ⟨hstack.trans h.stack, fun st hst => ?_, hstack ▸ h.nodup⟩
  have hget : u'.getState (H.undoId st) = u.getState (H.undoId st) := by
    simp only [UndoDatabase.getState, hdb]
  rw [hget, h.stored st hst]

omit [DecidableEq I] in
theorem ids_eq (h : Stored H u states) : u.ids H = (u.back ++ states).map H.undoId := by
  rw [UndoDatabase.ids, h.stack, List.map_append]

omit [DecidableEq I] in
theorem history_eq (h : Stored H u states) : u.history = some (u.back ++ states) := by
  have hmap : ∀ l : List (UndoState V), (∀ st ∈ l, u.getState (H.undoId st) = some st) →
      (l.map H.undoId).mapM u.getState = some l := by
    intro l hl
    induction l with
    | nil => rfl
    | cons st l ih =>
      rw [List.map_cons, List.mapM_cons, hl st List.mem_cons_self,
        ih fun st hst => hl st (List.mem_cons_of_mem _ hst)]
      rfl
  rw [UndoDatabase.history, h.stack, hmap states h.stored, Option.map_some]

theorem tail {st : UndoState V} {db : I → Option (UndoState V)} (h : Stored H u (st :: states))
    (hdb : u.storage = some db) (back : List (UndoState V)) :
    Stored H { u with
      back
      stack := states.map H.undoId
      storage := some (Function.update db (H.undoId st) none) } states := by
  have hnodup := h.nodup
  rw [h.stack, List.map_cons, List.nodup_cons] at hnodup
  refine ⟨rfl, fun st' hst' => ?_, hnodup.2⟩
  have hne : H.undoId st' ≠ H.undoId st := fun heq =>
    hnodup.1 (heq ▸ List.mem_map_of_mem hst')
  have hold := h.stored st' (List.mem_cons_of_mem _ hst')
  simp only [UndoDatabase.getState, hdb, Option.bind_some] at hold
  simp only [UndoDatabase.getState, Option.bind_some, Function.update_of_ne hne, hold]

end Stored

/-- Where the stored states are distinct the loop that reads back returns, and moves the newest of
them into memory. -/
theorem Stored.reloadLoop (message : String) : ∀ (n : ℕ) {u : UndoDatabase V I}
    {states : List (UndoState V)}, Stored H u states → u.storage.isSome →
    ∃ u' left, UndoDatabase.reloadLoop H message n u = .ok u' ∧ Stored H u' left ∧
      u'.storage.isSome ∧ u'.back ++ left = u.back ++ states
  | 0, u, states, h, hopen => ⟨u, states, rfl, h, hopen, rfl⟩
  | n + 1, u, [], h, hopen => by
    refine ⟨u, [], ?_, h, hopen, rfl⟩
    rw [UndoDatabase.reloadLoop, h.stack, List.map_nil]
  | n + 1, u, st :: states, h, hopen => by
    obtain ⟨db, hdb⟩ := Option.isSome_iff_exists.1 hopen
    rw [UndoDatabase.reloadLoop, h.stack, List.map_cons]
    dsimp only
    split
    · have hget : u.getState (H.undoId st) = some st := h.stored st List.mem_cons_self
      rw [hget]
      simp only [UndoDatabase.removeState, if_neg (H.ne_null st), hdb, Outcome.bind_ok]
      obtain ⟨u', left, hok, hleft, hopen', hall⟩ :=
        Stored.reloadLoop message n (h.tail hdb (u.back ++ [st])) rfl
      exact ⟨u', left, hok, hleft, hopen', by simpa using hall⟩
    · exact ⟨u, st :: states, rfl, h, hopen, rfl⟩

variable {u : UndoDatabase V I} {states : List (UndoState V)}

/-- Reading back keeps the states held, in order, and leaves enough of them in memory. -/
theorem Stored.reload (h : Stored H u states) (message : String) (hopen : u.storage.isSome)
    (ha : u.Addressed H) :
    ∃ u' left, u.reload H message = .ok u' ∧ Stored H u' left ∧ u'.storage.isSome ∧
      u'.back ++ left = u.back ++ states ∧ UndoDatabase.Rearranged H u u' ∧ u'.Backed := by
  have hex : ∃ u' left, u.reload H message = .ok u' ∧ Stored H u' left ∧ u'.storage.isSome ∧
      u'.back ++ left = u.back ++ states := by
    rw [UndoDatabase.reload]
    split
    · exact h.reloadLoop message _ hopen
    · exact ⟨u, states, rfl, h, hopen, rfl⟩
  obtain ⟨u', left, hok, hleft, hopen', hall⟩ := hex
  exact ⟨u', left, hok, hleft, hopen', hall, UndoDatabase.reload_ok ha hok⟩

theorem Stored.spill (h : Stored H u states) (hopen : u.storage.isSome)
    (hnodup : (u.spill H).stack.Nodup) : ∃ states', Stored H (u.spill H) states' := by
  obtain ⟨db, hdb⟩ := Option.isSome_iff_exists.1 hopen
  revert hnodup
  rw [UndoDatabase.spill]
  split
  · intro hnodup
    refine ⟨u.spilled ++ states, by rw [List.map_append, ← h.stack]; rfl, fun st hst => ?_, hnodup⟩
    show ((u.storage.map fun db => UndoDatabase.putAll H db u.spilled).bind _) = _
    rw [hdb, Option.map_some, Option.bind_some]
    by_cases hmem : H.undoId st ∈ u.spilled.map H.undoId
    · obtain ⟨st', hst', heq⟩ := List.mem_map.1 hmem
      rw [← H.injective heq, UndoDatabase.putAll_of_mem hst']
    · have hold : st ∈ states := (List.mem_append.1 hst).resolve_left fun hin =>
        hmem (List.mem_map_of_mem hin)
      have := h.stored st hold
      rw [UndoDatabase.getState, hdb, Option.bind_some] at this
      rw [UndoDatabase.putAll_of_notMem hmem, this]
  · exact fun _ => ⟨states, h⟩

theorem Stored.trim (h : Stored H u states) (hopen : u.storage.isSome) :
    Stored H u.afterTrim (states.take (u.maxSize - u.back.length)) := by
  obtain ⟨db, hdb⟩ := Option.isSome_iff_exists.1 hopen
  have hstack : u.afterTrim.stack =
      (states.take (u.maxSize - u.back.length)).map H.undoId := by
    rw [List.map_take, ← h.stack]
    rfl
  refine ⟨hstack, fun st hst => ?_, h.nodup.sublist (List.take_sublist ..)⟩
  -- a state that stays is not among those removed, since the names are distinct
  have hin : H.undoId st ∈ u.afterTrim.stack := by
    rw [hstack]
    exact List.mem_map_of_mem hst
  have hkept : H.undoId st ∉ u.stack.drop (u.maxSize - u.back.length) :=
    fun hmem => List.disjoint_take_drop h.nodup le_rfl hin hmem
  have hold := h.stored st (List.mem_of_mem_take hst)
  rw [UndoDatabase.getState, hdb, Option.bind_some] at hold
  show ((u.storage.map fun db => UndoDatabase.removeAll db _).bind _) = _
  rw [hdb, Option.map_some, Option.bind_some, UndoDatabase.removeAll_apply, if_neg hkept, hold]

/-! ### The simulation -/

/-- The two databases are in the same mode, and the spilling one holds, readably, a run of the
newest states of the plain one. -/
structure Refines (H : StateHash V I) (u : UndoDatabase V I) (p : PlainUndo V) : Prop where
  activeSessions : p.activeSessions = u.activeSessions
  disabled : p.disabled = u.disabled
  maxSize : p.maxSize = u.maxSize
  isOpen : u.storage.isSome
  backed : u.Backed
  addressed : u.Addressed H
  held : ∃ states, Stored H u states ∧ u.back ++ states <+: p.deque

namespace Refines

variable {u : UndoDatabase V I} {p : PlainUndo V}

theorem holdsNewest (h : Refines H u p) : HoldsNewest H u p := by
  obtain ⟨states, hstored, hpre⟩ := h.held
  refine ⟨⟨_, hstored.history_eq, hpre⟩, hstored.nodup, fun message n back => ?_⟩
  have hstored' : Stored H { u with back } states := hstored.congr rfl rfl
  obtain ⟨u', left, hok, -⟩ := hstored'.reloadLoop message n h.isOpen
  rw [hok]
  rfl

omit [DecidableEq I] in
theorem congr (h : Refines H u p) {u' : UndoDatabase V I} {p' : PlainUndo V}
    (hback : u'.back = u.back) (hstack : u'.stack = u.stack) (hdb : u'.storage = u.storage)
    (hdeque : p'.deque = p.deque) (hactive : p'.activeSessions = u'.activeSessions)
    (hoff : p'.disabled = u'.disabled) (hmax : p'.maxSize = u'.maxSize) : Refines H u' p' := by
  obtain ⟨states, hstored, hpre⟩ := h.held
  refine ⟨hactive, hoff, hmax, hdb ▸ h.isOpen, ?_, ?_, states, hstored.congr hstack hdb, ?_⟩
  · rw [UndoDatabase.Backed, hstack, hback]
    exact h.backed
  · rw [UndoDatabase.Addressed, hdb]
    exact h.addressed
  · rw [hback, hdeque]
    exact hpre

variable {l : List (UndoState V)} {fault : Option (UndoState V)}

omit [DecidableEq I] in
theorem deque_eq (h : Refines H u p) (hback : u.back = l) :
    ∃ states rest, Stored H u states ∧ p.deque = l ++ (states ++ rest) := by
  obtain ⟨states, hstored, rest, hrest⟩ := h.held
  exact ⟨states, rest, hstored, by rw [← hrest, hback, List.append_assoc]⟩

omit [DecidableEq I] in
theorem null_not_named (h : Refines H u p) : ∀ id ∈ u.stack, id ≠ H.nullId := by
  obtain ⟨states, hstored, -⟩ := h.held
  intro id hid
  rw [hstored.stack] at hid
  obtain ⟨st, -, rfl⟩ := List.mem_map.1 hid
  exact H.ne_null st

theorem afterStart (h : Refines H u p) (horder : u.stack = [] ∨ u.KeepsOrder)
    (hnodup : (u.pushed.spill H).stack.Nodup) :
    Refines H (u.afterStart H)
      { p with
        disabled := false
        deque := (UndoState.empty :: p.deque).take p.maxSize
        activeSessions := p.activeSessions + 1 } := by
  obtain ⟨states, hstored, hpre⟩ := h.held
  have hpushed : Stored H u.pushed states := hstored.congr rfl rfl
  obtain ⟨states', hspill⟩ := hpushed.spill h.isOpen hnodup
  have hopen : (u.pushed.spill H).storage.isSome := by
    rw [UndoDatabase.isSome_storage_spill]
    exact h.isOpen
  obtain ⟨left, hleft⟩ : ∃ left, Stored H (u.afterStart H) left :=
    ⟨_, (hspill.trim hopen).congr rfl rfl⟩
  refine ⟨?_, ?_, ?_, ?_, ?_, UndoDatabase.addressed_afterStart h.addressed, left, hleft, ?_⟩
  · show p.activeSessions + 1 = u.activeSessions + 1
    rw [h.activeSessions]
  · exact (UndoDatabase.disabled_afterStart u).symm
  · exact h.maxSize.trans (UndoDatabase.maxSize_afterStart u).symm
  · rw [UndoDatabase.isSome_storage_afterStart]
    exact h.isOpen
  · rcases UndoDatabase.stack_spill_of_small (H := H) (u := u.pushed)
      (horder.elim .inr fun hk => hk.2) with hm | hnil
    · rw [UndoDatabase.maxSize_spill] at hm
      exact UndoDatabase.backed_afterStart hm h.backed
    · refine .inl ?_
      show (u.pushed.spill H).stack.take _ = []
      rw [hnil, List.take_nil]
  · -- by name, the new history is a run of the newest states, and it is short enough
    have hids : (u.afterStart H).ids H <+: u.pushed.ids H :=
      UndoDatabase.ids_afterStart_prefix horder
    rw [hleft.ids_eq, hpushed.ids_eq, List.prefix_map_iff_of_injective H.injective] at hids
    have hlen : ((u.afterStart H).ids H).length ≤ u.maxSize := by
      rw [UndoDatabase.ids_afterStart]
      exact List.length_take_le ..
    rw [hleft.ids_eq, List.length_map] at hlen
    rw [List.prefix_take_iff, h.maxSize]
    exact ⟨hids.trans (List.cons_prefix_cons.2 ⟨rfl, hpre⟩), hlen⟩

theorem start (h : Refines H u p) {f : Bool} (hstep : InStep H u p (.start f)) :
    Refines H (u.apply H (.start f)) (p.apply (.start f)) := by
  show Refines H (u.startUndoSession H f).state (p.startUndoSession f)
  rcases hstep with hoff | ⟨horder, hnodup⟩
  · rw [UndoDatabase.startUndoSession, PlainUndo.startUndoSession, h.disabled, if_pos hoff,
      if_pos hoff]
    exact h
  by_cases hoff : u.disabled = true ∧ f = false
  · rw [UndoDatabase.startUndoSession, PlainUndo.startUndoSession, h.disabled, if_pos hoff,
      if_pos hoff]
    exact h
  have hm : 20 ≤ u.maxSize ∨ u.stack = [] := horder.elim .inr fun hk => hk.2
  have hon : u.disabled = false ∨ f = true := by
    by_contra hne
    simp only [not_or, Bool.not_eq_false, Bool.not_eq_true] at hne
    exact hoff hne
  have hok := UndoDatabase.startUndoSession_isOk (H := H) (f := f) h.isOpen h.null_not_named hm
  rw [Outcome.isOk_iff] at hok
  rw [UndoDatabase.startUndoSession_eq hon hm hok, PlainUndo.startUndoSession, h.disabled,
    if_neg hoff]
  exact h.afterStart horder hnodup

omit [DecidableEq I] in
theorem replace (h : Refines H u p) {st : UndoState V} {rest : List (UndoState V)}
    (hback : u.back = st :: rest) :
    ∃ tail, p.deque = st :: tail ∧ ∀ (st' : UndoState V) (b : Bool),
      Refines H { u with back := st' :: rest, disabled := b }
        { p with deque := st' :: tail, disabled := b } := by
  obtain ⟨states, more, hstored, hdeque⟩ := h.deque_eq hback
  refine ⟨rest ++ (states ++ more), hdeque, fun st' b => ?_⟩
  refine ⟨h.activeSessions, rfl, h.maxSize, h.isOpen, ?_, h.addressed, states,
    hstored.congr rfl rfl, ?_⟩
  · exact h.backed.imp_right fun hlt => by simpa [hback] using hlt
  · exact ⟨more, by simp⟩

theorem reload (h : Refines H u p) (hback : u.back = l) (l' : List (UndoState V)) (message : String)
    :
    ∃ tail, p.deque = l ++ tail ∧ ∀ b : Bool,
      ∃ u', ({ u with back := l', disabled := b }).reload H message = .ok u' ∧
        Refines H u' { p with deque := l' ++ tail, disabled := b } := by
  obtain ⟨states, more, hstored, hdeque⟩ := h.deque_eq hback
  refine ⟨states ++ more, hdeque, fun b => ?_⟩
  have hstored' : Stored H { u with back := l', disabled := b } states := hstored.congr rfl rfl
  obtain ⟨u', left, hok, hleft, hopen, hall, hre, hbacked⟩ :=
    hstored'.reload message h.isOpen h.addressed
  refine ⟨u', hok, h.activeSessions.trans hre.activeSessions.symm, hre.disabled.symm,
    h.maxSize.trans hre.maxSize.symm, hopen, hbacked, hre.addressed, left, hleft, more, ?_⟩
  rw [hall, List.append_assoc]

omit [DecidableEq I] in
theorem record (h : Refines H u p) (f : UndoState V → UndoState V) :
    Refines H (u.record f) (p.record f) := by
  by_cases hoff : u.disabled = true
  · simpa [UndoDatabase.record, PlainUndo.record, h.disabled, hoff] using h
  rcases hback : u.back with _ | ⟨st, rest⟩
  · -- with nothing in memory nothing is in the store either
    obtain ⟨states, hstored, -⟩ := h.held
    have hnil : u.stack = [] := h.backed.resolve_right (by simp [hback])
    have hu : u.record f = u := by simp [UndoDatabase.record, hoff, hback]
    obtain rfl : states = [] := by simpa [hnil] using hstored.stack
    rw [hu]
    rw [PlainUndo.record, h.disabled, if_neg hoff]
    split
    · exact h
    · exact ⟨h.activeSessions, rfl, h.maxSize, h.isOpen, h.backed, h.addressed, [], hstored,
        by simp [hback]⟩
  · obtain ⟨tail, hdeque, hrepl⟩ := h.replace hback
    have := hrepl (f st) u.disabled
    rw [UndoDatabase.record, PlainUndo.record, h.disabled, if_neg hoff, if_neg hoff, hback, hdeque]
    simpa [h.disabled] using this

theorem undo (h : Refines H u p) (hstep : InStep H u p (.undo fault)) :
    Refines H (u.undo H fault).state (p.undo fault) := by
  rw [UndoDatabase.undo, PlainUndo.undo, h.disabled, h.activeSessions]
  split
  · exact h
  rename_i hon
  rcases hback : u.back with _ | ⟨st, rest⟩
  · rw [hstep hback]
    exact h
  obtain ⟨tail, hdeque, hload⟩ := h.reload hback rest "undo load stack back failed"
  rw [hdeque]
  dsimp only [List.cons_append]
  split
  · exact h
  rcases fault with _ | left
  · obtain ⟨u', hok, hr⟩ := hload true
    rw [hok]
    refine hr.congr rfl rfl rfl rfl ?_ (by simpa using hon) hr.maxSize
    exact congrArg (· - 1) (h.activeSessions.symm.trans hr.activeSessions)
  · obtain ⟨tail', hdeque', hrepl⟩ := h.replace hback
    rw [hdeque] at hdeque'
    obtain rfl : rest ++ tail = tail' := by simpa using hdeque'
    exact (hrepl left true).congr rfl rfl rfl rfl rfl rfl h.maxSize

theorem merge (h : Refines H u p) (hstep : InStep H u p .merge) :
    Refines H (u.merge H).state p.merge := by
  by_cases hlen : u.back.length < 2
  · rw [UndoDatabase.merge_of_short H hlen, PlainUndo.merge_of_short (hstep hlen)]
    exact h
  rw [UndoDatabase.merge, PlainUndo.merge, h.activeSessions]
  split
  · exact h
  rcases hback : u.back with _ | ⟨st, _ | ⟨prev, rest⟩⟩
  · simp [hback] at hlen
  · simp [hback] at hlen
  · obtain ⟨tail, hdeque, hload⟩ := h.reload hback (prev.merge st :: rest) "merge load stack back"
    obtain ⟨u', hok, hr⟩ := hload u.disabled
    rw [hdeque]
    dsimp only [List.cons_append]
    rw [hok]
    refine hr.congr rfl rfl rfl rfl ?_ (h.disabled.trans hr.disabled) hr.maxSize
    exact congrArg (· - 1) (h.activeSessions.symm.trans hr.activeSessions)

omit [DecidableEq I] in
theorem commit (h : Refines H u p) : Refines H u.commit.state p.commit := by
  rw [UndoDatabase.commit, PlainUndo.commit, h.disabled, h.activeSessions]
  split
  · exact h
  · split
    · exact h
    · exact h.congr rfl rfl rfl rfl rfl rfl h.maxSize

theorem popCommit (h : Refines H u p) (hstep : InStep H u p (.popCommit fault)) :
    Refines H (u.popCommit H fault).state (p.popCommit fault) := by
  rw [UndoDatabase.popCommit, PlainUndo.popCommit, h.activeSessions]
  split
  · exact h
  rcases hback : u.back with _ | ⟨st, rest⟩
  · rw [hstep hback]
    exact h
  obtain ⟨tail, hdeque, hload⟩ := h.reload hback rest "pop_commit load stack back failed"
  rw [hdeque]
  rcases fault with _ | left
  · obtain ⟨u', hok, hr⟩ := hload true
    dsimp only [List.cons_append]
    rw [hok]
    exact hr.congr rfl rfl rfl rfl (h.activeSessions.symm.trans hr.activeSessions) rfl hr.maxSize
  · obtain ⟨tail', hdeque', hrepl⟩ := h.replace hback
    rw [hdeque] at hdeque'
    obtain rfl : rest ++ tail = tail' := by simpa using hdeque'
    exact (hrepl left false).congr rfl rfl rfl rfl rfl rfl h.maxSize

/-- **One call keeps the refinement**, when it is in step. -/
theorem apply (h : Refines H u p) : ∀ {c : UndoCall V}, InStep H u p c →
    Refines H (u.apply H c) (p.apply c)
  | .start _, hstep => h.start hstep
  | .onCreate id, _ => h.record fun st => st.onCreate id
  | .onModify id v, _ => h.record fun st => st.onModify id v
  | .onRemove id v, _ => h.record fun st => st.onRemove id v
  | .undo _, hstep => h.undo hstep
  | .merge, hstep => h.merge hstep
  | .commit, _ => h.commit
  | .popCommit _, hstep => h.popCommit hstep
  | .setMaxSize _, _ => h.congr rfl rfl rfl rfl h.activeSessions h.disabled rfl

theorem run : ∀ {calls : List (UndoCall V)} {u : UndoDatabase V I} {p : PlainUndo V},
    Refines H u p → InStepRun H u p calls → Refines H (u.run H calls) (p.run calls)
  | [], _, _, h, _ => h
  | c :: calls, u, p, h, hstep => by
    show Refines H ((u.apply H c).run H calls) ((p.apply c).run calls)
    exact run (h.apply hstep.1) hstep.2

omit [DecidableEq I] in
theorem fresh (m : ℕ) {db : I → Option (UndoState V)}
    (ha : ∀ id st, db id = some st → H.undoId st = id) :
    Refines H (.fresh m db) (.fresh V m) := by
  refine ⟨rfl, rfl, rfl, rfl, .inl rfl, ?_, [], ⟨rfl, by simp, List.nodup_nil⟩, List.prefix_rfl⟩
  intro db' hdb'
  obtain rfl : db = db' := by simpa [UndoDatabase.fresh] using hdb'
  exact ha

end Refines

/-- **Spilling refines a plain deque** in every run whose calls are in step: no newer state is
missing while an older one is held, no two names in `stack` are equal, and every state that has to
be read back is in the store. -/
theorem spill_refines_deque (H : StateHash V I) (m : ℕ) {db : I → Option (UndoState V)}
    (ha : ∀ id st, db id = some st → H.undoId st = id) {calls : List (UndoCall V)}
    (hrun : InStepRun H (.fresh m db) (.fresh V m) calls) :
    HoldsNewest H ((UndoDatabase.fresh m db).run H calls) ((PlainUndo.fresh V m).run calls) :=
  ((Refines.fresh m ha).run hrun).holdsNewest

end Refinement

/-! ### Runs on concrete inputs -/

/-- Sessions that each create one object and are committed. -/
def blockRun (n : ℕ) : List (UndoCall ℕ) :=
  (List.range n).flatMap fun k => [.start false, .onCreate ⟨0, k⟩, .commit]

/-- Sessions that change nothing. -/
def idleRun (n : ℕ) : List (UndoCall ℕ) :=
  (List.replicate n [.start false, .commit]).flatten

/-- An empty store, addressed by the states themselves. -/
def emptyStore : Option (UndoState ℕ) → Option (UndoState ℕ) := fun _ => none

theorem spill_refines_deque_blocks :
    HoldsNewest (.identity ℕ)
      ((UndoDatabase.fresh 1440 emptyStore).run (.identity ℕ)
        (blockRun 31 ++ List.replicate 15 (.popCommit none)))
      ((PlainUndo.fresh ℕ 1440).run (blockRun 31 ++ List.replicate 15 (.popCommit none))) :=
  spill_refines_deque _ _ (by simp [emptyStore]) (by decide +kernel)

/-- **Two runs in which spilling does not refine the plain deque.** In the first, `max_size` is
lowered from 1440 to 20 after forty sessions, and the next session drops eleven states from memory
but keeps an older one in the store. In the second, the sessions change nothing, so the eleven
states that are spilled share one entry of the store; once the first of them has been read back the
others cannot be. -/
theorem spill_departs_from_deque :
    ¬ HoldsNewest (.identity ℕ)
      ((UndoDatabase.fresh 1440 emptyStore).run (.identity ℕ)
        (blockRun 40 ++ [.setMaxSize 20, .start false]))
      ((PlainUndo.fresh ℕ 1440).run (blockRun 40 ++ [.setMaxSize 20, .start false])) ∧
    ¬ HoldsNewest (.identity ℕ)
      ((UndoDatabase.fresh 1440 emptyStore).run (.identity ℕ)
        (idleRun 30 ++ List.replicate 14 (.popCommit none)))
      ((PlainUndo.fresh ℕ 1440).run (idleRun 30 ++ List.replicate 14 (.popCommit none))) := by
  refine ⟨fun h => absurd h.newest ?_, fun h => absurd h.newest ?_⟩
  · decide +kernel
  · decide +kernel

end Whitecoin.Db
