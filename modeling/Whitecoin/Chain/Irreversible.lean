import Whitecoin.Db.Restore
import Whitecoin.Db.Sessions

/-!
# The last irreversible block

`update_last_irreversible_block` declares a block irreversible when the undo history no longer
reaches it: the number recorded is the head block number minus the number of undo states. This
module runs histories of pushed and popped blocks over the object database and asks whether
`pop_block` can ever pop a block that was declared irreversible.

As long as the undo history is a run of the newest states it cannot: every pushed block adds one to
the head number and at most one to the history, every popped block takes one from both, so the
recorded numbers stay below the head number minus the size of the history. When `max_size` is
lowered the history may get a gap (`KeepsOrder` fails). Popping the state below the gap then takes
the head number back by more than one, and blocks pushed and popped after that are below numbers
that have been recorded.
-/

namespace Whitecoin.Chain

open Db

/-! ### The objects -/

/-- `dynamic_global_property_object`; `rest` is everything but the two numbers. -/
structure DynamicGlobalProperties (R : Type) where
  headBlockNumber : ℕ
  lastIrreversibleBlockNum : ℕ
  rest : R
  deriving DecidableEq

/-- The objects of the chain. -/
inductive ChainObject (R : Type) where
  | dynamicGlobalProperties (p : DynamicGlobalProperties R)
  | other (r : R)
  deriving DecidableEq

/-- `dynamic_global_property_id_type()`: space 2, type 1, instance 0. -/
def dgpId : ObjectId := ⟨2 * 256 + 1, 0⟩

variable {R K I : Type}

def ChainObject.update (f : DynamicGlobalProperties R → DynamicGlobalProperties R) :
    ChainObject R → ChainObject R
  | .dynamicGlobalProperties p => .dynamicGlobalProperties (f p)
  | .other r => .other r

/-- `get_dynamic_global_properties`. -/
def dynamicGlobalProperties (w : View (ChainObject R)) : Option (DynamicGlobalProperties R) :=
  match w.obj dgpId with
  | some (.dynamicGlobalProperties p) => some p
  | _ => none

/-- A call that leaves the two numbers alone. Only `update_global_dynamic_data` and
`update_last_irreversible_block` write them. -/
def KeepsNumbers : Call (ChainObject R) → Prop
  | .create _ _ => True
  | .modify id m => id = dgpId → ∀ p, ∃ r,
      m (.dynamicGlobalProperties p) = .dynamicGlobalProperties { p with rest := r }
  | .remove id => id ≠ dgpId

/-- The parts of `_apply_block`. -/
inductive Stage where
  | transactions
  | signingMiner
  | maintenance
  deriving DecidableEq

/-- What `_apply_block` does with a block, the two numbers apart: the calls it makes in each part,
caught exceptions included, and the part in which it throws, if it does. -/
structure Block (R : Type) where
  transactions : List (Call (ChainObject R))
  signingMiner : List (Call (ChainObject R))
  maintenance : List (Call (ChainObject R))
  fails : Option Stage
  keeps : ∀ c ∈ transactions ++ signingMiner ++ maintenance, KeepsNumbers c

/-! ### Histories -/

/-- The database, and every number that `update_last_irreversible_block` has recorded. -/
structure ChainState (R K I : Type) [DecidableEq K] where
  db : ObjectDatabase (ChainObject R) K I
  recorded : List ℤ

namespace ChainState

variable [DecidableEq K] [DecidableEq I]

def headBlockNum (s : ChainState R K I) : ℕ :=
  ((dynamicGlobalProperties s.db.view).map (·.headBlockNumber)).getD 0

def lastIrreversibleBlockNum (s : ChainState R K I) : ℕ :=
  ((dynamicGlobalProperties s.db.view).map (·.lastIrreversibleBlockNum)).getD 0

/-- One part of `_apply_block`: its calls, and an exception if the block fails here. -/
def stage (b : Block R) (part : Stage) (calls : List (Call (ChainObject R)))
    (s : ChainState R K I) : Outcome String (ChainState R K I) :=
  let s := { s with db := s.db.runCalls calls }
  if b.fails = some part then .threw "apply_block" s else .ok s

/-- `update_global_dynamic_data`: the block's number is one more than the head's, since its header
was checked to follow the head. -/
def updateGlobalDynamicData (s : ChainState R K I) : Outcome String (ChainState R K I) :=
  (s.db.modify dgpId (.update fun p => { p with headBlockNumber := s.headBlockNum + 1 })).lift
    fun db => { s with db }

/-- `update_last_irreversible_block`. -/
def updateLastIrreversibleBlock (s : ChainState R K I) : Outcome String (ChainState R K I) :=
  let new : ℤ := (s.headBlockNum : ℤ) - (s.db.undoDb.size : ℤ)
  if (s.lastIrreversibleBlockNum : ℤ) < new then
    (s.db.modify dgpId (.update fun p => { p with lastIrreversibleBlockNum := new.toNat })).lift
      fun db => ⟨db, new :: s.recorded⟩
  else .ok s

/-- `_apply_block`. -/
def applyBlock (s : ChainState R K I) (b : Block R) : Outcome String (ChainState R K I) :=
  (stage b .transactions b.transactions s).bind fun s =>
  s.updateGlobalDynamicData.bind fun s =>
  (stage b .signingMiner b.signingMiner s).bind fun s =>
  s.updateLastIrreversibleBlock.bind fun s =>
  stage b .maintenance b.maintenance s

/-- Push a block that follows the head: the last part of `_push_block`. When applying it throws,
the destructor of the session undoes it; `none` if that throws as well, which ends the process. -/
def pushBlock (H : StateHash (ChainObject R) I) (s : ChainState R K I) (b : Block R) :
    Option (ChainState R K I) :=
  match s.db.startUndoSession H false with
  | .threw _ db => some { s with db }
  | .ok db =>
    match applyBlock { s with db } b with
    | .ok s => some { s with db := s.db.commit.state }
    | .threw _ s =>
      match s.db.undo H with
      | .ok db => some { s with db }
      | .threw _ _ => none

/-- `pop_block`, as far as the objects are concerned. Its other steps can only refuse the call
before any object is touched. -/
def popBlock (H : StateHash (ChainObject R) I) (s : ChainState R K I) :
    Outcome String (ChainState R K I) :=
  (s.db.popCommit H).lift fun db => { s with db }

/-- What happens to the chain. `_push_block` sets `max_size` to 20 while old blocks arrive, and to
1440 otherwise. -/
inductive Event (R : Type) where
  | push (b : Block R)
  | pop
  | setMaxSize (recent : Bool)

def step (H : StateHash (ChainObject R) I) (s : ChainState R K I) :
    Event R → Option (ChainState R K I)
  | .push b => s.pushBlock H b
  | .pop => some (s.popBlock H).state
  | .setMaxSize recent => some { s with db := s.db.setMaxSize (if recent then 1440 else 20) }

def run (H : StateHash (ChainObject R) I) : List (Event R) → ChainState R K I →
    Option (ChainState R K I)
  | [], s => some s
  | e :: es, s => (s.step H e).bind (run H es)

/-- A push finds the store of undo states empty, or drops no state that is newer than one it keeps;
a pop that finds an undo state returns. -/
def InOrder (H : StateHash (ChainObject R) I) (s : ChainState R K I) : Event R → Prop
  | .push _ => s.db.undoDb.stack = [] ∨ s.db.undoDb.KeepsOrder
  | .pop => s.db.undoDb.back = [] ∨ (s.popBlock H).isOk = true
  | .setMaxSize _ => True

/-- Every event of a history is in order. -/
def InOrderRun (H : StateHash (ChainObject R) I) : List (Event R) → ChainState R K I → Prop
  | [], _ => True
  | e :: es, s => s.InOrder H e ∧
      match s.step H e with
      | none => True
      | some s' => InOrderRun H es s'

instance (H : StateHash (ChainObject R) I) (s : ChainState R K I) :
    ∀ e : Event R, Decidable (s.InOrder H e)
  | .push _ => inferInstanceAs (Decidable (s.db.undoDb.stack = [] ∨ s.db.undoDb.KeepsOrder))
  | .pop => decidable_of_iff (s.db.undoDb.back.isEmpty = true ∨ (s.popBlock H).isOk = true)
      (by simp [InOrder])
  | .setMaxSize _ => .isTrue trivial

instance decidableInOrderRun (H : StateHash (ChainObject R) I) :
    ∀ (es : List (Event R)) (s : ChainState R K I), Decidable (InOrderRun H es s)
  | [], _ => .isTrue trivial
  | e :: es, s =>
    have : Decidable (match s.step H e with
        | none => True
        | some s' => InOrderRun H es s') :=
      match s.step H e with
      | none => .isTrue trivial
      | some s' => decidableInOrderRun H es s'
    inferInstanceAs (Decidable (s.InOrder H e ∧ _))

/-! ### The numbers under a call -/

/-- The head number in these objects is `n`. -/
def HasHead (w : View (ChainObject R)) (n : ℕ) : Prop :=
  ∃ p, dynamicGlobalProperties w = some p ∧ p.headBlockNumber = n

variable {w : View (ChainObject R)} {s : ChainState R K I} {n : ℕ}
  {d : ObjectDatabase (ChainObject R) K I}

theorem dynamicGlobalProperties_eq_some {p : DynamicGlobalProperties R} :
    dynamicGlobalProperties w = some p ↔ w.obj dgpId = some (.dynamicGlobalProperties p) := by
  rw [dynamicGlobalProperties]
  split
  · rename_i q hq
    rw [hq]
    simp
  · rename_i hne
    exact ⟨fun h => by simp at h, fun h => absurd h (hne p)⟩

omit [DecidableEq I] in
theorem HasHead.eq (h : HasHead s.db.view n) : s.headBlockNum = n := by
  obtain ⟨p, hp, rfl⟩ := h
  rw [headBlockNum, hp]
  rfl

omit [DecidableEq I] in
/-- The index of the dynamic global properties has no unique key, so modifying them is never
rejected. -/
theorem not_collides_of_keyless (hkeys : d.indexes.keysOf dgpId.spaceType = []) (v : ChainObject R)
    :
    ¬ d.indexes.Collides dgpId v := by
  rintro ⟨j, w, -, -, hclash⟩
  rw [hkeys] at hclash
  simp [clash] at hclash

omit [DecidableEq I] in
theorem hasHead_of_effect {st st' : UndoState (ChainObject R)} {c : Call (ChainObject R)}
    (h : d.Effect st c w st') (hc : KeepsNumbers c) (hf : d.view.Fresh)
    (hkeys : d.indexes.keysOf dgpId.spaceType = []) (hn : HasHead d.view n) : HasHead w n := by
  obtain ⟨p, hp, rfl⟩ := hn
  have hobj := dynamicGlobalProperties_eq_some.1 hp
  rcases h with hok | @⟨t, i, constructor, hi⟩ | @⟨id, m, old, hold, hok⟩ |
    @⟨id, m, old, hold, hcol⟩ | @⟨id, old, hold⟩
  · exact ⟨p, hp, rfl⟩
  · -- the new object's id was not in use
    have hne : dgpId ≠ ⟨t, i⟩ := by
      intro heq
      obtain ⟨k, hk, hlt⟩ := hf dgpId _ hobj
      rw [heq, hi, Option.some.injEq] at hk
      rw [heq, ← hk] at hlt
      exact lt_irrefl _ hlt
    refine ⟨p, dynamicGlobalProperties_eq_some.2 ?_, rfl⟩
    rw [View.setNext_obj, View.setObj_obj, if_neg hne, hobj]
  · by_cases hid : id = dgpId
    · subst hid
      obtain rfl : .dynamicGlobalProperties p = old := Option.some_inj.1 (hobj.symm.trans hold)
      obtain ⟨r, hr⟩ := hc rfl p
      refine ⟨{ p with rest := r }, dynamicGlobalProperties_eq_some.2 ?_, rfl⟩
      rw [View.setObj_obj, if_pos rfl, hr]
    · refine ⟨p, dynamicGlobalProperties_eq_some.2 ?_, rfl⟩
      rw [View.setObj_obj, if_neg (Ne.symm hid), hobj]
  · have hid : id ≠ dgpId := by
      rintro rfl
      exact not_collides_of_keyless hkeys _ hcol
    refine ⟨p, dynamicGlobalProperties_eq_some.2 ?_, rfl⟩
    rw [View.setObj_obj, if_neg (Ne.symm hid), hobj]
  · refine ⟨p, dynamicGlobalProperties_eq_some.2 ?_, rfl⟩
    have hid : id ≠ dgpId := hc
    rw [View.setObj_obj, if_neg (Ne.symm hid), hobj]

/-! ### The invariant -/

/-- The snapshots go back one block at a time, the first of them to the block below `top`. -/
def Falls : ℕ → List (View (ChainObject R)) → Prop
  | _, [] => True
  | top, v :: vs => ∃ n, HasHead v n ∧ n + 1 = top ∧ Falls n vs

theorem Falls.take : ∀ {top : ℕ} {vs : List (View (ChainObject R))} (k : ℕ), Falls top vs →
    Falls top (vs.take k)
  | _, [], k, _ => by simp [Falls]
  | _, _ :: _, 0, _ => trivial
  | _, _ :: _, k + 1, ⟨n, hn, htop, h⟩ => ⟨n, hn, htop, h.take k⟩

/-- The whole undo history leads back one block at a time from `top`, the head number is `n`, and
the numbers recorded are out of the history's reach. Between blocks `top = n`; while a block is
applied, `top` is its number. -/
structure Logged (H : StateHash (ChainObject R) I) (s : ChainState R K I)
    (ss : List (UndoState (ChainObject R))) (vs : List (View (ChainObject R))) (top n : ℕ) :
    Prop where
  tracks : s.db.Tracks H ss vs
  size : s.db.undoDb.size = ss.length
  enabled : s.db.undoDb.disabled = false
  isOpen : s.db.undoDb.storage.isSome
  maxSize : 20 ≤ s.db.undoDb.maxSize
  keyless : s.db.indexes.keysOf dgpId.spaceType = []
  falls : Falls top vs
  bound : ∀ r ∈ s.recorded, r + ss.length ≤ top
  head : HasHead s.db.view n

namespace Logged

variable {H : StateHash (ChainObject R) I} {s : ChainState R K I}
  {st : UndoState (ChainObject R)} {ss : List (UndoState (ChainObject R))}
  {v : View (ChainObject R)} {vs : List (View (ChainObject R))} {top n : ℕ}

variable {d : ObjectDatabase (ChainObject R) K I} {rest : List (UndoState (ChainObject R))} {m : ℕ}

omit [DecidableEq I] in
theorem of_spec (h : s.Logged H (st :: ss) (v :: vs) top n) {c : Call (ChainObject R)}
    {st' : UndoState (ChainObject R)} (hback : s.db.undoDb.back = st :: rest)
    (hspec : s.db.CallSpec d c st rest st') (htr : d.Tracks H (st' :: ss) (v :: vs))
    (hm : HasHead d.view m) : Logged H { s with db := d } (st' :: ss) (v :: vs) top m := by
  have hu := hspec.undoDb
  refine ⟨htr, ?_, ?_, ?_, ?_, ?_, h.falls, h.bound, hm⟩
  · have hsize := h.size
    rw [UndoDatabase.size, hback] at hsize
    show d.undoDb.size = _
    rw [hu]
    exact hsize
  · show d.undoDb.disabled = false
    rw [hu]
    exact h.enabled
  · show d.undoDb.storage.isSome
    rw [hu]
    exact h.isOpen
  · show 20 ≤ d.undoDb.maxSize
    rw [hu]
    exact h.maxSize
  · show d.indexes.keysOf dgpId.spaceType = []
    rw [hspec.keysOf]
    exact h.keyless

omit [DecidableEq I] in
theorem runCalls : ∀ {calls : List (Call (ChainObject R))} {s : ChainState R K I}
    {st : UndoState (ChainObject R)}, (∀ c ∈ calls, KeepsNumbers c) →
    s.Logged H (st :: ss) (v :: vs) top n →
    ∃ st', Logged H { s with db := s.db.runCalls calls } (st' :: ss) (v :: vs) top n ∧
      (s.db.runCalls calls).undoDb.activeSessions = s.db.undoDb.activeSessions
  | [], s, st, _, h => ⟨st, h, rfl⟩
  | c :: calls, s, st, hc, h => by
    obtain ⟨rest, st₁, hback, hspec, htr⟩ := h.tracks.call h.enabled c
    have hhead : HasHead (s.db.call c).state.view n := hasHead_of_effect hspec.effect
      (hc c List.mem_cons_self) h.tracks.fresh h.keyless h.head
    obtain ⟨st', hlog, hactive⟩ := runCalls (fun c' hc' => hc c' (List.mem_cons_of_mem _ hc'))
      (h.of_spec hback hspec htr hhead)
    refine ⟨st', hlog, hactive.trans ?_⟩
    show (s.db.call c).state.undoDb.activeSessions = _
    rw [hspec.undoDb]

omit [DecidableEq I] in
theorem modify_dgp (h : s.Logged H (st :: ss) (v :: vs) top n)
    (f : DynamicGlobalProperties R → DynamicGlobalProperties R)
    (hf : ∀ p, p.headBlockNumber = n → (f p).headBlockNumber = m) :
    ∃ d st', s.db.modify dgpId (.update f) = .ok d ∧
      Logged H { s with db := d } (st' :: ss) (v :: vs) top m ∧
      d.undoDb.activeSessions = s.db.undoDb.activeSessions := by
  obtain ⟨p, hp, hn⟩ := h.head
  have hfind : s.db.indexes.findObject dgpId = some (.dynamicGlobalProperties p) :=
    dynamicGlobalProperties_eq_some.1 hp
  obtain ⟨rest, st', hback, hspec, htr⟩ := h.tracks.call h.enabled (.modify dgpId (.update f))
  have hok : (s.db.indexes.modify dgpId (.update f)).isOk = true :=
    (Indexes.modify_isOk hfind _).2 (not_collides_of_keyless h.keyless _)
  have hcall : s.db.modify dgpId (.update f) =
      .ok (s.db.call (.modify dgpId (.update f))).state := by
    refine Outcome.isOk_iff.1 ?_
    rw [ObjectDatabase.modify, hfind, Outcome.isOk_lift]
    exact hok
  have hview : (s.db.call (.modify dgpId (.update f))).state.view =
      s.db.view.setObj dgpId (some (.dynamicGlobalProperties (f p))) := by
    rw [ObjectDatabase.call, ObjectDatabase.modify, hfind, Outcome.state_lift]
    show Indexes.view (s.db.indexes.modify dgpId (.update f)).state = _
    rw [Indexes.view_modify hfind, if_pos hok]
    rfl
  refine ⟨_, st', hcall, h.of_spec hback hspec htr ⟨f p, ?_, hf p hn⟩, ?_⟩
  · rw [dynamicGlobalProperties_eq_some, hview, View.setObj_obj, if_pos rfl]
  · rw [hspec.undoDb]

omit [DecidableEq I] in
theorem updateLastIrreversibleBlock (h : s.Logged H (st :: ss) (v :: vs) top top) :
    ∃ s' st', s.updateLastIrreversibleBlock = .ok s' ∧ s'.Logged H (st' :: ss) (v :: vs) top top ∧
      s'.db.undoDb.activeSessions = s.db.undoDb.activeSessions := by
  rw [ChainState.updateLastIrreversibleBlock]
  split
  · obtain ⟨d, st', hok, hlog, hactive⟩ := h.modify_dgp (m := top)
      (fun p => { p with lastIrreversibleBlockNum :=
        ((s.headBlockNum : ℤ) - (s.db.undoDb.size : ℤ)).toNat }) fun p hp => hp
    rw [hok]
    refine ⟨_, st', rfl, { hlog with bound := ?_ }, hactive⟩
    intro r hr
    rcases List.mem_cons.1 hr with rfl | hr
    · rw [h.head.eq, h.size]
      simp
    · exact hlog.bound r hr
  · exact ⟨s, st, rfl, h, rfl⟩

omit [DecidableEq I] in
theorem stage (h : s.Logged H (st :: ss) (v :: vs) top n) (b : Block R) (part : Stage)
    {calls : List (Call (ChainObject R))} (hc : ∀ c ∈ calls, KeepsNumbers c) :
    ∃ s' st', s'.Logged H (st' :: ss) (v :: vs) top n ∧
      s'.db.undoDb.activeSessions = s.db.undoDb.activeSessions ∧
      (ChainState.stage b part calls s = .ok s' ∨
        ∃ e, ChainState.stage b part calls s = .threw e s') := by
  obtain ⟨st', hlog, hactive⟩ := h.runCalls hc
  refine ⟨_, st', hlog, hactive, ?_⟩
  rw [ChainState.stage]
  split
  · exact .inr ⟨_, rfl⟩
  · exact .inl rfl

omit [DecidableEq I] in
/-- Applying a block that follows the head `n`: the session of the block is still the innermost one,
and if it returned the block is the head. -/
theorem applyBlock (h : s.Logged H (st :: ss) (v :: vs) (n + 1) n) (b : Block R) :
    ∃ s' st' m, s'.Logged H (st' :: ss) (v :: vs) (n + 1) m ∧
      s'.db.undoDb.activeSessions = s.db.undoDb.activeSessions ∧
      (s.applyBlock b = .ok s' ∧ m = n + 1 ∨ ∃ e, s.applyBlock b = .threw e s') := by
  have hkeeps : ∀ calls, calls = b.transactions ∨ calls = b.signingMiner ∨ calls = b.maintenance →
      ∀ c ∈ calls, KeepsNumbers c := by
    rintro calls hcalls c hc
    refine b.keeps c ?_
    rcases hcalls with rfl | rfl | rfl <;> simp [hc]
  rw [ChainState.applyBlock]
  obtain ⟨s₁, st₁, h₁, ha₁, ht | ⟨e, ht⟩⟩ :=
    h.stage b .transactions (hkeeps b.transactions (.inl rfl))
  · rw [ht, Outcome.bind_ok]
    obtain ⟨d, st₂, hok₂, h₂, ha₂⟩ := h₁.modify_dgp (m := n + 1)
      (fun p => { p with headBlockNumber := s₁.headBlockNum + 1 }) fun _ _ => by rw [h₁.head.eq]
    rw [updateGlobalDynamicData, hok₂, Outcome.lift_ok, Outcome.bind_ok]
    obtain ⟨s₃, st₃, h₃, ha₃, hs | ⟨e, hs⟩⟩ :=
      h₂.stage b .signingMiner (hkeeps b.signingMiner (.inr (.inl rfl)))
    · rw [hs, Outcome.bind_ok]
      obtain ⟨s₄, st₄, hok₄, h₄, ha₄⟩ := h₃.updateLastIrreversibleBlock
      rw [hok₄, Outcome.bind_ok]
      obtain ⟨s₅, st₅, h₅, ha₅, hm | hm⟩ :=
        h₄.stage b .maintenance (hkeeps b.maintenance (.inr (.inr rfl)))
      · exact ⟨s₅, st₅, n + 1, h₅, by rw [ha₅, ha₄, ha₃, ha₂, ha₁], .inl ⟨hm, rfl⟩⟩
      · exact ⟨s₅, st₅, n + 1, h₅, by rw [ha₅, ha₄, ha₃, ha₂, ha₁], .inr hm⟩
    · exact ⟨s₃, st₃, n + 1, h₃, by rw [ha₃, ha₂, ha₁], .inr ⟨e, by rw [hs]; rfl⟩⟩
  · exact ⟨s₁, st₁, n, h₁, ha₁, .inr ⟨e, by rw [ht]; rfl⟩⟩

omit [DecidableEq I] in
theorem ids_eq (h : s.Logged H ss vs top n) : s.db.undoDb.ids H = ss.map H.undoId := by
  refine (h.tracks.held.eq_of_length ?_).symm
  rw [List.length_map, ← h.size, UndoDatabase.ids, UndoDatabase.size, List.length_append,
    List.length_map]
  omega

omit [DecidableEq I] in
theorem size_eq_length_ids (u : UndoDatabase (ChainObject R) I) : u.size = (u.ids H).length := by
  rw [UndoDatabase.ids, UndoDatabase.size, List.length_append, List.length_map]
  omega

theorem start (h : s.Logged H ss vs n n)
    (horder : s.db.undoDb.stack = [] ∨ s.db.undoDb.KeepsOrder) :
    ∃ d ss' vs', s.db.startUndoSession H false = .ok d ∧
      Logged H { s with db := d } (.empty :: ss') (s.db.view :: vs') (n + 1) n ∧
      d.undoDb.activeSessions = s.db.undoDb.activeSessions + 1 := by
  have hnull : ∀ id ∈ s.db.undoDb.stack, id ≠ H.nullId := by
    intro id hid
    have hmem : id ∈ s.db.undoDb.ids H := List.mem_append_right _ hid
    rw [h.ids_eq] at hmem
    obtain ⟨st, -, rfl⟩ := List.mem_map.1 hmem
    exact H.ne_null st
  have hok := UndoDatabase.startUndoSession_isOk (H := H) (f := false) h.isOpen hnull
    (.inl h.maxSize)
  rw [Outcome.isOk_iff] at hok
  have hafter := UndoDatabase.startUndoSession_eq (.inl h.enabled) (.inl h.maxSize) hok
  rw [hafter] at hok
  have hstart : s.db.startUndoSession H false =
      .ok { s.db with undoDb := s.db.undoDb.afterStart H } := by
    rw [ObjectDatabase.startUndoSession, hok, Outcome.lift_ok]
  -- what is left of the history by name, and how long it is
  have hpushed : s.db.undoDb.pushed.ids H = H.undoId .empty :: ss.map H.undoId := by
    rw [← h.ids_eq]
    rfl
  have hprefix : (s.db.undoDb.afterStart H).ids H <+: H.undoId .empty :: ss.map H.undoId := by
    rw [← hpushed]
    exact UndoDatabase.ids_afterStart_prefix horder
  obtain ⟨k, hk⟩ : ∃ k, ((s.db.undoDb.afterStart H).ids H).length = k + 1 := by
    obtain ⟨rest, hback⟩ := UndoDatabase.back_afterStart (H := H) (u := s.db.undoDb)
      (by have := h.maxSize; omega)
    exact ⟨_, by rw [UndoDatabase.ids, hback, List.map_cons, List.cons_append, List.length_cons]⟩
  have hkeep : (H.undoId .empty :: ss.map H.undoId).take (k + 1) <+:
      (s.db.undoDb.afterStart H).ids H := by
    have htake := (List.prefix_iff_eq_take.1 hprefix).symm
    rw [hk] at htake
    exact htake ▸ List.prefix_rfl
  have hle : k ≤ ss.length := by
    have := hprefix.length_le
    simp only [List.length_cons, List.length_map] at this
    omega
  refine ⟨_, ss.take k, vs.take k, hstart, ⟨?_, ?_, UndoDatabase.disabled_afterStart _, ?_,
    (UndoDatabase.maxSize_afterStart s.db.undoDb).symm ▸ h.maxSize, h.keyless, ?_, ?_, h.head⟩, rfl⟩
  · exact h.tracks.start h.enabled h.maxSize hstart hkeep
  · show (s.db.undoDb.afterStart H).size = _
    rw [size_eq_length_ids (H := H), hk, List.length_cons, List.length_take]
    omega
  · show (s.db.undoDb.afterStart H).storage.isSome
    rw [UndoDatabase.isSome_storage_afterStart]
    exact h.isOpen
  · exact ⟨n, h.head, rfl, h.falls.take k⟩
  · intro r hr
    have := h.bound r hr
    rw [List.length_cons, List.length_take]
    omega

theorem reverted (h : s.Logged H (st :: ss) (v :: vs) top n) {u : UndoDatabase (ChainObject R) I}
    {message : String} (hback : s.db.undoDb.back = st :: rest)
    (hres : st.restore s.db.indexes = .ok d.indexes)
    (hu : UndoDatabase.reload H message { s.db.undoDb with disabled := true, back := rest } = .ok u)
    (hd : d.undoDb.back = u.back ∧ d.undoDb.stack = u.stack ∧ d.undoDb.storage = u.storage ∧
      d.undoDb.disabled = false ∧ d.undoDb.maxSize = u.maxSize)
    :
    ∃ m, Logged H { s with db := d } ss vs m m ∧
      u.activeSessions = s.db.undoDb.activeSessions := by
  obtain ⟨hdb, hds, hdst, hdd, hdm⟩ := hd
  obtain ⟨hview, htr⟩ := h.tracks.of_reload hback hres hu ⟨hdb, hds, hdst⟩
  obtain ⟨hre, -⟩ := UndoDatabase.reload_ok (H := H) (by exact h.tracks.addressed) hu
  obtain ⟨m, hm, htop, hfalls⟩ := h.falls
  refine ⟨m, ⟨htr, ?_, hdd, ?_, ?_, ?_, hfalls, fun r hr => ?_, by rw [hview]; exact hm⟩,
    hre.activeSessions⟩
  · have hlen := congrArg List.length hre.ids
    have hsize := h.size
    rw [size_eq_length_ids (H := H), UndoDatabase.ids, hback] at hsize
    simp only [UndoDatabase.ids, List.length_append, List.length_map, List.length_cons]
      at hlen hsize
    show d.undoDb.size = _
    rw [UndoDatabase.size, hdb, hds]
    omega
  · show d.undoDb.storage.isSome
    rw [hdst, hre.isOpen]
    exact h.isOpen
  · show 20 ≤ d.undoDb.maxSize
    rw [hdm, hre.maxSize]
    exact h.maxSize
  · show d.indexes.keysOf dgpId.spaceType = []
    rw [UndoState.keysOf_restore hres]
    exact h.keyless
  · have := h.bound r hr
    rw [List.length_cons] at this
    omega

omit [DecidableEq I] in
theorem congr (h : s.Logged H ss vs top n) (a : ℕ) (hm : 20 ≤ m) :
    Logged H { s with
      db := { s.db with undoDb := { s.db.undoDb with activeSessions := a, maxSize := m } } }
      ss vs top n :=
  ⟨⟨h.tracks.chain, h.tracks.held, h.tracks.backed, h.tracks.addressed, h.tracks.fresh,
    h.tracks.freshSnaps⟩, h.size, h.enabled, h.isOpen, hm, h.keyless, h.falls, h.bound, h.head⟩

end Logged

/-- The state between two events of a history. -/
def Settled (H : StateHash (ChainObject R) I) (s : ChainState R K I) : Prop :=
  s.db.undoDb.activeSessions = 0 ∧ ∃ ss vs n, s.Logged H ss vs n n

namespace Settled

variable {H : StateHash (ChainObject R) I} {s s' : ChainState R K I}

theorem push (h : s.Settled H) {b : Block R}
    (horder : s.db.undoDb.stack = [] ∨ s.db.undoDb.KeepsOrder)
    (hpush : s.pushBlock H b = some s') : s'.Settled H := by
  obtain ⟨hidle, ss, vs, n, hlog⟩ := h
  obtain ⟨d, ss₁, vs₁, hstart, hlog₁, hactive₁⟩ := hlog.start horder
  obtain ⟨s₂, st, m, hlog₂, hactive₂, happly⟩ := hlog₁.applyBlock b
  have hactive : s₂.db.undoDb.activeSessions = 1 := by
    rw [hactive₂, hactive₁, hidle]
  rcases happly with ⟨hok, rfl⟩ | ⟨e, hthrew⟩
  · simp only [pushBlock, hstart, hok, Option.some.injEq] at hpush
    have hcommit : s₂.db.commit.state =
        { s₂.db with undoDb := { s₂.db.undoDb with activeSessions := 0 } } := by
      simp [ObjectDatabase.commit, UndoDatabase.commit, hlog₂.enabled, hactive]
    rw [← hpush, hcommit]
    exact ⟨rfl, _, _, _, hlog₂.congr 0 hlog₂.maxSize⟩
  · simp only [pushBlock, hstart, hthrew] at hpush
    rcases hundo : s₂.db.undo H with d' | ⟨e', d'⟩
    · rw [hundo, Option.some.injEq] at hpush
      obtain ⟨st', rest, u, -, -, hback, hres, hu, hd'⟩ := ObjectDatabase.undo_eq_ok hundo
      obtain ⟨rest', hback', -⟩ := hlog₂.tracks.back_eq
      obtain ⟨rfl, rfl⟩ : st' = st ∧ rest = rest' := by simpa [hback] using hback'
      obtain ⟨k, hlog₃, hactive₃⟩ := hlog₂.reverted hback hres hu (by simp [hd'])
      rw [← hpush]
      refine ⟨?_, _, _, _, hlog₃⟩
      show d'.undoDb.activeSessions = 0
      rw [hd', hactive₃, hactive]
    · simp [hundo] at hpush

theorem pop_ok (h : s.Settled H) (hok : s.popBlock H = .ok s') :
    s'.Settled H ∧ ∀ r ∈ s.recorded, r < s.headBlockNum := by
  obtain ⟨hidle, ss, vs, n, hlog⟩ := h
  obtain ⟨d, hpop, rfl⟩ := Outcome.lift_eq_ok.1 hok
  obtain ⟨st', rest, u, -, hback, hres, hu, hd⟩ := ObjectDatabase.popCommit_eq_ok hpop
  -- the history is not empty, so the numbers recorded are below the head
  have hids := hlog.ids_eq
  rcases ss with _ | ⟨st, ss⟩
  · simp [UndoDatabase.ids, hback] at hids
  rcases vs with _ | ⟨v, vs⟩
  · exact hlog.tracks.chain.elim
  obtain ⟨rest', hback', -⟩ := hlog.tracks.back_eq
  obtain ⟨rfl, rfl⟩ : st' = st ∧ rest = rest' := by simpa [hback] using hback'
  obtain ⟨k, hlog', hactive⟩ := hlog.reverted hback hres hu (by simp [hd])
  refine ⟨⟨?_, _, _, _, hlog'⟩, fun r hr => ?_⟩
  · show d.undoDb.activeSessions = 0
    rw [hd, hactive, hidle]
  · have hbound := hlog.bound r hr
    rw [List.length_cons] at hbound
    rw [hlog.head.eq]
    omega

/-- **One event of a history.** -/
theorem step (h : s.Settled H) : ∀ {e : Event R}, s.InOrder H e → s.step H e = some s' →
    s'.Settled H
  | .push b, horder, hstep => h.push horder hstep
  | .pop, horder, hstep => by
    have hs' : (s.popBlock H).state = s' := by simpa [ChainState.step] using hstep
    rcases horder with hempty | hok
    · -- nothing to pop: the assertion fails and nothing changes
      have hsame : (s.popBlock H).state = s := by
        simp [popBlock, ObjectDatabase.popCommit, UndoDatabase.popCommit, h.1, hempty]
      rw [← hs', hsame]
      exact h
    · rw [Outcome.isOk_iff, hs'] at hok
      exact (h.pop_ok hok).1
  | .setMaxSize recent, _, hstep => by
    obtain ⟨hidle, ss, vs, n, hlog⟩ := h
    have hm : 20 ≤ if recent = true then 1440 else 20 := by split <;> omega
    have hs' : { s with db := s.db.setMaxSize (if recent then 1440 else 20) } = s' := by
      simpa [ChainState.step] using hstep
    rw [← hs']
    exact ⟨hidle, ss, vs, n, hlog.congr s.db.undoDb.activeSessions hm⟩

/-- **A whole history.** -/
theorem run : ∀ {es : List (Event R)} {s s' : ChainState R K I}, s.Settled H →
    InOrderRun H es s → s.run H es = some s' → s'.Settled H
  | [], s, s', h, _, hrun => by
    obtain rfl : s = s' := by simpa [ChainState.run] using hrun
    exact h
  | e :: es, s, s', h, horder, hrun => by
    obtain ⟨s₁, hstep, hrest⟩ := Option.bind_eq_some_iff.1 hrun
    have horder₁ := horder.2
    rw [hstep] at horder₁
    exact run (h.step horder.1 hstep) horder₁ hrest

end Settled

/-- A chain with no undo history, before anything was recorded: the undo log is enabled and its
store is open. -/
structure Initial (H : StateHash (ChainObject R) I) (s : ChainState R K I) : Prop where
  recorded : s.recorded = []
  properties : (dynamicGlobalProperties s.db.view).isSome
  keyless : s.db.indexes.keysOf dgpId.spaceType = []
  fresh : s.db.view.Fresh
  back : s.db.undoDb.back = []
  stack : s.db.undoDb.stack = []
  idle : s.db.undoDb.activeSessions = 0
  enabled : s.db.undoDb.disabled = false
  isOpen : s.db.undoDb.storage.isSome
  addressed : s.db.undoDb.Addressed H
  maxSize : 20 ≤ s.db.undoDb.maxSize

omit [DecidableEq I] in
theorem Initial.settled {H : StateHash (ChainObject R) I} (h : s.Initial H) : s.Settled H := by
  obtain ⟨p, hp⟩ := Option.isSome_iff_exists.1 h.properties
  refine ⟨h.idle, [], [], p.headBlockNumber, ⟨⟨Chain.nil, ?_, .inl h.stack, h.addressed, h.fresh,
    by simp⟩, ?_, h.enabled, h.isOpen, h.maxSize, h.keyless, trivial, ?_, p, hp, rfl⟩⟩
  · exact List.nil_prefix
  · rw [UndoDatabase.size, h.back, h.stack]
    rfl
  · simp [h.recorded]

end ChainState

/-- **Irreversible blocks are never popped** in a history that keeps the order of undo states: a
`pop_block` call that returns pops a block with a number above every number recorded so far. -/
theorem irreversible_never_popped [DecidableEq K] [DecidableEq I]
    {H : StateHash (ChainObject R) I} {s₀ s : ChainState R K I} {es : List (ChainState.Event R)}
    (h₀ : s₀.Initial H) (horder : ChainState.InOrderRun H es s₀) (hrun : s₀.run H es = some s)
    (hok : (s.popBlock H).isOk = true) : ∀ r ∈ s.recorded, r < s.headBlockNum := by
  rw [Outcome.isOk_iff] at hok
  exact ((h₀.settled.run horder hrun).pop_ok hok).2

/-! ### Histories on a small chain -/

/-- A chain that has only the dynamic global properties. -/
def smallChain : ChainState Unit Unit (Option (UndoState (ChainObject Unit))) where
  db :=
    { indexes := Std.ExtTreeMap.insert ∅ dgpId.spaceType
        ⟨.simple [some (.dynamicGlobalProperties ⟨0, 0, ()⟩)], 1⟩
      undoDb := ⟨0, false, [], [], 1440, some fun _ => none⟩ }
  recorded := []

/-- A block that changes nothing but the two numbers. -/
def emptyBlock : Block Unit := ⟨[], [], [], none, by simp⟩

theorem smallChain_initial : smallChain.Initial (.identity (ChainObject Unit)) where
  recorded := rfl
  properties := by decide +kernel
  keyless := by decide +kernel
  fresh := by
    intro id v hv
    obtain ⟨p, hp, hfind⟩ := Indexes.exists_index_of_findObject hv
    simp only [smallChain, Indexes.getElem?_insert_index] at hp
    split at hp
    · rename_i hs
      obtain rfl := Option.some_inj.1 hp
      refine ⟨1, ?_, ?_⟩
      · rw [hs]
        decide +kernel
      · by_contra hge
        rcases hi : id.inst with _ | i
        · omega
        · simp [Derived.find, hi] at hfind
    · simp at hp
  back := rfl
  stack := rfl
  idle := rfl
  enabled := rfl
  isOpen := rfl
  addressed := by
    intro db hdb id st hst
    obtain rfl : (fun _ => none) = db := by simpa [smallChain] using hdb
    simp at hst
  maxSize := by decide

/-- Twenty-five blocks are pushed with a `max_size` of 1440, four more with 20, and the last one is
popped. -/
def orderlyHistory : List (ChainState.Event Unit) :=
  List.replicate 25 (.push emptyBlock) ++ .setMaxSize false ::
    (List.replicate 4 (.push emptyBlock) ++ [.pop])

theorem irreversible_never_popped_orderlyHistory :
    ∃ s, smallChain.run (.identity _) orderlyHistory = some s ∧ s.headBlockNum = 28 ∧
      s.recorded ≠ [] ∧ (s.popBlock (.identity _)).isOk = true ∧
      ∀ r ∈ s.recorded, r < s.headBlockNum := by
  obtain ⟨s, hrun⟩ : ∃ s, smallChain.run (.identity _) orderlyHistory = some s :=
    Option.isSome_iff_exists.1 (by decide +kernel)
  have hval : (smallChain.run (.identity _) orderlyHistory).map (fun s =>
      (s.headBlockNum, s.recorded.isEmpty, (s.popBlock (.identity _)).isOk)) =
      some (28, false, true) := by decide +kernel
  simp only [hrun, Option.map_some, Option.some.injEq, Prod.mk.injEq] at hval
  refine ⟨s, hrun, hval.1, by simpa using hval.2.1, hval.2.2, ?_⟩
  exact irreversible_never_popped smallChain_initial (by decide +kernel) hrun hval.2.2

/-- Forty blocks are pushed, `max_size` is lowered from 1440 to 20 and another block is pushed;
then twenty blocks are popped and one is pushed. -/
def gapHistory : List (ChainState.Event Unit) :=
  List.replicate 40 (.push emptyBlock) ++ [.setMaxSize false, .push emptyBlock] ++
    List.replicate 20 .pop ++ [.push emptyBlock]

/-- **A history in which an irreversible block is popped.** With the forty-first block eleven undo
states are dropped from the middle of the history, and 21 is recorded. The twentieth pop then takes
the head from block 22 to block 10, and block 11 is pushed again. It can be popped. -/
theorem irreversible_popped :
    ∃ s, smallChain.run (.identity _) gapHistory = some s ∧ s.headBlockNum = 11 ∧
      (s.popBlock (.identity _)).isOk = true ∧ (21 : ℤ) ∈ s.recorded := by
  obtain ⟨s, hrun⟩ : ∃ s, smallChain.run (.identity _) gapHistory = some s :=
    Option.isSome_iff_exists.1 (by decide +kernel)
  have hval : (smallChain.run (.identity _) gapHistory).map (fun s =>
      (s.headBlockNum, (s.popBlock (.identity _)).isOk, decide ((21 : ℤ) ∈ s.recorded))) =
      some (11, true, true) := by decide +kernel
  simp only [hrun, Option.map_some, Option.some.injEq, Prod.mk.injEq, decide_eq_true_eq] at hval
  exact ⟨s, hrun, hval⟩

end Whitecoin.Chain
