import Whitecoin.Db.Spill

/-!
# The undo history across a restart

`save_to_file` writes every state that is still in memory to the key-value store and the ids of the
whole history to the stack file; `from_file` reads the ids and the newest twenty states. Equal
states have one id and one entry in the store, and each state that is read back is deleted from it.
So the history survives exactly when its states are pairwise distinct. An empty history is not
written at all, and then the stack file of an earlier run is read instead.
-/

namespace Whitecoin.Db

variable {V I : Type} [DecidableEq I]

/-- The key-value store and the stack file. -/
structure Disk (V I : Type) where
  storage : I → Option (UndoState V)
  stackFile : Option (List I)

namespace UndoDatabase

variable (H : StateHash V I)

/-- `save_to_file`. A database whose store is not open writes nothing, and an empty history leaves
the stack file as it is. -/
def saveToFile (u : UndoDatabase V I) (d : Disk V I) : Disk V I :=
  match u.storage with
  | none => d
  | some db =>
    { storage := putAll H db u.back
      stackFile := if u.ids H = [] then d.stackFile else some (u.ids H) }

/-- The loop of `from_file`. -/
def loadLoop : ℕ → UndoDatabase V I → Outcome String (UndoDatabase V I)
  | 0, u => .ok u
  | n + 1, u =>
    match u.stack with
    | [] => .ok u
    | id :: rest =>
      match u.getState id with
      | none => .threw "deserialize_undo_database_failed" { u with back := u.back ++ [.empty] }
      | some st =>
        (removeState H { u with back := u.back ++ [st] } id).bind fun u =>
          loadLoop n { u with stack := rest }

/-- `from_file`. -/
def fromFile (u : UndoDatabase V I) (d : Disk V I) : Outcome String (UndoDatabase V I) :=
  let u := { u with storage := some d.storage }
  match d.stackFile with
  | none => .ok u
  | some ids => loadLoop H (min ids.length maxBackSize) { u with stack := ids }

/-- A newly constructed undo database: disabled, with a `max_size` of 1440 and no open store. -/
def constructed : UndoDatabase V I := ⟨0, true, [], [], 1440, none⟩

variable {H}

theorem loadLoop_eq_reloadLoop : ∀ {n : ℕ} {u : UndoDatabase V I}, u.back.length + n ≤ 20 →
    loadLoop H n u = reloadLoop H "deserialize_undo_database_failed" n u
  | 0, u, _ => rfl
  | n + 1, u, hlen => by
    have hshort : u.back.length < maxBackSize := by
      rw [maxBackSize]
      omega
    rw [loadLoop, reloadLoop]
    rcases u.stack with _ | ⟨id, rest⟩
    · rfl
    simp only [if_pos hshort]
    rcases u.getState id with _ | st
    · rfl
    · dsimp only
      rw [removeState]
      split
      · rfl
      · rcases u.storage with _ | db
        · rfl
        · simp only [Outcome.bind_ok]
          exact loadLoop_eq_reloadLoop (by rw [List.length_append, List.length_singleton]; omega)

end UndoDatabase

/-! ### Popping -/

section Popping

variable {O : Type} (H : StateHash V I) (restore : UndoState V → O → O)

/-- A sequence of `pop_commit` calls, each of which applies the innermost state to the objects;
`none` if one of them throws. -/
def popCommits : ℕ → O → UndoDatabase V I → Option (O × UndoDatabase V I)
  | 0, o, u => some (o, u)
  | n + 1, o, u =>
    match u.back, u.popCommit H none with
    | st :: _, .ok u' => popCommits n (restore st o) u'
    | _, _ => none

/-- After a restart the history is the same, and popping any number of its states has the same
effect on the objects as without the restart, whatever the states do to them. -/
def SurvivesRestart (u : UndoDatabase V I) (d : Disk V I) : Prop :=
  ∃ u', UndoDatabase.constructed.fromFile H (u.saveToFile H d) = .ok u' ∧
    u'.history = u.history ∧
    ∀ (O : Type) (restore : UndoState V → O → O) (o : O), ∀ n ≤ u.size, ∃ o₁ v v',
      popCommits H restore n o u = some (o₁, v) ∧ popCommits H restore n o u' = some (o₁, v')

end Popping

/-! ### Distinct states survive -/

section Survive

variable {H : StateHash V I}

variable {u u' : UndoDatabase V I} {states rest : List (UndoState V)}
  {db : I → Option (UndoState V)} {st : UndoState V} {O : Type} {d : Disk V I} {ids : List I}

theorem Stored.save (hdb : u.storage = some db) (h : Stored H u states)
    (hnodup : (u.back ++ states).Nodup) (v : UndoDatabase V I) :
    Stored H { v with storage := some (UndoDatabase.putAll H db u.back), stack := u.ids H }
      (u.back ++ states) := by
  refine ⟨h.ids_eq, fun st hst => ?_, ?_⟩
  · show UndoDatabase.putAll H db u.back (H.undoId st) = some st
    rcases List.mem_append.1 hst with hin | hin
    · exact UndoDatabase.putAll_of_mem hin
    · have hout : H.undoId st ∉ u.back.map H.undoId := by
        intro hmem
        obtain ⟨st', hst', heq⟩ := List.mem_map.1 hmem
        exact (List.nodup_append.1 hnodup).2.2 st' hst' st hin (H.injective heq)
      have hold := h.stored st hin
      rw [UndoDatabase.getState, hdb, Option.bind_some] at hold
      rw [UndoDatabase.putAll_of_notMem hout, hold]
  · show (u.ids H).Nodup
    rw [h.ids_eq]
    exact hnodup.map H.injective

theorem Stored.popCommit (h : Stored H u states) (hopen : u.storage.isSome) (ha : u.Addressed H)
    (hidle : u.activeSessions = 0) (hback : u.back = st :: rest) :
    ∃ u' left, u.popCommit H none = .ok u' ∧ Stored H u' left ∧ u'.storage.isSome ∧
      u'.Addressed H ∧ u'.activeSessions = 0 ∧ u'.Backed ∧ u'.back ++ left = rest ++ states := by
  have hstored : Stored H { u with disabled := true, back := rest } states := h.congr rfl rfl
  obtain ⟨u', left, hok, hleft, hopen', hall, hre, hbacked⟩ :=
    hstored.reload "pop_commit load stack back failed" hopen ha
  refine ⟨u'.enable, left, ?_, hleft.congr rfl rfl, hopen', hre.addressed,
    hre.activeSessions.trans hidle, hbacked, hall⟩
  rw [UndoDatabase.popCommit, if_neg (not_not.2 hidle), hback]
  dsimp only
  rw [hok, Outcome.lift_ok]

/-- **Distinct stored states can all be popped**, and are applied newest first. -/
theorem Stored.popCommits (restore : UndoState V → O → O) :
    ∀ (n : ℕ) (o : O) {u : UndoDatabase V I} {states : List (UndoState V)}, Stored H u states →
      u.storage.isSome → u.Addressed H → u.activeSessions = 0 → (u.back = [] → u.stack = []) →
      n ≤ (u.back ++ states).length →
      ∃ v, Db.popCommits H restore n o u =
        some (((u.back ++ states).take n).foldl (fun o st => restore st o) o, v)
  | 0, o, u, states, _, _, _, _, _, _ => ⟨u, rfl⟩
  | n + 1, o, u, states, h, hopen, ha, hidle, hmem, hn => by
    rcases hback : u.back with _ | ⟨st, rest⟩
    · -- nothing in memory means nothing at all
      have hnil : states = [] := by simpa [hmem hback] using h.stack
      rw [hback, hnil] at hn
      simp at hn
    · obtain ⟨u', left, hok, hleft, hopen', ha', hidle', hbacked, hall⟩ :=
        h.popCommit hopen ha hidle hback
      have hmem' : u'.back = [] → u'.stack = [] := fun hnil =>
        hbacked.resolve_right (by simp [hnil])
      have hn' : n ≤ (u'.back ++ left).length := by
        rw [hback, List.cons_append, List.length_cons] at hn
        rw [hall]
        omega
      obtain ⟨v, hv⟩ := Stored.popCommits restore n (restore st o) hleft hopen' ha' hidle' hmem' hn'
      refine ⟨v, ?_⟩
      rw [Db.popCommits, hback, hok]
      dsimp only
      rw [hv, hall, List.cons_append, List.take_succ_cons, List.foldl_cons]

/-! ### Equal states do not -/

/-- Reading back took the names `moved` off `stack` and their states out of the store; each was
there when it was read, so no name occurs twice. -/
structure Moved (u u' : UndoDatabase V I) (moved : List I) : Prop where
  stack : u.stack = moved ++ u'.stack
  nodup : moved.Nodup
  found : ∀ id ∈ moved, (u.getState id).isSome
  left : ∀ id, u'.getState id = if id ∈ moved then none else u.getState id
  length : u'.back.length = u.back.length + moved.length

namespace Moved

variable {u u' : UndoDatabase V I} {moved : List I}

theorem refl (u : UndoDatabase V I) : Moved u u [] :=
  ⟨rfl, List.nodup_nil, by simp, by simp, rfl⟩

theorem cons {id : I} {rest : List I} {st : UndoState V} {db : I → Option (UndoState V)}
    (hst : u.stack = id :: rest) (hdb : u.storage = some db) (hid : db id = some st)
    (h : Moved { u with
      back := u.back ++ [st]
      stack := rest
      storage := some (Function.update db id none) } u' moved) :
    Moved u u' (id :: moved) := by
  have hget : u.getState id = some st := by rw [UndoDatabase.getState, hdb, Option.bind_some, hid]
  -- the state just read is gone, so it is not read again
  have hgone : id ∉ moved := by
    intro hin
    have hsome := h.found id hin
    simp [UndoDatabase.getState] at hsome
  refine ⟨hst.trans (congrArg (id :: ·) h.stack), List.nodup_cons.2 ⟨hgone, h.nodup⟩, ?_, ?_, ?_⟩
  · intro i hi
    rcases List.mem_cons.1 hi with rfl | hi
    · simp [hget]
    · have hsome := h.found i hi
      have hne : i ≠ id := fun heq => hgone (heq ▸ hi)
      simpa [UndoDatabase.getState, hdb, Function.update_of_ne hne] using hsome
  · intro i
    rw [h.left]
    by_cases hi : i = id
    · simp [hi, UndoDatabase.getState]
    · simp [hi, UndoDatabase.getState, hdb]
  · have hlen := h.length
    rw [List.length_append, List.length_singleton] at hlen
    rw [hlen, List.length_cons]
    omega

theorem nodup_stack (h : Moved u u' moved) (hnodup : u'.stack.Nodup)
    (hfound : ∀ id ∈ u'.stack, (u'.getState id).isSome) :
    u.stack.Nodup ∧ ∀ id ∈ u.stack, (u.getState id).isSome := by
  have hout : ∀ id ∈ u'.stack, id ∉ moved := by
    intro id hid hin
    have hsome := hfound id hid
    rw [h.left, if_pos hin] at hsome
    simp at hsome
  refine ⟨?_, fun id hid => ?_⟩
  · rw [h.stack, List.nodup_append]
    exact ⟨h.nodup, hnodup, fun a ha b hb heq => hout b hb (heq ▸ ha)⟩
  · rw [h.stack] at hid
    rcases List.mem_append.1 hid with hin | hin
    · exact h.found id hin
    · have hsome := hfound id hin
      rwa [h.left, if_neg (hout id hin)] at hsome

end Moved

theorem moved_of_reloadLoop {message : String} : ∀ {n : ℕ} {u u' : UndoDatabase V I},
    UndoDatabase.reloadLoop H message n u = .ok u' →
    ∃ moved, Moved u u' moved ∧ (moved = [] → n = 0 ∨ u.stack = [] ∨ 20 ≤ u.back.length)
  | 0, u, u', h => by
    obtain rfl : u = u' := by simpa [UndoDatabase.reloadLoop] using h
    exact ⟨[], .refl u, fun _ => .inl rfl⟩
  | n + 1, u, u', h => by
    rw [UndoDatabase.reloadLoop] at h
    rcases hst : u.stack with _ | ⟨id, rest⟩
    · rw [hst] at h
      obtain rfl : u = u' := by simpa using h
      exact ⟨[], .refl u, fun _ => .inr (.inl rfl)⟩
    rw [hst] at h
    dsimp only at h
    split at h
    · rcases hget : u.getState id with _ | st
      · simp [hget] at h
      · rw [hget] at h
        obtain ⟨u₁, h₁, hrest⟩ := Outcome.bind_eq_ok.1 h
        obtain ⟨db, hdb, hid⟩ : ∃ db, u.storage = some db ∧ db id = some st := by
          simpa [UndoDatabase.getState, Option.bind_eq_some_iff] using hget
        simp only [UndoDatabase.removeState, hdb] at h₁
        split at h₁
        · simp at h₁
        · rw [Outcome.ok.injEq] at h₁
          subst h₁
          obtain ⟨moved, hm, -⟩ := moved_of_reloadLoop hrest
          exact ⟨id :: moved, hm.cons hst hdb hid, by simp⟩
    · rename_i hlong
      obtain rfl : u = u' := by simpa using h
      exact ⟨[], .refl u, fun _ => .inr (.inr (by simpa [maxBackSize] using hlong))⟩

theorem moved_of_popCommit (hback : u.back = st :: rest) (h : u.popCommit H none = .ok u') :
    ∃ moved, Moved { u with back := rest } u' moved := by
  rw [UndoDatabase.popCommit, hback] at h
  split at h
  · simp at h
  obtain ⟨u₁, h₁, rfl⟩ := Outcome.lift_eq_ok.1 h
  rw [UndoDatabase.reload] at h₁
  split at h₁
  · obtain ⟨moved, hm, -⟩ := moved_of_reloadLoop h₁
    exact ⟨moved, hm.stack, hm.nodup, hm.found, hm.left, hm.length⟩
  · rw [Outcome.ok.injEq] at h₁
    subst h₁
    exact ⟨[], rfl, List.nodup_nil, by simp, by intro; simp; rfl, rfl⟩

/-- **A history that was popped to its end had distinct stored states.** -/
theorem nodup_of_popCommits {restore : UndoState V → O → O} :
    ∀ {n : ℕ} {o o' : O} {u v : UndoDatabase V I}, u.size ≤ n →
      popCommits H restore n o u = some (o', v) →
      u.stack.Nodup ∧ ∀ id ∈ u.stack, (u.getState id).isSome
  | 0, o, o', u, v, hn, _ => by
    have hnil : u.stack = [] := by
      rw [UndoDatabase.size] at hn
      exact List.length_eq_zero_iff.1 (by omega)
    simp [hnil]
  | n + 1, o, o', u, v, hn, h => by
    rw [popCommits] at h
    split at h
    · rename_i st rest u' hback hok
      obtain ⟨moved, hm⟩ := moved_of_popCommit hback hok
      have hsize : u'.size ≤ n := by
        have hlen := congrArg List.length hm.stack
        have hlen' := hm.length
        simp only [List.length_append] at hlen hlen'
        rw [UndoDatabase.size, hback, List.length_cons] at hn
        rw [UndoDatabase.size]
        omega
      obtain ⟨hnodup, hfound⟩ := nodup_of_popCommits hsize h
      exact hm.nodup_stack hnodup hfound
    · simp at h

/-! ### When the history survives -/

omit [DecidableEq I] in
/-- A history that can be looked up is the states in memory and those named by `stack`. -/
theorem exists_named_of_history {l : List (UndoState V)} (ha : u.Addressed H)
    (h : u.history = some l) :
    ∃ states, l = u.back ++ states ∧ u.stack = states.map H.undoId ∧
      ∀ st ∈ states, u.getState (H.undoId st) = some st := by
  have hmap : ∀ (ids : List I) (states : List (UndoState V)), ids.mapM u.getState = some states →
      ids = states.map H.undoId ∧ ∀ st ∈ states, u.getState (H.undoId st) = some st := by
    intro ids
    induction ids with
    | nil =>
      intro states hs
      obtain rfl : states = [] := by simpa using hs.symm
      simp
    | cons id ids ih =>
      intro states hs
      rw [List.mapM_cons] at hs
      obtain ⟨st, hst, hs⟩ := Option.bind_eq_some_iff.1 hs
      obtain ⟨rest, hrest, hs⟩ := Option.bind_eq_some_iff.1 hs
      obtain rfl : st :: rest = states := by simpa using hs
      obtain ⟨hids, hstored⟩ := ih rest hrest
      obtain ⟨db, hdb, hid⟩ : ∃ db, u.storage = some db ∧ db id = some st := by
        simpa [UndoDatabase.getState, Option.bind_eq_some_iff] using hst
      obtain rfl : H.undoId st = id := ha db hdb id st hid
      refine ⟨by rw [List.map_cons, ← hids], fun st' hst' => ?_⟩
      rcases List.mem_cons.1 hst' with rfl | hst'
      · exact hst
      · exact hstored st' hst'
  obtain ⟨states, hs, rfl⟩ := Option.map_eq_some_iff.1 h
  exact ⟨states, rfl, hmap _ _ hs⟩

/-- A database that has read the ids of the stack file, and nothing else. -/
def reopened (db : I → Option (UndoState V)) (ids : List I) : UndoDatabase V I :=
  { (UndoDatabase.constructed : UndoDatabase V I) with storage := some db, stack := ids }

theorem fromFile_some (h : d.stackFile = some ids) :
    UndoDatabase.constructed.fromFile H d =
      (reopened d.storage ids).reloadLoop H "deserialize_undo_database_failed"
        (min ids.length 20) := by
  rw [UndoDatabase.fromFile, h]
  refine UndoDatabase.loadLoop_eq_reloadLoop ?_
  show 0 + min ids.length 20 ≤ 20
  omega

theorem moved_of_fromFile (h : d.stackFile = some ids)
    (hok : UndoDatabase.constructed.fromFile H d = .ok u') :
    ∃ moved, Moved (reopened d.storage ids) u' moved ∧ (ids ≠ [] → u'.back ≠ []) := by
  rw [fromFile_some h] at hok
  obtain ⟨moved, hm, hsome⟩ := moved_of_reloadLoop hok
  refine ⟨moved, hm, fun hne hnil => ?_⟩
  have hlen : 0 = moved.length := by
    simpa [hnil, reopened, UndoDatabase.constructed] using hm.length
  rcases hsome (List.length_eq_zero_iff.1 hlen.symm) with h0 | h0 | h0
  · have hpos := List.length_pos_of_ne_nil hne
    omega
  · exact hne h0
  · simp [reopened, UndoDatabase.constructed] at h0

theorem saveToFile_eq (hdb : u.storage = some db) (d : Disk V I) :
    (u.saveToFile H d).storage = UndoDatabase.putAll H db u.back ∧
      (u.saveToFile H d).stackFile = if u.ids H = [] then d.stackFile else some (u.ids H) := by
  rw [UndoDatabase.saveToFile, hdb]
  exact ⟨rfl, rfl⟩

theorem Stored.survivesRestart (h : Stored H u states) (hopen : u.storage.isSome)
    (ha : u.Addressed H) (hidle : u.activeSessions = 0) (hmem : u.back = [] → u.stack = [])
    (hnodup : (u.back ++ states).Nodup) (hne : u.back ++ states ≠ []) (d : Disk V I) :
    SurvivesRestart H u d := by
  obtain ⟨db, hdb⟩ := Option.isSome_iff_exists.1 hopen
  obtain ⟨hstorage, hfile⟩ := saveToFile_eq (H := H) hdb d
  have hids : u.ids H ≠ [] := by
    rw [h.ids_eq]
    simpa using hne
  rw [if_neg hids] at hfile
  have hstart : Stored H (reopened (u.saveToFile H d).storage (u.ids H)) (u.back ++ states) := by
    rw [hstorage]
    exact h.save hdb hnodup _
  have hload := fromFile_some (H := H) hfile
  obtain ⟨u', left, hok, hleft, hopen', hall⟩ := hstart.reloadLoop
    "deserialize_undo_database_failed" (min (u.ids H).length 20) rfl
  rw [hok] at hload
  have ha' : (reopened (u.saveToFile H d).storage (u.ids H)).Addressed H := by
    intro db' hdb'
    obtain rfl : (u.saveToFile H d).storage = db' := by simpa [reopened] using hdb'
    rw [hstorage]
    exact UndoDatabase.putAll_addressed (ha db hdb)
  obtain ⟨hre, -⟩ := UndoDatabase.reloadLoop_ok ha' hok
  have hmem' : u'.back = [] → u'.stack = [] := by
    obtain ⟨moved, -, hback⟩ := moved_of_fromFile hfile hload
    exact fun hnil => absurd hnil (hback hids)
  have hall' : u'.back ++ left = u.back ++ states := hall
  refine ⟨u', hload, by rw [hleft.history_eq, h.history_eq, hall'], fun O restore o n hn => ?_⟩
  have hn' : n ≤ (u.back ++ states).length := by
    rw [UndoDatabase.size, h.stack, List.length_map] at hn
    rw [List.length_append]
    omega
  obtain ⟨v, hv⟩ := h.popCommits restore n o hopen ha hidle hmem hn'
  obtain ⟨v', hv'⟩ := hleft.popCommits restore n o hopen' hre.addressed
    (hre.activeSessions.trans rfl) hmem' (hall' ▸ hn')
  exact ⟨_, v, v', hv, by rw [hv', hall']⟩

theorem survivesRestart_of_empty (hopen : u.storage.isSome) (hids : u.ids H = [])
    (hstale : d.stackFile.getD [] = []) : SurvivesRestart H u d := by
  obtain ⟨db, hdb⟩ := Option.isSome_iff_exists.1 hopen
  obtain ⟨-, hfile⟩ := saveToFile_eq (H := H) hdb d
  rw [if_pos hids] at hfile
  obtain ⟨hback, hstack⟩ : u.back = [] ∧ u.stack = [] := by
    simpa [UndoDatabase.ids] using hids
  refine ⟨reopened (u.saveToFile H d).storage [], ?_, ?_, fun O restore o n hn => ?_⟩
  · rcases hd : d.stackFile with _ | ids
    · rw [UndoDatabase.fromFile, hfile, hd]
      rfl
    · obtain rfl : ids = [] := by simpa [hd] using hstale
      rw [fromFile_some (hfile.trans hd)]
      rfl
  · rw [UndoDatabase.history, UndoDatabase.history, hback, hstack]
    rfl
  · obtain rfl : n = 0 := by simpa [UndoDatabase.size, hback, hstack] using hn
    exact ⟨o, u, _, rfl, rfl⟩

end Survive

/-- An idle database with two states in memory and a third in the store. -/
def threeStates : UndoDatabase ℕ (Option (UndoState ℕ)) :=
  { activeSessions := 0, disabled := false, maxSize := 1440
    back := [.empty, UndoState.empty.onCreate ⟨0, 2⟩]
    stack := [some (UndoState.empty.onCreate ⟨0, 1⟩)]
    storage := some (Function.update (fun _ => none) (some (UndoState.empty.onCreate ⟨0, 1⟩))
      (some (UndoState.empty.onCreate ⟨0, 1⟩))) }

end Whitecoin.Db
