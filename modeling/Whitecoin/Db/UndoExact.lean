import Whitecoin.Db.Restore
import Whitecoin.Db.Sessions

/-!
# Undo restores exactly

Sessions nest: each `start` opens one, `undo` and `merge` close the innermost. A run keeps, next to
the database, the snapshot of the objects that each open session started from; the snapshots are
not part of the program and only say what undo is supposed to give back.

With indexes that key objects by id only, undoing the innermost session gives back its snapshot,
and merging it into its parent and undoing that gives back the parent's. The undo database is
bounded, so this needs fewer open sessions than `max_size`: `start_undo_session` drops the states
of the oldest sessions beyond that, open or not, and an `undo` that finds no state throws
(`undo_lost_of_deep_nesting`).
-/

namespace Whitecoin.Db

variable {V K I : Type} [DecidableEq K] [DecidableEq I] {H : StateHash V I}

/-- The calls that open and close sessions and change objects. -/
inductive SessionCall (V : Type) where
  | start
  | change (c : Call V)
  | undo
  | merge

namespace SessionCall

/-- The number of open sessions after a call. -/
def level : SessionCall V → ℕ → ℕ
  | start, n => n + 1
  | change _, n => n
  | undo, n => n - 1
  | merge, n => n - 1

/-- The largest number of sessions that are open at a time, from `n` open ones on. -/
def deepest : List (SessionCall V) → ℕ → ℕ
  | [], n => n
  | c :: calls, n => max n (deepest calls (c.level n))

theorem le_deepest (calls : List (SessionCall V)) (n : ℕ) : n ≤ deepest calls n := by
  cases calls with
  | nil => exact le_rfl
  | cons c calls => exact le_max_left ..

end SessionCall

/-- A database with the snapshots its open sessions started from, innermost first. -/
structure Session (V K I : Type) [DecidableEq K] where
  db : ObjectDatabase V K I
  snaps : List (View V)

namespace Session

/-- One call of a run. Opening and closing calls have to return; a call that changes objects may
throw, and the run goes on with what it left. -/
def step (H : StateHash V I) (s : Session V K I) : SessionCall V → Option (Session V K I)
  | .start =>
    match s.db.startUndoSession H false with
    | .ok d => some ⟨d, s.db.view :: s.snaps⟩
    | .threw _ _ => none
  | .change c =>
    match s.snaps with
    | [] => none
    | _ :: _ => some ⟨(s.db.call c).state, s.snaps⟩
  | .undo =>
    match s.snaps, s.db.undo H with
    | _ :: vs, .ok d => some ⟨d, vs⟩
    | _, _ => none
  | .merge =>
    match s.snaps, s.db.merge H with
    | _ :: v :: vs, .ok d => some ⟨d, v :: vs⟩
    | _, _ => none

/-- A run of calls. -/
def run (H : StateHash V I) : List (SessionCall V) → Session V K I → Option (Session V K I)
  | [], s => some s
  | c :: calls, s => (s.step H c).bind (run H calls)

/-- Every recorded object is in place, session by session. -/
abbrev LiveChain : View V → List (UndoState V) → List (View V) → Prop :=
  Chain fun st cur _ => st.LiveIn cur

/-- What holds along a run: the open sessions are tracked, no recorded object is missing, undo is
enabled, and there are as many active sessions as snapshots. -/
structure Tracked (H : StateHash V I) (m : ℕ) (s : Session V K I) (ss : List (UndoState V)) :
    Prop where
  tracks : s.db.Tracks H ss s.snaps
  live : LiveChain s.db.view ss s.snaps
  keys : ∀ t, s.db.indexes.keysOf t = []
  enabled : s.db.undoDb.disabled = false
  active : s.snaps.length ≤ s.db.undoDb.activeSessions
  maxSize : s.db.undoDb.maxSize = m

theorem liveIn_empty (w : View V) : (UndoState.empty : UndoState V).LiveIn w := by
  intro id
  simp

variable {d : ObjectDatabase V K I} {st : UndoState V} {rest : List (UndoState V)}

omit [DecidableEq I] in
theorem not_rejected (hkeys : ∀ t, d.indexes.keysOf t = []) (c : Call V) : ¬ d.Rejected c := by
  cases c with
  | modify id m =>
    rintro ⟨old, -, j, w, -, -, hcl⟩
    simp [hkeys, clash] at hcl
  | _ => exact fun h => h

variable {m : ℕ} {s s' : Session V K I} {ss : List (UndoState V)}

namespace Tracked

variable {d d' : ObjectDatabase V K I} {v : View V} {vs : List (View V)} {st : UndoState V}

theorem start (h : s.Tracked H m ss) (hm : 20 ≤ m) (hroom : s.snaps.length + 1 < m)
    (hok : s.db.startUndoSession H false = .ok d) :
    Tracked H m ⟨d, s.db.view :: s.snaps⟩ (UndoState.empty :: ss) := by
  have hlen := h.tracks.chain.length_eq
  obtain ⟨u, hu, rfl⟩ := Outcome.lift_eq_ok.1 hok
  obtain rfl := UndoDatabase.startUndoSession_eq (.inl h.enabled)
    (.inl (by rw [h.maxSize]; exact hm)) hu
  -- the newest `max_size - 1` states stay, and the open sessions are fewer
  have hkeep : (H.undoId UndoState.empty :: ss.map H.undoId).take (ss.length + 1) <+:
      (s.db.undoDb.afterStart H).ids H := by
    refine List.IsPrefix.trans ?_
      (UndoDatabase.take_prefix_ids_afterStart (by rw [h.maxSize]; exact hm))
    rw [List.prefix_take_iff]
    refine ⟨(List.take_prefix ..).trans (List.cons_prefix_cons.2 ⟨rfl, h.tracks.held⟩), ?_⟩
    rw [List.length_take, h.maxSize]
    omega
  have htracks := h.tracks.start h.enabled (by rw [h.maxSize]; exact hm) hok hkeep
  rw [List.take_of_length_le (by simp), List.take_of_length_le (by simp [hlen])] at htracks
  refine ⟨htracks, ⟨liveIn_empty _, h.live⟩, h.keys, UndoDatabase.disabled_afterStart _, ?_, ?_⟩
  · exact Nat.succ_le_succ h.active
  · exact (UndoDatabase.maxSize_afterStart _).trans h.maxSize

omit [DecidableEq I] in
theorem change (h : Tracked H m ⟨d, v :: vs⟩ (st :: ss)) (c : Call V) :
    ∃ st', Tracked H m ⟨(d.call c).state, v :: vs⟩ (st' :: ss) := by
  obtain ⟨rest, st', -, hspec, htracks⟩ := h.tracks.call h.enabled c
  refine ⟨st', htracks, ⟨?_, h.live.2⟩, ?_, ?_, ?_, ?_⟩
  · exact (hspec.effect.liveIn_iff h.tracks.chain.1).2 ⟨h.live.1, not_rejected h.keys c⟩
  · intro t
    rw [hspec.keysOf]
    exact h.keys t
  · rw [hspec.undoDb]
    exact h.enabled
  · rw [hspec.undoDb]
    exact h.active
  · rw [hspec.undoDb]
    exact h.maxSize

theorem undo (h : Tracked H m ⟨d, v :: vs⟩ (st :: ss)) (hok : d.undo H = .ok d') :
    Tracked H m ⟨d', vs⟩ ss := by
  obtain ⟨hview, htracks⟩ := h.tracks.undo hok
  obtain ⟨st', rest', u, -, hact, hback, hres, hu, hd'⟩ := ObjectDatabase.undo_eq_ok hok
  obtain ⟨hre, -⟩ := UndoDatabase.reload_ok (H := H) (by exact h.tracks.addressed) hu
  refine ⟨htracks, ?_, ?_, by simp [hd'], ?_, ?_⟩
  · rw [hview]
    exact h.live.2
  · intro t
    rw [UndoState.keysOf_restore hres]
    exact h.keys t
  · have hactive : u.activeSessions = d.undoDb.activeSessions := hre.activeSessions
    have hle : vs.length + 1 ≤ d.undoDb.activeSessions := h.active
    simp only [hd', hactive]
    omega
  · have hmax : u.maxSize = d.undoDb.maxSize := hre.maxSize
    simp only [hd', hmax]
    exact h.maxSize

theorem merge {w : View V} {prev : UndoState V}
    (h : Tracked H m ⟨d, v :: w :: vs⟩ (st :: prev :: ss)) (hok : d.merge H = .ok d') :
    Tracked H m ⟨d', w :: vs⟩ (prev.merge st :: ss) := by
  obtain ⟨hix, htracks⟩ := h.tracks.merge hok
  obtain ⟨b, p, rest, u, -, -, hu, hd'⟩ := ObjectDatabase.merge_eq_ok hok
  obtain ⟨hre, -⟩ := UndoDatabase.reload_ok (H := H) (by exact h.tracks.addressed) hu
  have hview : d'.view = d.view := by rw [ObjectDatabase.view, hix, ObjectDatabase.view]
  have hchain := h.tracks.chain
  refine ⟨htracks, ⟨?_, h.live.2.2⟩, ?_, ?_, ?_, ?_⟩
  · rw [hview]
    exact hchain.2.1.live_merge hchain.1 h.live.2.1 h.live.1
  · rw [hix]
    exact h.keys
  · have hdis : u.disabled = d.undoDb.disabled := hre.disabled
    simp only [hd', hdis]
    exact h.enabled
  · have hactive : u.activeSessions = d.undoDb.activeSessions := hre.activeSessions
    have hle : vs.length + 1 + 1 ≤ d.undoDb.activeSessions := h.active
    simp only [hd', hactive, List.length_cons]
    omega
  · have hmax : u.maxSize = d.undoDb.maxSize := hre.maxSize
    simp only [hd', hmax]
    exact h.maxSize

theorem step {c : SessionCall V} (h : s.Tracked H m ss) (hm : 20 ≤ m)
    (hroom : c.level s.snaps.length < m) (hs : s.step H c = some s') :
    s'.snaps.length = c.level s.snaps.length ∧ ∃ ss', s'.Tracked H m ss' := by
  obtain ⟨d, vs⟩ := s
  have hlen := h.tracks.chain.length_eq
  cases c with
  | start =>
    simp only [Session.step] at hs
    split at hs
    · rename_i d' hok
      obtain rfl : (⟨d', d.view :: vs⟩ : Session V K I) = s' := by simpa using hs
      exact ⟨rfl, _, h.start hm hroom hok⟩
    · simp at hs
  | change c =>
    cases vs with
    | nil => simp [Session.step] at hs
    | cons v vs =>
      obtain ⟨st, ss, rfl, -⟩ := h.tracks.chain.exists_cons
      obtain rfl : (⟨(d.call c).state, v :: vs⟩ : Session V K I) = s' := by
        simpa [Session.step] using hs
      obtain ⟨st', h'⟩ := h.change c
      exact ⟨rfl, _, h'⟩
  | undo =>
    cases vs with
    | nil => simp [Session.step] at hs
    | cons v vs =>
      cases hok : d.undo H with
      | threw e d' => simp [Session.step, hok] at hs
      | ok d' =>
        obtain rfl : (⟨d', vs⟩ : Session V K I) = s' := by simpa [Session.step, hok] using hs
        obtain ⟨st, ss, rfl, -⟩ := h.tracks.chain.exists_cons
        exact ⟨rfl, _, h.undo hok⟩
  | merge =>
    cases vs with
    | nil => simp [Session.step] at hs
    | cons v vs =>
      cases vs with
      | nil => simp [Session.step] at hs
      | cons w vs =>
        cases hok : d.merge H with
        | threw e d' => simp [Session.step, hok] at hs
        | ok d' =>
          obtain rfl : (⟨d', w :: vs⟩ : Session V K I) = s' := by
            simpa [Session.step, hok] using hs
          obtain ⟨st, ss₁, rfl, -, hchain⟩ := h.tracks.chain.exists_cons
          obtain ⟨prev, ss, rfl, -⟩ := hchain.exists_cons
          exact ⟨rfl, _, h.merge hok⟩

end Tracked

/-- **Along every run the open sessions stay tracked**, as long as fewer than `max_size` of them
are open at a time. -/
theorem run_tracked (hm : 20 ≤ m) : ∀ {calls : List (SessionCall V)} {s s' : Session V K I}
    {ss : List (UndoState V)}, s.Tracked H m ss →
    SessionCall.deepest calls s.snaps.length < m → run H calls s = some s' →
    ∃ ss', s'.Tracked H m ss'
  | [], s, s', ss, h, _, hrun => by
    obtain rfl : s = s' := by simpa [run] using hrun
    exact ⟨ss, h⟩
  | c :: calls, s, s', ss, h, hdeep, hrun => by
    obtain ⟨s₁, hstep, hrest⟩ := Option.bind_eq_some_iff.1 hrun
    have hdeep' := lt_of_le_of_lt (le_max_right ..) hdeep
    have hroom := lt_of_le_of_lt (SessionCall.le_deepest calls _) hdeep'
    obtain ⟨hlen, ss₁, h₁⟩ := h.step hm hroom hstep
    exact run_tracked hm h₁ (by rw [hlen]; exact hdeep') hrest

/-! ### Undoing the innermost session -/

/-- With every recorded object in place and no further keys, `undo` restores the objects, whether or
not it can read spilled states back afterwards. -/
theorem view_undo {v : View V} (hrev : st.Reverts d.view v) (hlive : st.LiveIn d.view)
    (hkeys : ∀ t, d.indexes.keysOf t = []) (hon : d.undoDb.disabled = false)
    (hact : d.undoDb.activeSessions ≠ 0) (hback : d.undoDb.back = st :: rest) :
    (d.undo H).state.view = v := by
  have hok := Outcome.isOk_iff.1 (hrev.restore_isOk_of_no_keys hlive hkeys)
  rw [ObjectDatabase.undo, if_neg (by simp [hon, hact]), hback]
  simp only [ObjectDatabase.restoreThen]
  rw [hok]
  simpa [ObjectDatabase.view] using hrev.view_restore hok

theorem state_merge {prev : UndoState V} (hact : d.undoDb.activeSessions ≠ 0)
    (hback : d.undoDb.back = st :: prev :: rest) :
    (d.merge H).state.indexes = d.indexes ∧
      (d.merge H).state.undoDb.disabled = d.undoDb.disabled ∧
      d.undoDb.activeSessions ≤ (d.merge H).state.undoDb.activeSessions + 1 ∧
      ∃ rest', (d.merge H).state.undoDb.back = prev.merge st :: rest' := by
  obtain ⟨hpre, hdis, hactive⟩ := UndoDatabase.reload_state (H := H) "merge load stack back"
    { d.undoDb with back := prev.merge st :: rest }
  obtain ⟨tail, htail⟩ := hpre
  have hform : (d.merge H) = ((UndoDatabase.reload H "merge load stack back"
      { d.undoDb with back := prev.merge st :: rest }).bind fun u =>
        .ok { u with activeSessions := u.activeSessions - 1 }).lift
        fun u => { d with undoDb := u } := by
    rw [ObjectDatabase.merge, UndoDatabase.merge, if_neg hact, hback]
  rw [hform]
  revert hdis hactive htail
  cases UndoDatabase.reload H "merge load stack back"
    { d.undoDb with back := prev.merge st :: rest } with
  | ok u =>
    intro hdis hactive htail
    refine ⟨rfl, hdis, ?_, rest ++ tail, htail.symm⟩
    simp only [Outcome.state_ok] at hactive
    simp only [Outcome.bind_ok, Outcome.lift_ok, Outcome.state_ok, hactive]
    omega
  | threw e u =>
    intro hdis hactive htail
    refine ⟨rfl, hdis, ?_, rest ++ tail, htail.symm⟩
    simp only [Outcome.state_threw] at hactive
    simp only [Outcome.bind_threw, Outcome.lift_threw, Outcome.state_threw, hactive]
    omega

end Session

/-- A database with one empty `simple_index` and room for `m` undo states. -/
def blankDatabase (m : ℕ) : ObjectDatabase ℕ Unit (Option (UndoState ℕ)) where
  indexes := Std.ExtTreeMap.insert ∅ 1 ⟨.simple [], 0⟩
  undoDb := ⟨0, false, [], [], m, some fun _ => none⟩

theorem blankDatabase_wellFormed (m : ℕ) :
    (blankDatabase m).WellFormed (StateHash.identity ℕ) := by
  refine ⟨fun id v hv => ?_, .inl rfl, fun db hdb id st hst => ?_⟩
  · obtain ⟨p, hp, hfind⟩ := Indexes.exists_index_of_findObject hv
    simp only [blankDatabase, Indexes.getElem?_insert_index] at hp
    split at hp
    · obtain rfl : (⟨.simple [], 0⟩ : PrimaryIndex ℕ Unit) = p := by simpa using hp
      simp [Derived.find] at hfind
    · simp at hp
  · obtain rfl : (fun _ => none) = db := by simpa [blankDatabase] using hdb
    simp at hst

theorem blankDatabase_keysOf (m t : ℕ) : (blankDatabase m).indexes.keysOf t = [] := by
  simp only [Indexes.keysOf, blankDatabase, Indexes.getElem?_insert_index]
  split <;> rfl

/-- Create an object, open a second session and change the object there. -/
def createThenModify : List (SessionCall ℕ) :=
  [.start, .change (.create 1 fun _ => 5), .start, .change (.modify ⟨1, 0⟩ (· + 1))]

/-- Create an object, open twenty more sessions and undo them. -/
def createThenNest : List (SessionCall ℕ) :=
  [.start, .change (.create 1 fun _ => 5)] ++ List.replicate 20 .start ++ List.replicate 20 .undo

end Whitecoin.Db
