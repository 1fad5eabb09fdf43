import Whitecoin.Db.UndoDatabase

/-!
# What the loops of the undo database do to its history

Each loop of `start_undo_session`, `undo`, `merge` and `pop_commit` moves states between memory and
the key-value store, or drops them. This module turns each loop into one equation, and then says
what happens to the history by name, `UndoDatabase.ids`: spilling and reading back only move the
border between memory and store, and trimming keeps the newest states.

One branch is different. When `max_size` has been lowered, the spilling loop drops states from
memory while older ones stay in the store, and what is left is no longer a run of the newest states.
`KeepsOrder` is the condition that this does not happen.
-/

namespace Whitecoin.Db

namespace UndoDatabase

variable {V I : Type} [DecidableEq I] {H : StateHash V I}

/-! ### Spilling and trimming -/

/-- Put every state of a list under its hash, the last one first. -/
def putAll (H : StateHash V I) (db : I → Option (UndoState V)) (l : List (UndoState V)) :
    I → Option (UndoState V) :=
  l.foldr (fun st db => Function.update db (H.undoId st) (some st)) db

/-- Delete every id of a list. -/
def removeAll (db : I → Option (UndoState V)) (l : List I) : I → Option (UndoState V) :=
  l.foldr (fun id db => Function.update db id none) db

variable {db : I → Option (UndoState V)} {l : List (UndoState V)} {u u' : UndoDatabase V I}
  {f : Bool} {message : String}

theorem putAll_of_mem {st : UndoState V} (h : st ∈ l) : putAll H db l (H.undoId st) = some st := by
  induction l with
  | nil => simp at h
  | cons a l ih =>
    rw [putAll, List.foldr_cons, Function.update_apply]
    split
    · rename_i heq
      rw [H.injective heq]
    · rename_i hne
      rcases List.mem_cons.1 h with rfl | h
      · exact absurd rfl hne
      · exact ih h

theorem putAll_of_notMem {id : I} (h : id ∉ l.map H.undoId) : putAll H db l id = db id := by
  induction l with
  | nil => rfl
  | cons a l ih =>
    simp only [List.map_cons, List.mem_cons, not_or] at h
    rw [putAll, List.foldr_cons, Function.update_of_ne h.1]
    exact ih h.2

theorem removeAll_apply (db : I → Option (UndoState V)) (l : List I) (id : I) :
    removeAll db l id = if id ∈ l then none else db id := by
  induction l with
  | nil => rfl
  | cons a l ih =>
    rw [removeAll, List.foldr_cons, Function.update_apply]
    by_cases h : id = a
    · simp [h]
    · rw [if_neg h]
      simpa [h, removeAll] using ih

theorem putAll_addressed (hdb : ∀ id st, db id = some st → H.undoId st = id) :
    ∀ id st, putAll H db l id = some st → H.undoId st = id := by
  intro id st hst
  by_cases hid : id ∈ l.map H.undoId
  · obtain ⟨st', hmem, rfl⟩ := List.mem_map.1 hid
    rw [putAll_of_mem hmem] at hst
    rw [Option.some_inj.1 hst]
  · exact hdb id st (by rwa [putAll_of_notMem hid] at hst)

theorem removeAll_addressed {l : List I} (hdb : ∀ id st, db id = some st → H.undoId st = id) :
    ∀ id st, removeAll db l id = some st → H.undoId st = id := by
  intro id st hst
  rw [removeAll_apply] at hst
  split at hst
  · simp at hst
  · exact hdb id st hst

/-- The states that the spilling loop stores. -/
def spilled (u : UndoDatabase V I) : List (UndoState V) := (u.back.take (u.maxSize - 1)).drop 19

/-- The state after the spilling loop. -/
def afterSpill (H : StateHash V I) (u : UndoDatabase V I) : UndoDatabase V I :=
  { u with
    back := u.back.take 19
    stack := u.spilled.map H.undoId ++ u.stack
    storage := u.storage.map fun db => putAll H db u.spilled }

theorem afterSpill_of_short (h : u.back.length < 20) : u.afterSpill H = u := by
  have hs : u.spilled = [] := by
    rw [spilled, List.drop_eq_nil_iff, List.length_take]
    omega
  have hm : (u.storage.map fun db => putAll H db []) = u.storage := by
    cases u.storage <;> rfl
  rw [afterSpill, hs, hm, List.take_of_length_le (by omega)]
  rfl

/-- A returning spilling loop moves the states from position 19 on to the store, those at position
`max_size - 1` and beyond excepted. -/
theorem spillLoop_eq : ∀ {n : ℕ} {u u' : UndoDatabase V I}, u.back.length ≤ n →
    spillLoop H n u = .ok u' → u' = u.afterSpill H
  | 0, u, u', hn, h => by
    obtain rfl : u = u' := by simpa [spillLoop] using h
    rw [afterSpill_of_short (by omega)]
  | n + 1, u, u', hn, h => by
    rw [spillLoop] at h
    split at h
    · rename_i hlen
      rw [maxBackSize] at hlen
      -- split off the oldest state; the loop goes on with the rest
      obtain ⟨init, front, hback⟩ : ∃ init front, u.back = init ++ [front] :=
        ⟨_, _, (List.dropLast_append_getLast (List.ne_nil_of_length_pos (by omega))).symm⟩
      have hinit : u.back.length = init.length + 1 := by simp [hback]
      simp only [hback, List.getLast?_append, List.getLast?_singleton, Option.some_or] at h
      split at h
      · rename_i hfit
        simp only [List.length_append, List.length_singleton] at hfit
        cases hdb : u.storage with
        | none => simp [storeUndoState, hdb] at h
        | some db =>
          simp only [storeUndoState, hdb, Outcome.lift_ok, Outcome.bind_ok, hback,
            List.dropLast_concat] at h
          rw [spillLoop_eq (by simp; omega) h]
          have htake : init.take (u.maxSize - 1) = init := List.take_of_length_le (by omega)
          have htake' : (init ++ [front]).take (u.maxSize - 1) = init ++ [front] :=
            List.take_of_length_le (by simp; omega)
          have hdrop : (init ++ [front]).drop 19 = init.drop 19 ++ [front] :=
            List.drop_append_of_le_length (by omega)
          simp only [afterSpill, spilled, hback, htake, htake', hdrop, hdb, Option.map_some, putAll,
            List.map_append, List.foldr_append, List.take_append_of_le_length
              (show 19 ≤ init.length by omega)]
          simp
      · rename_i hfit
        simp only [List.length_append, List.length_singleton] at hfit
        simp only [Outcome.bind_ok, hback, List.dropLast_concat] at h
        rw [spillLoop_eq (by simp; omega) h]
        simp only [afterSpill, spilled, hback, List.take_append_of_le_length
          (show 19 ≤ init.length by omega),
          List.take_append_of_le_length (show u.maxSize - 1 ≤ init.length by omega)]
    · rename_i hlen
      obtain rfl : u = u' := by simpa using h
      rw [afterSpill_of_short (by simpa [maxBackSize] using hlen)]

theorem spillLoop_isOk : ∀ {n : ℕ} {u : UndoDatabase V I}, u.storage.isSome →
    (spillLoop H n u).isOk = true
  | 0, u, _ => rfl
  | n + 1, u, hopen => by
    obtain ⟨db, hdb⟩ := Option.isSome_iff_exists.1 hopen
    rw [spillLoop]
    split
    · split
      · rfl
      · split
        · simp only [storeUndoState, hdb, Outcome.lift_ok, Outcome.bind_ok]
          exact spillLoop_isOk (by simp)
        · exact spillLoop_isOk hopen
    · rfl

/-- The state after the trimming loop, when that drops the oldest states. -/
def afterTrim (u : UndoDatabase V I) : UndoDatabase V I :=
  { u with
    back := u.back.take u.maxSize
    stack := u.stack.take (u.maxSize - u.back.length)
    storage := u.storage.map fun db => removeAll db (u.stack.drop (u.maxSize - u.back.length)) }

theorem afterTrim_of_le (h : u.size ≤ u.maxSize) : u.afterTrim = u := by
  rw [size] at h
  have hdrop : u.stack.drop (u.maxSize - u.back.length) = [] := List.drop_eq_nil_iff.2 (by omega)
  have hm : (u.storage.map fun db => removeAll db []) = u.storage := by
    cases u.storage <;> rfl
  rw [afterTrim, hdrop, hm, List.take_of_length_le (by omega), List.take_of_length_le (by omega)]

/-- A returning trimming loop keeps the newest `max_size` states, provided that it never has to
choose between a newer state in memory and an older one in the store. -/
theorem trimLoop_eq : ∀ {n : ℕ} {u u' : UndoDatabase V I}, u.size - u.maxSize ≤ n →
    20 ≤ u.maxSize ∨ u.stack = [] → trimLoop H n u = .ok u' → u' = u.afterTrim
  | 0, u, u', hn, _, h => by
    obtain rfl : u = u' := by simpa [trimLoop] using h
    rw [afterTrim_of_le (by omega)]
  | n + 1, u, u', hn, hm, h => by
    rw [trimLoop] at h
    split at h
    · rename_i hlt
      simp only [size] at hlt hn
      by_cases hst : u.stack = []
      · simp only [hst, ne_eq, not_true_eq_false, and_false, if_false] at h
        obtain ⟨init, front, hback⟩ : ∃ init front, u.back = init ++ [front] :=
          ⟨_, _, (List.dropLast_append_getLast (List.ne_nil_of_length_pos
            (by simp [hst] at hlt; omega))).symm⟩
        have hlen : u.back.length = init.length + 1 := by simp [hback]
        split at h
        · simp at h
        · rename_i a l hcons
          rw [hback, List.dropLast_concat] at h
          simp only [hst, List.length_nil] at hlt hn
          have hrec : u' = afterTrim { u with stack := [], back := init } :=
            trimLoop_eq (n := n) (by simp only [size, List.length_nil]; omega) (.inr rfl) h
          rw [hrec]
          simp only [afterTrim, hback, hst, List.take_nil, List.drop_nil,
            List.take_append_of_le_length (show u.maxSize ≤ init.length by omega)]
      · have h20 : 20 ≤ u.maxSize := hm.resolve_right hst
        have hbig : maxBackSize < u.size ∧ u.stack ≠ [] := ⟨by simp [maxBackSize, size]; omega, hst⟩
        rw [if_pos hbig] at h
        obtain ⟨init, front, hstack⟩ : ∃ init front, u.stack = init ++ [front] :=
          ⟨_, _, (List.dropLast_append_getLast hst).symm⟩
        have hlen : u.stack.length = init.length + 1 := by simp [hstack]
        simp only [hstack, List.getLast?_append, List.getLast?_singleton, Option.some_or] at h
        obtain ⟨u₁, h₁, hrest⟩ := Outcome.bind_eq_ok.1 h
        simp only [removeState] at h₁
        split at h₁
        · simp at h₁
        · cases hdb : u.storage with
          | none => simp [hdb] at h₁
          | some db =>
            simp only [hdb, Outcome.ok.injEq] at h₁
            subst h₁
            simp only [hstack, List.dropLast_concat] at hrest
            have hrec : u' = afterTrim
                { u with stack := init, storage := some (Function.update db front none) } :=
              trimLoop_eq (n := n) (by simp only [size]; omega) (.inl h20) hrest
            rw [hrec]
            have hk : u.maxSize - u.back.length ≤ init.length := by omega
            simp only [afterTrim, hstack, hdb, List.take_append_of_le_length hk,
              List.drop_append_of_le_length hk, Option.map_some, removeAll, List.foldr_append,
              List.foldr_cons, List.foldr_nil]
    · rename_i hle
      obtain rfl : u = u' := by simpa using h
      rw [afterTrim_of_le (by omega)]

theorem trimLoop_isOk : ∀ {n : ℕ} {u : UndoDatabase V I}, u.storage.isSome →
    (∀ id ∈ u.stack, id ≠ H.nullId) → 20 ≤ u.maxSize ∨ u.stack = [] →
    (trimLoop H n u).isOk = true
  | 0, u, _, _, _ => rfl
  | n + 1, u, hopen, hnull, hm => by
    obtain ⟨db, hdb⟩ := Option.isSome_iff_exists.1 hopen
    rw [trimLoop]
    split
    · rename_i hlt
      split
      · split
        · rfl
        · rename_i front hfront
          rw [removeState, if_neg (hnull front (List.mem_of_getLast? hfront))]
          simp only [hdb, Outcome.bind_ok]
          refine trimLoop_isOk (by simp) (fun id hid => hnull id (List.dropLast_subset _ hid)) ?_
          rcases hm with hm | hm
          · exact .inl hm
          · exact .inr (by simp [hm])
      · rename_i hsmall
        have hst : u.stack = [] := by
          rcases hm with hm | hm
          · by_contra hne
            exact hsmall ⟨by simp only [maxBackSize]; omega, hne⟩
          · exact hm
        split
        · rename_i hback
          simp [size, hst, hback] at hlt
        · exact trimLoop_isOk hopen hnull (.inr hst)
    · rfl

/-! ### Opening a session, as one equation -/

/-- The new session's empty state is in place. -/
def pushed (u : UndoDatabase V I) : UndoDatabase V I :=
  { u with disabled := false, back := UndoState.empty :: u.back }

/-- The state after the two spilling loops. -/
def spill (H : StateHash V I) (u : UndoDatabase V I) : UndoDatabase V I :=
  if 30 ≤ u.back.length then u.afterSpill H else u

/-- The state after `start_undo_session`, when the trimming loop drops the oldest states. -/
def afterStart (H : StateHash V I) (u : UndoDatabase V I) : UndoDatabase V I :=
  { (u.pushed.spill H).afterTrim with activeSessions := u.activeSessions + 1 }

/-- No state in memory is dropped while an older one stays in the store: either nothing has to be
spilled or all of it fits in `max_size`, and the trimming loop takes from the store first. -/
def KeepsOrder (u : UndoDatabase V I) : Prop :=
  (u.back.length + 1 < 30 ∨ u.back.length + 1 < u.maxSize) ∧ (20 ≤ u.maxSize ∨ u.stack = [])

instance (u : UndoDatabase V I) : Decidable u.KeepsOrder := by
  unfold KeepsOrder
  infer_instance

theorem stack_afterSpill_of_small (hm : u.maxSize < 20) : (u.afterSpill H).stack = u.stack := by
  have hs : u.spilled = [] := by
    rw [spilled, List.drop_eq_nil_iff, List.length_take]
    omega
  simp [afterSpill, hs]

@[simp] theorem maxSize_spill (u : UndoDatabase V I) : (u.spill H).maxSize = u.maxSize := by
  unfold spill
  split <;> rfl

@[simp] theorem activeSessions_spill (u : UndoDatabase V I) :
    (u.spill H).activeSessions = u.activeSessions := by
  unfold spill
  split <;> rfl

@[simp] theorem disabled_spill (u : UndoDatabase V I) : (u.spill H).disabled = u.disabled := by
  unfold spill
  split <;> rfl

@[simp] theorem isSome_storage_spill (u : UndoDatabase V I) :
    (u.spill H).storage.isSome = u.storage.isSome := by
  rw [spill]
  split
  · simp [afterSpill]
  · rfl

@[simp] theorem isSome_storage_afterStart (u : UndoDatabase V I) :
    (u.afterStart H).storage.isSome = u.storage.isSome := by
  simp [afterStart, afterTrim, pushed]

@[simp] theorem maxSize_afterStart (u : UndoDatabase V I) :
    (u.afterStart H).maxSize = u.maxSize :=
  maxSize_spill (H := H) u.pushed

@[simp] theorem disabled_afterStart (u : UndoDatabase V I) : (u.afterStart H).disabled = false :=
  disabled_spill (H := H) u.pushed

theorem stack_spill_of_small (hm : 20 ≤ u.maxSize ∨ u.stack = []) :
    20 ≤ (u.spill H).maxSize ∨ (u.spill H).stack = [] := by
  rw [maxSize_spill]
  rcases Nat.lt_or_ge u.maxSize 20 with hlt | hge
  · refine .inr ?_
    have hst := hm.resolve_left (by omega)
    unfold spill
    split
    · rw [stack_afterSpill_of_small hlt, hst]
    · exact hst
  · exact .inl hge

theorem startUndoSession_eq (hon : u.disabled = false ∨ f = true)
    (hm : 20 ≤ u.maxSize ∨ u.stack = []) (h : u.startUndoSession H f = .ok u') :
    u' = u.afterStart H := by
  have hcond : ¬ (u.disabled = true ∧ f = false) := by
    rcases hon with h | h <;> simp [h]
  rw [startUndoSession, if_neg hcond] at h
  obtain ⟨u₁, h₁, h⟩ := Outcome.bind_eq_ok.1 h
  obtain ⟨u₂, h₂, h⟩ := Outcome.bind_eq_ok.1 h
  change (if 30 ≤ u.pushed.back.length then spillLoop H u.pushed.back.length u.pushed
    else .ok u.pushed) = .ok u₁ at h₁
  have hspill : u₁ = u.pushed.spill H := by
    unfold spill
    split at h₁ <;> rename_i hlen
    · rw [if_pos hlen]
      exact spillLoop_eq le_rfl h₁
    · rw [if_neg hlen]
      simpa using h₁.symm
  subst hspill
  obtain rfl := trimLoop_eq (Nat.sub_le ..) (stack_spill_of_small (u := u.pushed) hm) h₂
  rw [Outcome.ok.injEq] at h
  rw [← h, afterStart]
  simp [afterTrim, pushed]

theorem startUndoSession_isOk (hopen : u.storage.isSome) (hnull : ∀ id ∈ u.stack, id ≠ H.nullId)
    (hm : 20 ≤ u.maxSize ∨ u.stack = []) : (u.startUndoSession H f).isOk = true := by
  rw [startUndoSession]
  split
  · rfl
  · have hspilled : (if 30 ≤ u.pushed.back.length then spillLoop H u.pushed.back.length u.pushed
        else .ok u.pushed) = .ok (u.pushed.spill H) := by
      unfold spill
      split
      · have hok := spillLoop_isOk (H := H) (n := u.pushed.back.length) (u := u.pushed) hopen
        rw [Outcome.isOk_iff] at hok
        rw [hok, spillLoop_eq le_rfl hok]
      · rfl
    change (Outcome.bind (if 30 ≤ u.pushed.back.length then
      spillLoop H u.pushed.back.length u.pushed else .ok u.pushed) _).isOk = true
    rw [hspilled, Outcome.bind_ok, Outcome.bind_isOk]
    refine ⟨trimLoop_isOk ?_ ?_ (stack_spill_of_small (u := u.pushed) hm), rfl⟩
    · rw [isSome_storage_spill]
      exact hopen
    · unfold spill
      split
      · intro id hid
        rcases List.mem_append.1 hid with hid | hid
        · obtain ⟨st, -, rfl⟩ := List.mem_map.1 hid
          exact H.ne_null st
        · exact hnull id hid
      · exact hnull

theorem ids_afterTrim (u : UndoDatabase V I) : u.afterTrim.ids H = (u.ids H).take u.maxSize := by
  simp [ids, afterTrim, List.take_append, List.map_take]

theorem ids_afterSpill (hm : 20 ≤ u.maxSize) :
    (u.afterSpill H).ids H = (u.back.take (u.maxSize - 1)).map H.undoId ++ u.stack := by
  have htake : u.back.take 19 = (u.back.take (u.maxSize - 1)).take 19 := by
    rw [List.take_take, Nat.min_eq_left (by omega)]
  simp only [ids, afterSpill, spilled, htake]
  rw [← List.append_assoc, ← List.map_append, List.take_append_drop]

theorem ids_afterSpill_of_small (hm : u.maxSize < 20) :
    (u.afterSpill H).ids H = (u.back.take 19).map H.undoId ++ u.stack := by
  rw [ids, stack_afterSpill_of_small hm]
  rfl

theorem ids_afterStart (u : UndoDatabase V I) :
    (u.afterStart H).ids H = ((u.pushed.spill H).ids H).take u.maxSize := by
  have := ids_afterTrim (H := H) (u.pushed.spill H)
  rwa [maxSize_spill] at this

theorem take_prefix_ids_afterStart (hm : 20 ≤ u.maxSize) :
    (u.pushed.ids H).take (u.maxSize - 1) <+: (u.afterStart H).ids H := by
  rw [ids_afterStart, List.prefix_take_iff]
  refine ⟨?_, by rw [List.length_take]; omega⟩
  unfold spill
  split
  · rw [ids_afterSpill (u := u.pushed) hm, ids, List.take_append, ← List.map_take]
    exact (List.prefix_append_right_inj _).2 (List.take_prefix ..)
  · exact List.take_prefix ..

theorem ids_afterStart_of_keepsOrder (hk : u.KeepsOrder) :
    (u.afterStart H).ids H = (u.pushed.ids H).take u.maxSize := by
  rw [ids_afterStart]
  unfold spill
  split
  · rename_i hlen
    have hlen' : 30 ≤ u.back.length + 1 := hlen
    have hfit : u.back.length + 1 < u.maxSize := hk.1.resolve_left (by omega)
    have hall : u.pushed.back.take (u.pushed.maxSize - 1) = u.pushed.back :=
      List.take_of_length_le (show u.back.length + 1 ≤ u.maxSize - 1 by omega)
    rw [ids_afterSpill (u := u.pushed) (show 20 ≤ u.maxSize by omega), hall, ids]
  · rfl

/-- Nothing in the store, or the order kept: what is left is a run of the newest states. -/
theorem ids_afterStart_prefix (h : u.stack = [] ∨ u.KeepsOrder) :
    (u.afterStart H).ids H <+: u.pushed.ids H := by
  rcases h with hst | hk
  · have hnil : u.pushed.stack = [] := hst
    rw [ids_afterStart]
    refine (List.take_prefix ..).trans ?_
    have hids : u.pushed.ids H = u.pushed.back.map H.undoId := by
      rw [ids, hnil, List.append_nil]
    unfold spill
    split
    · rw [hids]
      rcases Nat.lt_or_ge u.pushed.maxSize 20 with hlt | hge
      · rw [ids_afterSpill_of_small hlt, hnil, List.append_nil]
        exact (List.take_prefix ..).map _
      · rw [ids_afterSpill hge, hnil, List.append_nil]
        exact (List.take_prefix ..).map _
    · exact List.prefix_rfl
  · rw [ids_afterStart_of_keepsOrder hk]
    exact List.take_prefix ..

theorem back_afterStart (hm : 0 < u.maxSize) :
    ∃ rest, (u.afterStart H).back = UndoState.empty :: rest := by
  obtain ⟨m, hm⟩ : ∃ m, u.maxSize = m + 1 := ⟨u.maxSize - 1, by omega⟩
  have hback : (u.afterStart H).back = (u.pushed.spill H).back.take (m + 1) := by
    have hsize : (u.pushed.spill H).maxSize = m + 1 := (maxSize_spill u.pushed).trans hm
    rw [← hsize]
    rfl
  rw [hback]
  unfold spill
  split <;> simp [afterSpill, pushed]

theorem stack_afterStart (hm : 20 ≤ u.maxSize) (h : u.Backed) :
    (u.afterStart H).stack = [] ∨ 6 < (u.afterStart H).back.length := by
  have hspill : (u.pushed.spill H).stack = [] ∨ 6 < (u.pushed.spill H).back.length := by
    unfold spill
    split
    · rename_i hlen
      exact .inr (by simp only [afterSpill, List.length_take]; omega)
    · exact h.imp_right Nat.succ_lt_succ
  have hsize : (u.pushed.spill H).maxSize = u.maxSize := maxSize_spill u.pushed
  show List.take _ _ = [] ∨ 6 < (List.take _ _).length
  rcases hspill with hst | hlt
  · exact .inl (by rw [hst, List.take_nil])
  · exact .inr (by rw [List.length_take, hsize]; omega)

theorem backed_afterStart (hm : 20 ≤ u.maxSize) (h : u.Backed) : (u.afterStart H).Backed :=
  (stack_afterStart hm h).imp_right fun hlt => by omega

theorem addressed_afterStart (h : u.Addressed H) : (u.afterStart H).Addressed H := by
  have hspill : (u.pushed.spill H).Addressed H := by
    unfold spill
    split
    · intro db' hdb'
      obtain ⟨db, hdb, rfl⟩ := Option.map_eq_some_iff.1 hdb'
      exact putAll_addressed (h db hdb)
    · exact h
  intro db' hdb'
  obtain ⟨db, hdb, rfl⟩ := Option.map_eq_some_iff.1 hdb'
  exact removeAll_addressed (hspill db hdb)

/-! ### Reading back -/

/-- The same history, with the border between memory and store moved. -/
structure Rearranged (H : StateHash V I) (u u' : UndoDatabase V I) : Prop where
  ids : u'.ids H = u.ids H
  addressed : u'.Addressed H
  back : u.back <+: u'.back
  activeSessions : u'.activeSessions = u.activeSessions
  disabled : u'.disabled = u.disabled
  maxSize : u'.maxSize = u.maxSize
  isOpen : u'.storage.isSome = u.storage.isSome

omit [DecidableEq I] in
theorem Rearranged.refl (h : u.Addressed H) : Rearranged H u u :=
  ⟨rfl, h, List.prefix_rfl, rfl, rfl, rfl, rfl⟩

theorem reloadLoop_ok : ∀ {n : ℕ} {u u' : UndoDatabase V I}, u.Addressed H →
    reloadLoop H message n u = .ok u' →
    Rearranged H u u' ∧ (u.stack.length ≤ n → u'.stack = [] ∨ 20 ≤ u'.back.length)
  | 0, u, u', ha, h => by
    obtain rfl : u = u' := by simpa [reloadLoop] using h
    exact ⟨.refl ha, fun hn => .inl (List.length_eq_zero_iff.1 (Nat.le_zero.1 hn))⟩
  | n + 1, u, u', ha, h => by
    rw [reloadLoop] at h
    split at h
    · rename_i hst
      obtain rfl : u = u' := by simpa using h
      exact ⟨.refl ha, fun _ => .inl hst⟩
    · rename_i id rest hst
      split at h
      · split at h
        · simp at h
        · rename_i st hget
          -- the state read back is the one named by `id`
          obtain ⟨db, hdb, hid⟩ : ∃ db, u.storage = some db ∧ db id = some st := by
            simpa [getState, Option.bind_eq_some_iff] using hget
          have hname : H.undoId st = id := ha db hdb id st hid
          obtain ⟨u₁, h₁, hrest⟩ := Outcome.bind_eq_ok.1 h
          simp only [removeState, hdb] at h₁
          split at h₁
          · simp at h₁
          · rw [Outcome.ok.injEq] at h₁
            subst h₁
            have ha' : Addressed H { u with
                back := u.back ++ [st], storage := some (Function.update db id none),
                stack := rest } := by
              intro db' hdb' i s hs
              obtain rfl : Function.update db id none = db' := by simpa using hdb'
              rw [Function.update_apply] at hs
              split at hs
              · simp at hs
              · exact ha db hdb i s hs
            obtain ⟨hre, hlen⟩ := reloadLoop_ok ha' hrest
            refine ⟨⟨?_, hre.addressed, (List.prefix_append ..).trans hre.back,
              hre.activeSessions, hre.disabled, hre.maxSize, by rw [hre.isOpen, hdb]; rfl⟩,
              fun hn => hlen ?_⟩
            · rw [hre.ids]
              simp [UndoDatabase.ids, hst, hname]
            · simpa [hst] using hn
      · rename_i hlen
        obtain rfl : u = u' := by simpa using h
        exact ⟨.refl ha, fun _ => .inr (by simpa [maxBackSize] using hlen)⟩

theorem reloadLoop_state (message : String) : ∀ (n : ℕ) (u : UndoDatabase V I),
    u.back <+: (reloadLoop H message n u).state.back ∧
      (reloadLoop H message n u).state.disabled = u.disabled ∧
      (reloadLoop H message n u).state.activeSessions = u.activeSessions
  | 0, u => ⟨List.prefix_rfl, rfl, rfl⟩
  | n + 1, u => by
    rw [reloadLoop]
    split
    · exact ⟨List.prefix_rfl, rfl, rfl⟩
    · rename_i id rest hst
      split
      · split
        · exact ⟨List.prefix_append .., rfl, rfl⟩
        · rename_i st hget
          rw [removeState]
          split
          · exact ⟨List.prefix_append .., rfl, rfl⟩
          · split
            · exact ⟨List.prefix_append .., rfl, rfl⟩
            · obtain ⟨hb, hd, ha⟩ := reloadLoop_state message n _
              exact ⟨(List.prefix_append ..).trans hb, hd, ha⟩
      · exact ⟨List.prefix_rfl, rfl, rfl⟩

theorem reload_state (message : String) (u : UndoDatabase V I) :
    u.back <+: (u.reload H message).state.back ∧
      (u.reload H message).state.disabled = u.disabled ∧
      (u.reload H message).state.activeSessions = u.activeSessions := by
  rw [reload]
  split
  · exact reloadLoop_state message _ u
  · exact ⟨List.prefix_rfl, rfl, rfl⟩

theorem reload_ok (ha : u.Addressed H) (h : u.reload H message = .ok u') :
    Rearranged H u u' ∧ u'.Backed := by
  rw [reload] at h
  split at h
  · obtain ⟨hre, hlen⟩ := reloadLoop_ok ha h
    exact ⟨hre, (hlen le_rfl).imp_right fun hge => by omega⟩
  · rename_i hcond
    obtain rfl : u = u' := by simpa using h
    refine ⟨.refl ha, ?_⟩
    by_cases hst : u.stack = []
    · exact .inl hst
    · exact .inr (by by_contra hle; exact hcond ⟨hst, by omega⟩)

end UndoDatabase

end Whitecoin.Db
