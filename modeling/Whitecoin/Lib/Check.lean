import Mathlib.Data.List.Basic

/-!
# Evaluators: checks first, effects after

An operation that is rejected leaves no trace: whatever it wrote before the check that failed is
undone with the transaction around it. Such code is modelled in `Except String`, which forgets
the state of a failed run. An accepted run is then a chain of facts, one for each check and one
for each step, and the lemmas here read that chain off.
-/

namespace Check

variable {ε α β σ : Type}

/-- `FC_ASSERT(p, message)`. -/
def require (p : Prop) [Decidable p] (message : String) : Except String Unit :=
  if p then .ok () else .error message

/-- The element a lookup found; the operation is rejected when there is none. -/
def found (x : Option α) (message : String) : Except String α :=
  match x with
  | some a => .ok a
  | none => .error message

/-- The state after the operation was submitted: a rejected one changes nothing. -/
def attempted (s : σ) (x : Except ε σ) : σ :=
  match x with
  | .ok s' => s'
  | .error _ => s

@[simp] theorem attempted_ok (s s' : σ) : attempted s (.ok s' : Except ε σ) = s' := rfl

@[simp] theorem attempted_error (s : σ) (e : ε) : attempted s (.error e) = s := rfl

variable {x : Except ε α} {b : β} {a : α} {p : Prop} {message : String} {u : Unit}
  {f : σ → α → Except ε σ} {P : σ → Prop} {l : List α} {s s' : σ} {e : ε}

theorem exists_eq_ok (h : x.isOk = true) : ∃ a, x = .ok a := by
  cases x with
  | error e => simp [Except.isOk, Except.toBool] at h
  | ok a => exact ⟨a, rfl⟩

theorem eq_ok_attempted {x : Except ε σ} (s : σ) (h : x.isOk = true) : x = .ok (attempted s x) := by
  obtain ⟨s', rfl⟩ := exists_eq_ok h
  rfl

theorem ok_bind (a : α) (f : α → Except ε β) : (Except.ok a >>= f) = f a := rfl

theorem bind_eq_ok {f : α → Except ε β} : (x >>= f) = .ok b ↔ ∃ a, x = .ok a ∧ f a = .ok b := by
  cases x <;> simp [bind, Except.bind]

theorem pure_eq_ok {b : α} : (pure a : Except ε α) = .ok b ↔ a = b := by
  simp [pure, Except.pure]

theorem require_eq_ok [Decidable p] : require p message = .ok u ↔ p := by
  unfold require
  split <;> simp_all

theorem found_eq_ok {x : Option α} : found x message = .ok a ↔ x = some a := by
  cases x <;> simp [found]

theorem map_eq_ok {f : α → β} : x.map f = .ok b ↔ ∃ a, x = .ok a ∧ f a = b := by
  cases x <;> simp [Except.map]

/-- An invariant of every accepted step is an invariant of the whole loop. -/
theorem foldlM_induction (hs : P s) (hstep : ∀ s s' a, a ∈ l → P s → f s a = .ok s' → P s')
    (h : l.foldlM f s = .ok s') : P s' := by
  induction l generalizing s with
  | nil =>
    rw [List.foldlM_nil, pure_eq_ok] at h
    exact h ▸ hs
  | cons a l ih =>
    rw [List.foldlM_cons, bind_eq_ok] at h
    obtain ⟨t, ht, h⟩ := h
    exact ih (hstep s t a (List.mem_cons_self ..) hs ht)
      (fun s s' b hb => hstep s s' b (List.mem_cons_of_mem _ hb)) h

/-- What every accepted step shows of its element, with an invariant, holds of all of them. -/
theorem foldlM_forall {Q : α → Prop} (hstep : ∀ s s' a, a ∈ l → P s → f s a = .ok s' → P s' ∧ Q a)
    (hs : P s) (h : l.foldlM f s = .ok s') : P s' ∧ ∀ a ∈ l, Q a := by
  induction l generalizing s with
  | nil =>
    rw [List.foldlM_nil, pure_eq_ok] at h
    exact ⟨h ▸ hs, by simp⟩
  | cons a l ih =>
    rw [List.foldlM_cons, bind_eq_ok] at h
    obtain ⟨t, ht, h⟩ := h
    obtain ⟨hP, hQ⟩ := hstep s t a (List.mem_cons_self ..) hs ht
    obtain ⟨hP', hQ'⟩ := ih (fun s s' b hb => hstep s s' b (List.mem_cons_of_mem _ hb)) hP h
    exact ⟨hP', List.forall_mem_cons.mpr ⟨hQ, hQ'⟩⟩

theorem exists_foldlM_eq_ok (hstep : ∀ s a, a ∈ l → P s → ∃ s', f s a = .ok s' ∧ P s') (hs : P s) :
    ∃ s', l.foldlM f s = .ok s' ∧ P s' := by
  induction l generalizing s with
  | nil => exact ⟨s, rfl, hs⟩
  | cons a l ih =>
    obtain ⟨t, ht, hP⟩ := hstep s a (List.mem_cons_self ..) hs
    obtain ⟨s', hs', hP'⟩ := ih (fun s b hb => hstep s b (List.mem_cons_of_mem _ hb)) hP
    refine ⟨s', ?_, hP'⟩
    rw [List.foldlM_cons, ht]
    exact hs'

theorem bind_ne_error {f : α → Except ε β} (hx : x ≠ .error e)
    (hf : ∀ a, x = .ok a → f a ≠ .error e) : (x >>= f) ≠ .error e := by
  cases x with
  | error e' => exact fun h => hx (congrArg _ (Except.error.inj h))
  | ok a => exact hf a rfl

/-- A rejection that no step of a loop causes; `P` may speak about the steps that are left. -/
theorem foldlM_ne_error {P : List α → σ → Prop}
    (hstep : ∀ a l s, P (a :: l) s → f s a ≠ .error e ∧ ∀ s', f s a = .ok s' → P l s') (h : P l s) :
    l.foldlM f s ≠ .error e := by
  induction l generalizing s with
  | nil =>
    intro he
    cases he
  | cons a l ih =>
    obtain ⟨ha, hl⟩ := hstep a l s h
    rw [List.foldlM_cons]
    exact bind_ne_error ha fun s' hs' => ih (hl s' hs')

theorem require_ne_error [Decidable p] {message' : String} (h : p ∨ message ≠ message') :
    require p message ≠ .error message' := by
  unfold require
  split
  next =>
    intro he
    cases he
  next hp => exact fun he => (h.resolve_left hp) (Except.error.inj he)

theorem forM_eq_ok {f : α → Except ε Unit} : forM l f = .ok u ↔ ∀ a ∈ l, f a = .ok () := by
  induction l with
  | nil => simp [pure, Except.pure]
  | cons a l ih =>
    rw [List.forM_cons, bind_eq_ok]
    constructor
    · rintro ⟨⟨⟩, ha, hl⟩
      exact List.forall_mem_cons.mpr ⟨ha, ih.mp hl⟩
    · intro h
      exact ⟨(), h a (List.mem_cons_self ..), ih.mpr fun b hb => h b (List.mem_cons_of_mem _ hb)⟩

end Check
