import Mathlib.Data.List.Basic
import Mathlib.Logic.Function.Basic

/-!
# Calls that return or throw

A call of an imperative program either returns or throws, and in both cases it leaves a state
behind: an exception does not undo the writes made before it. `Except` forgets the state of the
second case, so a call is modelled here by a function into `Outcome ε σ`, which carries the state
on both sides. Nothing is rolled back unless the program itself does it.
-/

/-- The result of a call: it returned, or it threw `e`. The state left behind is kept in both
cases. -/
inductive Outcome (ε : Type*) (σ : Type*) where
  | ok (s : σ)
  | threw (e : ε) (s : σ)
  deriving DecidableEq

namespace Outcome

variable {ε σ τ α κ β : Type*}

/-- The state the call leaves. -/
def state : Outcome ε σ → σ
  | ok s => s
  | threw _ s => s

/-- The call returned. -/
def isOk : Outcome ε σ → Bool
  | ok _ => true
  | threw _ _ => false

@[simp] theorem state_ok (s : σ) : (ok s : Outcome ε σ).state = s := rfl

@[simp] theorem state_threw (e : ε) (s : σ) : (threw e s).state = s := rfl

@[simp] theorem isOk_ok (s : σ) : (ok s : Outcome ε σ).isOk = true := rfl

@[simp] theorem isOk_threw (e : ε) (s : σ) : (threw e s).isOk = false := rfl

variable {x : Outcome ε σ} {f : σ → Outcome ε σ} {s : σ} {P : σ → Prop} {body : α → σ → Outcome ε σ}

theorem isOk_iff : x.isOk = true ↔ x = ok x.state := by
  cases x <;> simp

/-- Run `x`, then `f` on the state it returned with. -/
def bind (x : Outcome ε σ) (f : σ → Outcome ε σ) : Outcome ε σ :=
  match x with
  | ok s => f s
  | threw e s => threw e s

@[simp] theorem bind_ok (s : σ) (f : σ → Outcome ε σ) : (ok s).bind f = f s := rfl

@[simp] theorem bind_threw (e : ε) (s : σ) (f : σ → Outcome ε σ) :
    (threw e s).bind f = threw e s := rfl

theorem bind_eq_ok : x.bind f = ok s ↔ ∃ t, x = ok t ∧ f t = ok s := by
  cases x <;> simp

theorem bind_state_induction (hx : P x.state) (hf : ∀ s, P s → P (f s).state) :
    P (x.bind f).state := by
  rcases x with s | ⟨e, s⟩
  · exact hf s hx
  · exact hx

theorem bind_isOk : (x.bind f).isOk = true ↔ x.isOk = true ∧ (f x.state).isOk = true := by
  cases x <;> simp

/-- A call on a component is a call on the whole: `put` writes the component back. -/
def lift (put : σ → τ) : Outcome ε σ → Outcome ε τ
  | ok s => ok (put s)
  | threw e s => threw e (put s)

@[simp] theorem lift_ok (put : σ → τ) (s : σ) : lift put (ok s : Outcome ε σ) = ok (put s) := rfl

@[simp] theorem lift_threw (put : σ → τ) (e : ε) (s : σ) :
    lift put (threw e s) = threw e (put s) := rfl

@[simp] theorem state_lift (put : σ → τ) (x : Outcome ε σ) : (x.lift put).state = put x.state := by
  cases x <;> rfl

@[simp] theorem isOk_lift (put : σ → τ) (x : Outcome ε σ) : (x.lift put).isOk = x.isOk := by
  cases x <;> rfl

theorem lift_eq_ok {put : σ → τ} {t : τ} : x.lift put = ok t ↔ ∃ s, x = ok s ∧ put s = t := by
  cases x <;> simp

/-! ### Loops -/

/-- `for a in l do body a`: the first iteration that throws ends the loop. -/
def forEach (body : α → σ → Outcome ε σ) : List α → σ → Outcome ε σ
  | [], s => ok s
  | a :: l, s => (body a s).bind (forEach body l)

@[simp] theorem forEach_nil (body : α → σ → Outcome ε σ) (s : σ) : forEach body [] s = ok s := rfl

theorem forEach_cons (body : α → σ → Outcome ε σ) (a : α) (l : List α) (s : σ) :
    forEach body (a :: l) s = (body a s).bind (forEach body l) := rfl

/-- Whatever every iteration preserves, the loop preserves, also when it throws. -/
theorem forEach_state_induction :
    ∀ {l : List α} {s : σ}, (∀ a ∈ l, ∀ s, P s → P (body a s).state) → P s →
      P (forEach body l s).state
  | [], _, _, hs => hs
  | a :: l, s, h, hs => by
    have hbody := h a (List.mem_cons_self ..) s hs
    rw [forEach_cons]
    cases hb : body a s with
    | threw e t => simpa [hb] using hbody
    | ok t =>
      refine forEach_state_induction (fun b hb' => h b (List.mem_cons_of_mem _ hb')) ?_
      simpa [hb] using hbody

/-- If every iteration returns on every state satisfying the invariant `P`, the loop returns. -/
theorem forEach_isOk :
    ∀ {l : List α} {s : σ}, (∀ a ∈ l, ∀ s, P s → (body a s).isOk = true ∧ P (body a s).state) →
      P s → (forEach body l s).isOk = true
  | [], _, _, _ => rfl
  | a :: l, s, h, hs => by
    obtain ⟨hok, hP⟩ := h a (List.mem_cons_self ..) s hs
    rw [forEach_cons, bind_isOk]
    exact ⟨hok, forEach_isOk (fun b hb => h b (List.mem_cons_of_mem _ hb)) hP⟩

theorem forEach_map {β : Type*} (body : β → σ → Outcome ε σ) (g : α → β) (l : List α) (s : σ) :
    forEach (fun a => body (g a)) l s = forEach body (l.map g) s := by
  induction l generalizing s with
  | nil => rfl
  | cons a l ih =>
    rw [List.map_cons, forEach_cons, forEach_cons]
    congr 1
    funext t
    exact ih t

theorem forEach_append (body : α → σ → Outcome ε σ) (l l' : List α) (s : σ) :
    forEach body (l ++ l') s = (forEach body l s).bind (forEach body l') := by
  induction l generalizing s with
  | nil => rfl
  | cons a l ih =>
    rw [List.cons_append, forEach_cons, forEach_cons]
    cases body a s with
    | ok t => simpa using ih t
    | threw e t => rfl

/-- A loop returns exactly when no iteration throws on what the earlier ones left. -/
theorem forEach_isOk_iff {l : List α} :
    (forEach body l s).isOk = true ↔
      ∀ done a rest, l = done ++ a :: rest → ∀ t, forEach body done s = ok t →
        (body a t).isOk = true := by
  constructor
  · rintro h done a rest rfl t ht
    rw [forEach_append, ht, bind_ok, forEach_cons, bind_isOk] at h
    exact h.1
  · induction l generalizing s with
    | nil => intro _; rfl
    | cons b l ih =>
      intro h
      have hb : (body b s).isOk = true := h [] b l rfl s rfl
      rw [forEach_cons, bind_isOk]
      refine ⟨hb, ih ?_⟩
      rintro done a rest rfl t ht
      refine h (b :: done) a rest rfl t ?_
      rw [forEach_cons, isOk_iff.1 hb, bind_ok]
      exact ht

end Outcome
