import Whitecoin.Lib.Outcome

/-!
# Catching an exception, with and without undoing

A caller that catches an exception goes on from whatever state the call had reached, unless
something undoes its writes. Here a call is run as an *attempt*: what becomes of the state when it
throws is a parameter, `left` (the state it had reached) or `undone` (the state it began in). The
state carries a record of the attempts that threw, with both of these states.

A program with attempts that leave their state behaves like the one in which they are undone, as
long as every attempt that threw had reached the state it began in. `Follows` says so for a pair of
programs, and its rules go along the ways in which programs are put together.
-/

/-- A state, and for every attempt that threw the state it began in and the state it had reached,
the newest first. -/
structure Traced (σ : Type*) where
  now : σ
  failed : List (σ × σ)

namespace Traced

variable {ε σ α : Type*}

/-- A call on the state, which makes no attempts. -/
def call (f : σ → Outcome ε σ) (s : Traced σ) : Outcome ε (Traced σ) :=
  (f s.now).lift fun t => ⟨t, s.failed⟩

/-- A call that must not be half done. If it throws, the state is the one `onThrow` chooses from
the state it began in and the state it had reached. -/
def attempt (onThrow : σ → σ → σ) (body : Traced σ → Outcome ε (Traced σ)) (s : Traced σ) :
    Outcome ε (Traced σ) :=
  match body s with
  | .ok t => .ok t
  | .threw e t => .threw e ⟨onThrow s.now t.now, (s.now, t.now) :: t.failed⟩

/-- `try { body } catch { handler }`. -/
def catching (body handler : Traced σ → Outcome ε (Traced σ)) (s : Traced σ) :
    Outcome ε (Traced σ) :=
  match body s with
  | .ok t => .ok t
  | .threw _ t => handler t

/-- The state that was reached stays. -/
def left (_ reached : σ) : σ := reached

/-- What the attempt did is undone. -/
def undone (begun _ : σ) : σ := begun

/-- Every attempt that threw had reached the state it began in. -/
def Harmless (s : Traced σ) : Prop := ∀ p ∈ s.failed, p.2 = p.1

instance [DecidableEq σ] (s : Traced σ) : Decidable s.Harmless :=
  inferInstanceAs (Decidable (∀ p ∈ s.failed, p.2 = p.1))

theorem attempt_undone {body : Traced σ → Outcome ε (Traced σ)} {e : ε} {s t : Traced σ}
    (h : attempt left body s = .threw e t) :
    attempt undone body s = .threw e ⟨s.now, t.failed⟩ := by
  rw [attempt] at h ⊢
  rcases hbody : body s with u | ⟨e', u⟩
  · simp [hbody] at h
  · rw [hbody, Outcome.threw.injEq] at h
    obtain ⟨rfl, rfl⟩ := h
    rfl

/-- Both returned, or both threw the same, with the same state. -/
def Alike : Outcome ε (Traced σ) → Outcome ε (Traced σ) → Prop
  | .ok s, .ok t => s.now = t.now
  | .threw e s, .threw e' t => e = e' ∧ s.now = t.now
  | _, _ => False

theorem Alike.isOk {x y : Outcome ε (Traced σ)} (h : Alike x y) : x.isOk = y.isOk := by
  rcases x with s | ⟨e, s⟩ <;> rcases y with t | ⟨e', t⟩
  · rfl
  · exact h.elim
  · exact h.elim
  · rfl

theorem Alike.now {x y : Outcome ε (Traced σ)} (h : Alike x y) :
    x.state.now = y.state.now := by
  rcases x with s | ⟨e, s⟩ <;> rcases y with t | ⟨e', t⟩
  · exact h
  · exact h.elim
  · exact h.elim
  · exact h.2

theorem Harmless.of_suffix {s t : Traced σ} (h : t.Harmless) (hst : s.failed <:+ t.failed) :
    s.Harmless :=
  fun p hp => h p (hst.mem hp)

/-- The record only grows in `F`; and if all the attempts of `F` are harmless, `G` does the same
from the same state. -/
structure Follows (F G : Traced σ → Outcome ε (Traced σ)) : Prop where
  grows : ∀ s, s.failed <:+ (F s).state.failed
  alike : ∀ s t, s.now = t.now → (F s).state.Harmless → Alike (F s) (G t)

namespace Follows

variable {F G F' G' : Traced σ → Outcome ε (Traced σ)}

theorem call (f : σ → Outcome ε σ) : Follows (Traced.call f) (Traced.call f) := by
  refine ⟨fun s => ?_, fun s t hst _ => ?_⟩
  · rw [Traced.call]
    rcases f s.now with u | ⟨e, u⟩
    · exact List.suffix_rfl
    · exact List.suffix_rfl
  · rw [Traced.call, Traced.call, hst]
    rcases f t.now with u | ⟨e, u⟩
    · exact rfl
    · exact ⟨rfl, rfl⟩

theorem ok : Follows (.ok : Traced σ → Outcome ε (Traced σ)) .ok :=
  ⟨fun _ => List.suffix_rfl, fun _ _ hst _ => hst⟩

theorem threw (e : ε) : Follows (.threw e : Traced σ → Outcome ε (Traced σ)) (.threw e) :=
  ⟨fun _ => List.suffix_rfl, fun _ _ hst _ => ⟨rfl, hst⟩⟩

theorem ofNow (h : ∀ a, ∃ F' G' : Traced σ → Outcome ε (Traced σ), Follows F' G' ∧
    ∀ s, s.now = a → F s = F' s ∧ G s = G' s) : Follows F G := by
  refine ⟨fun s => ?_, fun s t hst hs => ?_⟩
  · obtain ⟨F', G', hfollows, heq⟩ := h s.now
    rw [(heq s rfl).1]
    exact hfollows.grows s
  · obtain ⟨F', G', hfollows, heq⟩ := h s.now
    rw [(heq s rfl).1] at hs ⊢
    rw [(heq t hst.symm).2]
    exact hfollows.alike s t hst hs

theorem bind (h : Follows F G) (h' : Follows F' G') :
    Follows (fun s => (F s).bind F') (fun s => (G s).bind G') := by
  have hgrows : ∀ s, (F s).state.failed <:+ ((F s).bind F').state.failed := by
    intro s
    rcases F s with u | ⟨e, u⟩
    · exact h'.grows u
    · exact List.suffix_rfl
  refine ⟨fun s => (h.grows s).trans (hgrows s), fun s t hst hs => ?_⟩
  have halike := h.alike s t hst (hs.of_suffix (hgrows s))
  rcases hF : F s with u | ⟨e, u⟩ <;> rcases hG : G t with v | ⟨e', v⟩ <;> rw [hF, hG] at halike
  · rw [hF] at hs
    exact h'.alike u v halike hs
  · exact halike.elim
  · exact halike.elim
  · exact halike

theorem forEach {F G : α → Traced σ → Outcome ε (Traced σ)} (h : ∀ a, Follows (F a) (G a))
    (l : List α) : Follows (Outcome.forEach F l) (Outcome.forEach G l) := by
  induction l with
  | nil => exact ok
  | cons a l ih => exact (h a).bind ih

/-- **An attempt that leaves its state and one that is undone.** -/
theorem attempt (h : Follows F G) : Follows (Traced.attempt left F) (Traced.attempt undone G) := by
  have hgrows : ∀ s, (F s).state.failed <:+ (Traced.attempt left F s).state.failed := by
    intro s
    rw [Traced.attempt]
    rcases F s with u | ⟨e, u⟩
    · exact List.suffix_rfl
    · exact List.suffix_cons ..
  refine ⟨fun s => (h.grows s).trans (hgrows s), fun s t hst hs => ?_⟩
  have halike := h.alike s t hst (hs.of_suffix (hgrows s))
  rw [Traced.attempt] at hs ⊢
  rw [Traced.attempt]
  rcases hF : F s with u | ⟨e, u⟩ <;> rcases hG : G t with v | ⟨e', v⟩ <;> rw [hF, hG] at halike
  · exact halike
  · exact halike.elim
  · exact halike.elim
  · -- the attempt of `F` had reached the state it began in
    rw [hF] at hs
    have hsame : u.now = s.now := hs (s.now, u.now) List.mem_cons_self
    exact ⟨halike.1, hsame.trans hst⟩

theorem catching (h : Follows F G) (h' : Follows F' G') :
    Follows (Traced.catching F F') (Traced.catching G G') := by
  have hgrows : ∀ s, (F s).state.failed <:+ (Traced.catching F F' s).state.failed := by
    intro s
    rw [Traced.catching]
    rcases F s with u | ⟨e, u⟩
    · exact List.suffix_rfl
    · exact h'.grows u
  refine ⟨fun s => (h.grows s).trans (hgrows s), fun s t hst hs => ?_⟩
  have halike := h.alike s t hst (hs.of_suffix (hgrows s))
  rw [Traced.catching] at hs ⊢
  rw [Traced.catching]
  rcases hF : F s with u | ⟨e, u⟩ <;> rcases hG : G t with v | ⟨e', v⟩ <;> rw [hF, hG] at halike
  · exact halike
  · exact halike.elim
  · exact halike.elim
  · rw [hF] at hs
    exact h'.alike u v halike.2 hs

end Follows

/-- The program keeps `P`, also if it throws. -/
def Keeps (P : σ → Prop) (F : Traced σ → Outcome ε (Traced σ)) : Prop :=
  ∀ s, P s.now → P (F s).state.now

namespace Keeps

variable {P : σ → Prop} {F F' : Traced σ → Outcome ε (Traced σ)}

theorem call {f : σ → Outcome ε σ} (h : ∀ a, P a → P (f a).state) : Keeps P (Traced.call f) := by
  intro s hs
  rw [Traced.call, Outcome.state_lift]
  exact h s.now hs

theorem ok : Keeps P (.ok : Traced σ → Outcome ε (Traced σ)) := fun _ hs => hs

theorem threw (e : ε) : Keeps P (.threw e : Traced σ → Outcome ε (Traced σ)) := fun _ hs => hs

theorem ofNow (h : ∀ a, ∃ F' : Traced σ → Outcome ε (Traced σ), Keeps P F' ∧
    ∀ s, s.now = a → F s = F' s) : Keeps P F := by
  intro s hs
  obtain ⟨F', hkeeps, heq⟩ := h s.now
  rw [heq s rfl]
  exact hkeeps s hs

theorem bind (h : Keeps P F) (h' : Keeps P F') : Keeps P fun s => (F s).bind F' := fun s hs =>
  Outcome.bind_state_induction (P := fun t : Traced σ => P t.now) (h s hs) h'

theorem forEach {F : α → Traced σ → Outcome ε (Traced σ)} (h : ∀ a, Keeps P (F a)) (l : List α) :
    Keeps P (Outcome.forEach F l) := fun _ hs =>
  Outcome.forEach_state_induction (P := fun t : Traced σ => P t.now) (fun a _ => h a) hs

theorem attempt (h : Keeps P F) : Keeps P (Traced.attempt left F) := by
  intro s hs
  have hF := h s hs
  rw [Traced.attempt]
  rcases heq : F s with u | ⟨e, u⟩ <;> rw [heq] at hF
  · exact hF
  · exact hF

theorem catching (h : Keeps P F) (h' : Keeps P F') : Keeps P (Traced.catching F F') := by
  intro s hs
  have hF := h s hs
  rw [Traced.catching]
  rcases heq : F s with u | ⟨e, u⟩ <;> rw [heq] at hF
  · exact hF
  · exact h' u hF

end Keeps

end Traced
