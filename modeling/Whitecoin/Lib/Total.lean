import Mathlib.Algebra.BigOperators.Group.Finset.Basic
import Mathlib.Algebra.BigOperators.Pi
import Mathlib.Algebra.Order.BigOperators.Group.Finset

/-!
# Totals of finitely supported functions

Balances are a function on all addresses of which only finitely many are not zero. `HasTotal f t`
says that `f` is such a function and that its values sum up to `t`.
-/

variable {α M : Type*}

/-- The values of `f` are zero but for finitely many, and sum up to `t`. -/
def HasTotal [AddCommMonoid M] (f : α → M) (t : M) : Prop :=
  ∃ s : Finset α, (∀ a ∉ s, f a = 0) ∧ ∑ a ∈ s, f a = t

namespace HasTotal

section monoid

variable [AddCommMonoid M] {f g : α → M} {t u : M}

theorem zero : HasTotal (fun _ : α => (0 : M)) 0 := ⟨∅, by simp, by simp⟩

theorem add (hf : HasTotal f t) (hg : HasTotal g u) : HasTotal (fun a => f a + g a) (t + u) := by
  classical
  obtain ⟨s, hs, rfl⟩ := hf
  obtain ⟨s', hs', rfl⟩ := hg
  refine ⟨s ∪ s', fun a ha => ?_, ?_⟩
  · rw [Finset.notMem_union] at ha
    simp only [hs a ha.1, hs' a ha.2, add_zero]
  · have hleft : s ⊆ s ∪ s' := Finset.subset_union_left
    have hright : s' ⊆ s ∪ s' := Finset.subset_union_right
    rw [Finset.sum_add_distrib, Finset.sum_subset hleft fun a _ ha => hs a ha,
      Finset.sum_subset hright fun a _ ha => hs' a ha]

theorem unique (ht : HasTotal f t) (hu : HasTotal f u) : t = u := by
  classical
  obtain ⟨s, hs, rfl⟩ := ht
  obtain ⟨s', hs', rfl⟩ := hu
  rw [Finset.sum_subset Finset.subset_union_left fun a _ ha => hs a ha,
    Finset.sum_subset Finset.subset_union_right fun a _ ha => hs' a ha]

variable [DecidableEq α]

theorem single (a : α) (v : M) : HasTotal (Pi.single a v : α → M) v :=
  ⟨{a}, fun b hb => by simp [Finset.notMem_singleton.mp hb], by simp⟩

end monoid

section group

variable [AddCommGroup M] [DecidableEq α] {f : α → M} {t : M}

/-- **The total after a change at one place.** -/
theorem update (h : HasTotal f t) (a : α) (v : M) :
    HasTotal (Function.update f a v) (t - f a + v) := by
  have heq : Function.update f a v = fun b => f b + (Pi.single a (v - f a) : α → M) b := by
    funext b
    by_cases hb : b = a
    · subst hb
      simp
    · simp [hb]
  rw [heq, sub_add_eq_add_sub, add_sub_assoc]
  exact h.add (single a (v - f a))

end group

section order

variable {f : α → ℤ} {t : ℤ}

theorem le (h : HasTotal f t) (hf : ∀ a, 0 ≤ f a) (a : α) : f a ≤ t := by
  obtain ⟨s, hs, rfl⟩ := h
  by_cases ha : a ∈ s
  · exact Finset.single_le_sum (fun b _ => hf b) ha
  · rw [hs a ha]
    exact Finset.sum_nonneg fun b _ => hf b

end order

end HasTotal
