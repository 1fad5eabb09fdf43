import Mathlib.Data.List.Basic

/-!
# Ordered maps as lists

An ordered map of a program is modelled by the list of its entries in the order of their keys. The
list is what a loop over the map sees, and a map may stand inside an inductive type, which a tree
of the library may not. That the keys increase is a predicate, kept by the operations.
-/

namespace OrdMap

variable {κ α β : Type*} [DecidableEq κ]

/-- The value at a key. -/
def get? : List (κ × α) → κ → Option α
  | [], _ => none
  | (j, a) :: l, k => if j = k then some a else get? l k

/-- Remove the entry at a key. -/
def erase : List (κ × α) → κ → List (κ × α)
  | [], _ => []
  | (j, a) :: l, k => if j = k then erase l k else (j, a) :: erase l k

@[simp] theorem get?_nil (k : κ) : get? ([] : List (κ × α)) k = none := rfl

theorem get?_cons (e : κ × α) (l : List (κ × α)) (k : κ) :
    get? (e :: l) k = if e.1 = k then some e.2 else get? l k := rfl

theorem get?_erase (l : List (κ × α)) (k j : κ) :
    get? (erase l k) j = if j = k then none else get? l j := by
  induction l with
  | nil => simp [erase]
  | cons e l ih =>
    obtain ⟨i, a⟩ := e
    by_cases hik : i = k <;> by_cases hij : i = j <;> simp_all [erase, get?]

variable {l : List (κ × α)} {k : κ}

theorem mem_of_mem_erase {e : κ × α} (h : e ∈ erase l k) : e ∈ l := by
  induction l with
  | nil => exact h
  | cons d l ih =>
    rw [erase] at h
    split at h
    · exact List.mem_cons_of_mem _ (ih h)
    · exact (List.mem_cons.mp h).elim (fun h => h ▸ List.mem_cons_self ..)
        fun h => List.mem_cons_of_mem _ (ih h)

theorem get?_map (f : α → β) (l : List (κ × α)) (k : κ) :
    get? (l.map fun e => (e.1, f e.2)) k = (get? l k).map f := by
  induction l with
  | nil => rfl
  | cons e l ih =>
    simp only [List.map_cons, get?_cons, ih]
    split <;> rfl

theorem mem_of_get? {a : α} (h : get? l k = some a) : (k, a) ∈ l := by
  induction l with
  | nil => simp at h
  | cons e l ih =>
    rw [get?_cons] at h
    split at h
    · rename_i hk
      obtain rfl : e.2 = a := by simpa using h
      exact hk ▸ List.mem_cons_self ..
    · exact List.mem_cons_of_mem _ (ih h)

theorem get?_eq_none_iff : get? l k = none ↔ ∀ e ∈ l, e.1 ≠ k := by
  induction l with
  | nil => simp
  | cons e l ih =>
    rw [get?_cons]
    split <;> simp_all

section order

variable [LT κ]

/-- The keys increase. -/
def Sorted (l : List (κ × α)) : Prop := l.Pairwise fun a b => a.1 < b.1

variable {l : List (κ × α)} {k : κ} {a : α}

theorem Sorted.erase (h : Sorted l) (k : κ) : Sorted (erase l k) := by
  have hsub : (OrdMap.erase l k).Sublist l := by
    clear h
    induction l with
    | nil => exact List.Sublist.slnil
    | cons e l ih =>
      rw [OrdMap.erase]
      split
      · exact ih.cons _
      · exact ih.cons_cons _
  exact List.Pairwise.sublist hsub h

omit [DecidableEq κ] in
theorem Sorted.mapValues (h : Sorted l) (f : α → β) : Sorted (l.map fun e => (e.1, f e.2)) :=
  List.pairwise_map.mpr h

variable [DecidableLT κ]

instance (l : List (κ × α)) : Decidable (Sorted l) :=
  inferInstanceAs (Decidable (l.Pairwise _))

/-- `m[k] = a`. -/
def set : List (κ × α) → κ → α → List (κ × α)
  | [], k, a => [(k, a)]
  | (j, b) :: l, k, a =>
    if j = k then (k, a) :: l
    else if k < j then (k, a) :: (j, b) :: l
    else (j, b) :: set l k a

theorem get?_set (l : List (κ × α)) (k : κ) (a : α) (j : κ) :
    get? (set l k a) j = if j = k then some a else get? l j := by
  induction l with
  | nil => simp [set, get?, eq_comm]
  | cons e l ih =>
    obtain ⟨i, b⟩ := e
    rw [set]
    split
    · simp_all [get?, eq_comm]
    · split <;> by_cases hij : i = j <;> by_cases hjk : j = k <;> simp_all [get?, eq_comm]

theorem mem_set {e : κ × α} (h : e ∈ set l k a) : e = (k, a) ∨ e ∈ l := by
  induction l with
  | nil => exact .inl (by simpa [set] using h)
  | cons d l ih =>
    obtain ⟨j, b⟩ := d
    rw [set] at h
    split at h
    · exact (List.mem_cons.mp h).imp id (List.mem_cons_of_mem _)
    · split at h
      · exact List.mem_cons.mp h
      · rcases List.mem_cons.mp h with rfl | h
        · exact .inr (List.mem_cons_self ..)
        · exact (ih h).imp id (List.mem_cons_of_mem _)

variable [LE κ] [Std.LawfulOrderLT κ] [Std.IsLinearOrder κ]

theorem Sorted.set (h : Sorted l) (k : κ) (a : α) : Sorted (set l k a) := by
  induction l with
  | nil => exact List.pairwise_singleton _ _
  | cons e l ih =>
    obtain ⟨j, b⟩ := e
    obtain ⟨hj, hl⟩ := List.pairwise_cons.mp h
    rw [OrdMap.set]
    split
    · rename_i hjk
      exact List.pairwise_cons.mpr ⟨hjk ▸ hj, hl⟩
    · split
      · rename_i hkj
        refine List.pairwise_cons.mpr ⟨fun e he => ?_, h⟩
        rcases List.mem_cons.mp he with rfl | he
        · exact hkj
        · exact Std.lt_trans hkj (hj e he)
      · rename_i hjk hkj
        have hlt : j < k := (Std.lt_trichotomy j k).resolve_right (by simp [hjk, hkj])
        refine List.pairwise_cons.mpr ⟨fun e he => ?_, ih hl⟩
        rcases mem_set he with rfl | he
        · exact hlt
        · exact hj e he

omit [Std.IsLinearOrder κ] in
theorem set_of_forall_lt (a : α) (h : ∀ e ∈ l, e.1 < k) : set l k a = l ++ [(k, a)] := by
  induction l with
  | nil => rfl
  | cons e l ih =>
    obtain ⟨j, b⟩ := e
    simp only [List.forall_mem_cons] at h
    have hne : j ≠ k := fun he => Std.lt_irrefl (he ▸ h.1)
    rw [set, if_neg hne, if_neg (Std.not_gt_of_lt h.1), ih h.2, List.cons_append]

omit [DecidableLT κ] [Std.IsLinearOrder κ] in
theorem Sorted.get?_eq_some_iff (h : Sorted l) : get? l k = some a ↔ (k, a) ∈ l := by
  refine ⟨mem_of_get?, fun hmem => ?_⟩
  induction l with
  | nil => simp at hmem
  | cons e l ih =>
    obtain ⟨hj, hl⟩ := List.pairwise_cons.mp h
    rw [get?_cons]
    rcases List.mem_cons.mp hmem with rfl | hmem
    · simp
    · have hne : e.1 ≠ k := fun he => Std.lt_irrefl (he ▸ hj _ hmem)
      rw [if_neg hne, ih hl hmem]

omit [DecidableEq κ] [DecidableLT κ] [Std.IsLinearOrder κ] in
theorem Sorted.nodup (h : Sorted l) : l.Nodup := by
  refine List.Pairwise.imp ?_ h
  rintro a b hlt rfl
  exact Std.lt_irrefl hlt

omit [DecidableLT κ] [Std.IsLinearOrder κ] in
/-- **An ordered map is its lookup function.** -/
theorem Sorted.ext {l' : List (κ × α)} (h : Sorted l) (h' : Sorted l')
    (hget : ∀ k, get? l k = get? l' k) : l = l' := by
  -- both lists have the same members, and an increasing list is determined by its members
  have hmem : ∀ e, e ∈ l ↔ e ∈ l' := fun e => by
    rw [← h.get?_eq_some_iff, ← h'.get?_eq_some_iff, hget]
  exact List.Perm.eq_of_pairwise
    (fun a b _ _ hab hba => absurd hba (Std.not_gt_of_lt hab)) h h'
    ((List.perm_ext_iff_of_nodup h.nodup h'.nodup).mpr hmem)

end order

end OrdMap
