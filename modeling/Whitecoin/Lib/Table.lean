import Mathlib.Data.List.Nodup

/-!
# Tables with a unique key

A table is a list of rows in the order in which they were created, with an index by a key that no
two rows share. The rows change in place, come at the end, and go. This module says what the index
shows after each of these changes.
-/

namespace Table

variable {α κ : Type} [DecidableEq κ] {key : α → κ} {l : List α} {a : α} {k : κ}

/-- The row with the key `k`. -/
def find (key : α → κ) (l : List α) (k : κ) : Option α := l.find? fun a => key a = k

theorem key_of_find (h : find key l k = some a) : key a = k := by
  simpa using List.find?_some h

theorem mem_of_find (h : find key l k = some a) : a ∈ l := List.mem_of_find?_eq_some h

theorem notMem_of_find (h : find key l k = none) : k ∉ l.map key := by
  rw [List.mem_map]
  rintro ⟨b, hb, rfl⟩
  simpa using List.find?_eq_none.mp h b hb

theorem find_map {f : α → α} (hf : ∀ a, key (f a) = key a) (l : List α) (k : κ) :
    find key (l.map f) k = (find key l k).map f := by
  simp only [find, List.find?_map, Function.comp_def, hf]

theorem find_append (h : find key l (key a) = none) (k : κ) :
    find key (l ++ [a]) k = if k = key a then some a else find key l k := by
  rw [find, List.find?_append]
  split
  · next hk =>
    subst hk
    have : l.find? (fun b => key b = key a) = none := h
    simp [this]
  · next hk => simp [find, Ne.symm hk]

theorem find_filter (l : List α) (x k : κ) :
    find key (l.filter (key · ≠ x)) k = if k = x then none else find key l k := by
  simp only [find, List.find?_filter]
  split
  · next h => simp [h]
  · next h =>
    congr 1
    funext a
    by_cases ha : key a = k <;> simp [ha, h]

theorem find_of_mem (h : (l.map key).Nodup) (ha : a ∈ l) : find key l (key a) = some a := by
  cases hf : find key l (key a) with
  | none => exact absurd (List.mem_map_of_mem ha) (notMem_of_find hf)
  | some b => rw [List.inj_on_of_nodup_map h (mem_of_find hf) ha (key_of_find hf)]

omit [DecidableEq κ] in
theorem nodup_map {f : α → α} (hf : ∀ a, key (f a) = key a) (h : (l.map key).Nodup) :
    ((l.map f).map key).Nodup := by
  rw [List.map_map]
  simpa only [Function.comp_def, hf] using h

theorem nodup_append (h : (l.map key).Nodup) (ha : find key l (key a) = none) :
    ((l ++ [a]).map key).Nodup := by
  rw [List.map_append, List.map_singleton]
  refine h.append (List.nodup_singleton _) ?_
  rw [List.disjoint_singleton]
  exact notMem_of_find ha

end Table
