import Mathlib.Algebra.BigOperators.Group.List.Basic
import Mathlib.Algebra.Order.BigOperators.Group.List
import Mathlib.Algebra.Order.Ring.Nat
import Mathlib.Data.List.Perm.Basic

/-!
# Drawing without replacement

A row of candidates from which some are drawn one after another. A candidate that is drawn changes
places with the last one that has not been drawn yet. After some draws the row is still the old one
in another order, its end are the candidates that were drawn, the last one first, and the rest are
those that can still be drawn.

If candidates have weights, a number below the sum of the weights points at one of them: the first
whose weight, with those before it, exceeds the number. It has a weight that is not zero.
-/

namespace Draw

variable {α β : Type} {l : List α} {i j m : ℕ}

/-- Two entries change places. -/
def swapAt (l : List α) (i j : ℕ) : List α :=
  match l[i]?, l[j]? with
  | some a, some b => (l.set i b).set j a
  | _, _ => l

theorem swapAt_eq (hi : i < l.length) (hj : j < l.length) :
    swapAt l i j = (l.set i l[j]).set j l[i] := by
  rw [swapAt, List.getElem?_eq_getElem hi, List.getElem?_eq_getElem hj]

theorem swapAt_perm (hi : i < l.length) (hj : j < l.length) : (swapAt l i j).Perm l := by
  rw [swapAt_eq hi hj]
  exact List.set_set_perm hi hj

theorem length_swapAt (hi : i < l.length) (hj : j < l.length) :
    (swapAt l i j).length = l.length :=
  (swapAt_perm hi hj).length_eq

theorem drop_swapAt (hi : i ≤ m) (hm : m < l.length) :
    (swapAt l i m).drop m = l[i] :: l.drop (m + 1) := by
  have hil : i < l.length := by omega
  have hlength : m < ((l.set i l[m]).set m l[i]).length := by simpa using hm
  rw [swapAt_eq hil hm, List.drop_eq_getElem_cons hlength, List.getElem_set_self,
    List.drop_set_of_lt (Nat.lt_succ_self m), List.drop_set_of_lt (Nat.lt_succ_of_le hi)]

theorem take_swapAt_perm (hi : i ≤ m) (hm : m < l.length) :
    ((swapAt l i m).take m ++ [l[i]]).Perm (l.take (m + 1)) := by
  refine (List.perm_append_right_iff (l.drop (m + 1))).mp ?_
  calc (swapAt l i m).take m ++ [l[i]] ++ l.drop (m + 1)
      = (swapAt l i m).take m ++ (swapAt l i m).drop m := by rw [drop_swapAt hi hm]; simp
    _ = swapAt l i m := List.take_append_drop ..
    List.Perm _ l := swapAt_perm (Nat.lt_of_le_of_lt hi hm) hm
    _ = l.take (m + 1) ++ l.drop (m + 1) := (List.take_append_drop ..).symm

theorem zip_swapAt {l : List α} {l' : List β} (hl : l.length = l'.length) (hi : i < l.length)
    (hj : j < l.length) : (swapAt l i j).zip (swapAt l' i j) = swapAt (l.zip l') i j := by
  have hi' : i < (l.zip l').length := by simpa [← hl] using hi
  have hj' : j < (l.zip l').length := by simpa [← hl] using hj
  rw [swapAt_eq hi hj, swapAt_eq (hl ▸ hi) (hl ▸ hj), swapAt_eq hi' hj']
  refine List.ext_getElem (by simp [hl]) fun k hk _ => ?_
  simp only [List.getElem_zip, List.getElem_set]
  split_ifs <;> rfl

/-! ### Weights -/

/-- The first entry whose weight, with those before it, exceeds the number. -/
structure Pointed (weights : List ℕ) (value k : ℕ) : Prop where
  below : k < weights.length
  before : (weights.take k).sum ≤ value
  reached : value < (weights.take (k + 1)).sum

theorem Pointed.pos {weights : List ℕ} {value k : ℕ} (h : Pointed weights value k) :
    ∃ w, weights[k]? = some w ∧ 0 < w := by
  have hk := List.getElem?_eq_getElem h.below
  have hreached := h.reached
  rw [List.take_add_one, hk, List.sum_append, Option.toList_some, List.sum_singleton] at hreached
  exact ⟨_, hk, by have := h.before; omega⟩

end Draw
