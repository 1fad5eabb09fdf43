import Mathlib.Logic.Function.Basic
import Mathlib.Data.List.Basic

/-!
# Combining a row in pairs

A row of values is combined in pairs, level by level, until one value is left. An odd value at the
end of a level is carried to the next one. The result is the value of a binary tree whose leaves are
the row, and if the operation is injective and no leaf is a result of it, then the tree, and with it
the row, can be read back from the value.
-/

variable {α β : Type}

/-- Neighbours are combined, and an odd value at the end is carried. -/
def pairUp (op : α → α → α) : List α → List α
  | a :: b :: l => op a b :: pairUp op l
  | [a] => [a]
  | [] => []

theorem length_pairUp (op : α → α → α) : ∀ l : List α, (pairUp op l).length = (l.length + 1) / 2
  | a :: b :: l => by
    rw [pairUp, List.length_cons, length_pairUp op l, List.length_cons, List.length_cons]
    omega
  | [a] => by simp [pairUp]
  | [] => by simp [pairUp]

theorem pairUp_append (op : α → α → α) :
    ∀ {k : ℕ} {l m : List α}, l.length = 2 * k → pairUp op (l ++ m) = pairUp op l ++ pairUp op m
  | 0, [], m, _ => rfl
  | k + 1, a :: b :: l, m, h => by
    rw [List.cons_append, List.cons_append, pairUp, pairUp, List.cons_append,
      pairUp_append op (k := k) (by simpa [Nat.mul_succ] using h)]
  | k + 1, [a], m, h => by
    rw [List.length_singleton] at h
    omega
  | k + 1, [], m, h => by
    rw [List.length_nil] at h
    omega

theorem map_pairUp {op : α → α → α} {op' : β → β → β} {f : α → β}
    (h : ∀ a b, f (op a b) = op' (f a) (f b)) :
    ∀ l : List α, (pairUp op l).map f = pairUp op' (l.map f)
  | a :: b :: l => by
    rw [pairUp, List.map_cons, h, map_pairUp h l]
    rfl
  | [a] => rfl
  | [] => rfl

/-- Binary trees with values at their leaves. -/
inductive PairTree (α : Type) where
  | leaf (a : α)
  | node (l r : PairTree α)
  deriving DecidableEq

namespace PairTree

def leaves : PairTree α → List α
  | leaf a => [a]
  | node l r => l.leaves ++ r.leaves

/-- The value of a tree. -/
def eval (op : α → α → α) : PairTree α → α
  | leaf a => a
  | node l r => op (l.eval op) (r.eval op)

/-- **A tree can be read back from its value**, if no leaf is a result. -/
theorem eval_injective {op : α → α → α} (hop : Function.Injective2 op) :
    ∀ {s t : PairTree α}, (∀ d ∈ s.leaves, ∀ a b, op a b ≠ d) →
      (∀ d ∈ t.leaves, ∀ a b, op a b ≠ d) → s.eval op = t.eval op → s = t
  | leaf a, leaf b, _, _, h => congrArg leaf h
  | leaf a, node l r, hs, _, h => absurd h.symm (hs a (List.mem_singleton_self a) _ _)
  | node l r, leaf b, _, ht, h => absurd h (ht b (List.mem_singleton_self b) _ _)
  | node l r, node l' r', hs, ht, h => by
    obtain ⟨hl, hr⟩ := hop h
    rw [eval_injective hop (fun d hd => hs d (List.mem_append_left _ hd))
        (fun d hd => ht d (List.mem_append_left _ hd)) hl,
      eval_injective hop (fun d hd => hs d (List.mem_append_right _ hd))
        (fun d hd => ht d (List.mem_append_right _ hd)) hr]

end PairTree

theorem flatMap_leaves_pairUp :
    ∀ l : List (PairTree α), (pairUp .node l).flatMap PairTree.leaves = l.flatMap PairTree.leaves
  | a :: b :: l => by
    rw [pairUp, List.flatMap_cons, flatMap_leaves_pairUp l, List.flatMap_cons, List.flatMap_cons,
      PairTree.leaves, List.append_assoc]
  | [a] => rfl
  | [] => rfl
