import Mathlib.Algebra.BigOperators.Group.Finset.Piecewise
import Mathlib.Algebra.Order.Ring.Int
import Mathlib.Data.List.AList
import Whitecoin.Lib.Check

/-!
# Books and journals

Two ways to keep amounts. A *book* lists an amount for each of finitely many keys, each key once,
and is read as zero elsewhere. A *journal* is a list of payments, each of which takes an amount from
a source and gives it to a target, less a fee.

The two meet where a book is written while payments are made. What the book then holds for a key is
what the journal says about it, and over all parties together the journal only moves amounts: what
they lose is what was kept as fees.
-/

/-- A finite map of amounts. -/
abbrev Book (κ : Type) := AList fun _ : κ => ℤ

namespace Book

variable {κ : Type} [DecidableEq κ]

/-- The amount at a key: zero if there is no entry. -/
def amount (b : Book κ) (k : κ) : ℤ := (b.lookup k).getD 0

@[simp] theorem amount_empty (k : κ) : amount (∅ : Book κ) k = 0 := rfl

variable {b b' : Book κ} {k : κ} {d : ℤ} {ε σ : Type} {f : σ → (Sigma fun _ : κ => ℤ) → Except ε σ}
  {g : σ → ℤ} {s s' : σ}

theorem amount_of_lookup {n : ℤ} (h : b.lookup k = some n) : amount b k = n := by
  rw [amount, h]
  rfl

theorem amount_insert (b : Book κ) (k : κ) (n : ℤ) (j : κ) :
    amount (b.insert k n) j = if j = k then n else amount b j := by
  unfold amount
  split
  next h =>
    subst h
    rw [AList.lookup_insert]
    rfl
  next h => rw [AList.lookup_insert_ne h]

/-- The sum of the amounts at the keys with a property. -/
def sumBy (p : κ → Prop) [DecidablePred p] (b : Book κ) : ℤ :=
  (b.entries.map fun e => if p e.1 then e.2 else 0).sum

omit [DecidableEq κ] in
@[simp] theorem sumBy_empty (p : κ → Prop) [DecidablePred p] : sumBy p ∅ = 0 := rfl

theorem amount_of_mem {e : Sigma fun _ : κ => ℤ} (h : e ∈ b.entries) : amount b e.1 = e.2 :=
  amount_of_lookup (b.mem_lookup_iff.mpr h)

theorem exists_mem_of_amount_ne_zero (h : amount b k ≠ 0) : ⟨k, amount b k⟩ ∈ b.entries := by
  cases hk : b.lookup k with
  | none => exact absurd (by rw [amount, hk]; rfl) h
  | some n =>
    rw [amount_of_lookup hk]
    exact b.mem_lookup_iff.mp hk

theorem amount_eq_zero_of_notMem (h : k ∉ b.keys) : amount b k = 0 := by
  rw [amount, AList.lookup_eq_none.mpr h]
  rfl

theorem sumBy_eq_sum (p : κ → Prop) [DecidablePred p] {S : Finset κ} (hS : b.keys.toFinset ⊆ S) :
    b.sumBy p = ∑ k ∈ S, if p k then b.amount k else 0 := by
  have houtside : ∀ k ∈ S, k ∉ b.keys.toFinset → (if p k then b.amount k else 0) = 0 := by
    intro k _ hk
    rw [amount_eq_zero_of_notMem fun h => hk (List.mem_toFinset.mpr h), ite_self]
  rw [← Finset.sum_subset hS houtside, List.sum_toFinset _ b.keys_nodup, AList.keys, List.keys,
    List.map_map]
  refine congrArg List.sum (List.map_congr_left fun e he => ?_)
  rw [Function.comp_apply, amount_of_mem he]

theorem sumBy_eq (b : Book κ) (k : κ) : b.sumBy (· = k) = b.amount k := by
  rw [sumBy_eq_sum _ (Finset.subset_insert k _), Finset.sum_ite_eq',
    if_pos (Finset.mem_insert_self ..)]

theorem sumBy_of_amount (p : κ → Prop) [DecidablePred p]
    (h : ∀ j, b'.amount j = b.amount j + if j = k then d else 0) :
    b'.sumBy p = b.sumBy p + if p k then d else 0 := by
  let S := insert k (b.keys.toFinset ∪ b'.keys.toFinset)
  have hb : b.keys.toFinset ⊆ S :=
    Finset.subset_union_left.trans (Finset.subset_insert ..)
  have hb' : b'.keys.toFinset ⊆ S :=
    Finset.subset_union_right.trans (Finset.subset_insert ..)
  have hterm : ∀ j, (if p j then b'.amount j else 0) =
      (if p j then b.amount j else 0) + if j = k then (if p k then d else 0) else 0 := by
    intro j
    rw [h]
    by_cases hj : j = k
    · subst hj
      split <;> simp
    · simp [hj]
  rw [sumBy_eq_sum p hb, sumBy_eq_sum p hb', Finset.sum_congr rfl fun j _ => hterm j,
    Finset.sum_add_distrib, Finset.sum_ite_eq', if_pos (Finset.mem_insert_self ..)]

/-- The sum of all amounts. -/
def total (b : Book κ) : ℤ := b.sumBy fun _ => True

theorem total_of_amount (h : ∀ j, b'.amount j = b.amount j + if j = k then d else 0) :
    b'.total = b.total + d := by
  rw [total, total, sumBy_of_amount _ h, if_pos trivial]

omit [DecidableEq κ] in
/-- A loop over the entries, each of which changes a counter by its amount if its key has a certain
property and otherwise not, changes it by the sum of these amounts. -/
theorem foldlM_sumBy {p : κ → Prop} [DecidablePred p]
    (hstep : ∀ {s s' e}, f s e = .ok s' → g s' = g s + if p e.1 then e.2 else 0)
    (h : b.entries.foldlM f s = .ok s') : g s' = g s + b.sumBy p := by
  have hloop : ∀ (l : List (Sigma fun _ : κ => ℤ)) (s : σ), l.foldlM f s = .ok s' →
      g s' = g s + (l.map fun e => if p e.1 then e.2 else 0).sum := by
    intro l
    induction l with
    | nil =>
      intro s h
      obtain rfl := Check.pure_eq_ok.mp h
      simp
    | cons e l ih =>
      intro s h
      rw [List.foldlM_cons, Check.bind_eq_ok] at h
      obtain ⟨t, ht, h⟩ := h
      rw [ih t h, hstep ht, List.map_cons, List.sum_cons, Int.add_assoc]
  exact hloop b.entries s h

theorem foldlM_amount (hstep : ∀ {s s' e}, f s e = .ok s' → g s' = g s + if e.1 = k then e.2 else 0)
    (h : b.entries.foldlM f s = .ok s') : g s' = g s + b.amount k := by
  rw [foldlM_sumBy (g := g) (p := (· = k)) hstep h, sumBy_eq]

end Book

/-- An amount of some unit that goes from a source to a target, less a fee. -/
structure Payment (α ι : Type) where
  source : α
  target : α
  unit : ι
  amount : ℤ
  fee : ℤ

namespace Payment

variable {α ι : Type} [DecidableEq α] [DecidableEq ι]

/-- What a payment does to the amount that a party holds. -/
def effect (p : Payment α ι) (a : α) (i : ι) : ℤ :=
  if i = p.unit then
    (if a = p.target then p.amount - p.fee else 0) - (if a = p.source then p.amount else 0)
  else 0

/-- The fee of a payment, by unit. -/
def charge (p : Payment α ι) (i : ι) : ℤ := if i = p.unit then p.fee else 0

theorem sum_effect (p : Payment α ι) {A : Finset α} (hsource : p.source ∈ A)
    (htarget : p.target ∈ A) (i : ι) : ∑ a ∈ A, p.effect a i = -p.charge i := by
  unfold effect charge
  split
  · rw [Finset.sum_sub_distrib, Finset.sum_ite_eq' A, Finset.sum_ite_eq' A, if_pos hsource,
      if_pos htarget]
    omega
  · simp

end Payment

namespace Journal

variable {α ι : Type} [DecidableEq α] [DecidableEq ι]

/-- What the payments do to the amount that a party holds. -/
def effects (ps : List (Payment α ι)) (a : α) (i : ι) : ℤ := (ps.map (·.effect a i)).sum

/-- The fees of the payments. -/
def charges (ps : List (Payment α ι)) (i : ι) : ℤ := (ps.map (·.charge i)).sum

@[simp] theorem effects_nil (a : α) (i : ι) : effects ([] : List (Payment α ι)) a i = 0 := rfl

omit [DecidableEq α] in
@[simp] theorem charges_nil (i : ι) : charges ([] : List (Payment α ι)) i = 0 := rfl

theorem effects_append (ps : List (Payment α ι)) (p : Payment α ι) (a : α) (i : ι) :
    effects (ps ++ [p]) a i = effects ps a i + p.effect a i := by
  simp [effects]

omit [DecidableEq α] in
theorem charges_append (ps : List (Payment α ι)) (p : Payment α ι) (i : ι) :
    charges (ps ++ [p]) i = charges ps i + p.charge i := by
  simp [charges]

/-- **Payments only move amounts.** Over all parties they cancel with their fees. -/
theorem sum_effects {ps : List (Payment α ι)} {A : Finset α}
    (h : ∀ p ∈ ps, p.source ∈ A ∧ p.target ∈ A) (i : ι) :
    ∑ a ∈ A, effects ps a i + charges ps i = 0 := by
  induction ps with
  | nil => simp
  | cons p ps ih =>
    have hp := h p (List.mem_cons_self ..)
    have hsum := p.sum_effect hp.1 hp.2 i
    have hrest := ih fun q hq => h q (List.mem_cons_of_mem _ hq)
    simp only [effects, charges, List.map_cons, List.sum_cons, Finset.sum_add_distrib] at hrest ⊢
    omega

end Journal
