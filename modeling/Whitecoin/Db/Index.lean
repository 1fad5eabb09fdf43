import Mathlib.Data.List.DropRight
import Whitecoin.Lib.Outcome

/-!
# Objects and the indexes that hold them

An object is stored under its id, which `create` assigns and nothing else changes, so the model
keeps the id as the key and the rest of the object as the value `V`. An index holds the objects of
one space and type. Two containers of the source can stand behind an index:

* `simple_index`, a vector of pointers addressed by the instance number;
* `generic_index`, a Boost multi-index container, which is addressed by id and may have further
  unique keys. A `sparse_index` is the case without further keys.

The multi-index container never holds two objects with an equal unique key, so `MultiIndex` carries
that fact as a field. What it does when a modification would break uniqueness is what the source
relies on Boost for: the element is erased and the call reports failure.

Constructors and modifiers are total functions of the old value. Instance numbers are natural
numbers; the source packs them in 48 bits.
-/

namespace Whitecoin.Db

/-- An object id: `spaceType` is the space and type packed together, `inst` the instance. -/
structure ObjectId where
  spaceType : ℕ
  inst : ℕ
  deriving DecidableEq, Repr

instance : Ord ObjectId :=
  ⟨compareLex (compareOn ObjectId.spaceType) (compareOn ObjectId.inst)⟩

instance : Std.TransOrd ObjectId :=
  inferInstanceAs
    (Std.TransCmp (compareLex (compareOn ObjectId.spaceType) (compareOn ObjectId.inst)))

instance : Std.LawfulEqOrd ObjectId where
  eq_of_compare {a b} h := by
    have h' : (compare a.spaceType b.spaceType).then (compare a.inst b.inst) = .eq := h
    rw [Ordering.then_eq_eq, Nat.compare_eq_eq, Nat.compare_eq_eq] at h'
    cases a
    cases b
    simpa using h'

/-! ### The multi-index container -/

/-- Two objects share the value of one of the unique keys. -/
def clash {V K : Type} [DecidableEq K] (keys : List (ℕ → V → K)) (i : ℕ) (v : V) (j : ℕ) (w : V) :
    Bool :=
  keys.any fun key => decide (key i v = key j w)

/-- A Boost multi-index container addressed by instance, with further unique keys. -/
structure MultiIndex (V K : Type) [DecidableEq K] where
  /-- The key extractors of the unique indices other than the id. -/
  keys : List (ℕ → V → K)
  /-- The elements, by instance. -/
  items : Std.ExtTreeMap ℕ V compare
  /-- No two elements share a unique key. -/
  unique : ∀ i j v w, items[i]? = some v → items[j]? = some w → i ≠ j → clash keys i v j w = false

namespace MultiIndex

variable {V K : Type} [DecidableEq K]

theorem clash_comm (keys : List (ℕ → V → K)) (i : ℕ) (v : V) (j : ℕ) (w : V) :
    clash keys i v j w = clash keys j w i v := by
  simp only [clash, eq_comm]

/-- Some other element has a unique key in common with `v`. -/
def collides (m : MultiIndex V K) (i : ℕ) (v : V) : Bool :=
  m.items.toList.any fun p => decide (p.1 ≠ i) && clash m.keys i v p.1 p.2

variable {m : MultiIndex V K} {i : ℕ} {v : V}

theorem collides_iff :
    m.collides i v = true ↔ ∃ j w, m.items[j]? = some w ∧ j ≠ i ∧ clash m.keys i v j w = true := by
  simp only [collides, List.any_eq_true, Prod.exists, Std.ExtTreeMap.mem_toList_iff_getElem?_eq_some,
    Bool.and_eq_true, decide_eq_true_eq]

/-- The container without elements. -/
def blank (keys : List (ℕ → V → K)) : MultiIndex V K := ⟨keys, ∅, by simp⟩

/-- Put `v` under the instance `i`, which keeps the keys unique. -/
def put (m : MultiIndex V K) (i : ℕ) (v : V) (h : m.collides i v = false) : MultiIndex V K where
  keys := m.keys
  items := m.items.insert i v
  unique := by
    have hno : ∀ j w, m.items[j]? = some w → j ≠ i → clash m.keys i v j w = false := by
      intro j w hj hne
      by_contra hcl
      have := collides_iff.2 ⟨j, w, hj, hne, by simpa using hcl⟩
      simp [h] at this
    intro a b x y ha hb hab
    simp only [Std.ExtTreeMap.getElem?_insert, Nat.compare_eq_eq] at ha hb
    split at ha <;> split at hb
    · omega
    · obtain rfl : v = x := by simpa using ha
      subst_vars
      exact hno b y hb (Ne.symm hab)
    · obtain rfl : v = y := by simpa using hb
      subst_vars
      rw [clash_comm]
      exact hno a x ha hab
    · exact m.unique a b x y ha hb hab

/-- Erase the element of instance `i`. -/
def erase (m : MultiIndex V K) (i : ℕ) : MultiIndex V K where
  keys := m.keys
  items := m.items.erase i
  unique := by
    intro a b x y ha hb hab
    simp only [Std.ExtTreeMap.getElem?_erase, Nat.compare_eq_eq] at ha hb
    split at ha <;> split at hb <;> simp_all
    exact m.unique a b x y ha hb hab

theorem getElem?_put (h : m.collides i v = false) (j : ℕ) :
    (m.put i v h).items[j]? = if j = i then some v else m.items[j]? := by
  simp only [put, Std.ExtTreeMap.getElem?_insert, Nat.compare_eq_eq, @eq_comm _ i j]

theorem getElem?_erase (m : MultiIndex V K) (i j : ℕ) :
    (m.erase i).items[j]? = if j = i then none else m.items[j]? := by
  simp only [erase, Std.ExtTreeMap.getElem?_erase, Nat.compare_eq_eq, @eq_comm _ i j]

end MultiIndex

/-! ### The two containers behind an index -/

/-- The container a primary index derives from. -/
inductive Derived (V K : Type) [DecidableEq K] where
  /-- `simple_index`: a vector of pointers. -/
  | simple (objects : List (Option V))
  /-- `generic_index`: a multi-index container. -/
  | generic (indices : MultiIndex V K)

namespace Derived

variable {V K : Type} [DecidableEq K]

/-- `vector::resize` to at least `n` entries, the new ones null. -/
def resize (l : List (Option V)) (n : ℕ) : List (Option V) :=
  l ++ List.replicate (n - l.length) none

/-- The unique keys other than the id; a vector has none. -/
def keys : Derived V K → List (ℕ → V → K)
  | simple _ => []
  | generic m => m.keys

def find : Derived V K → ℕ → Option V
  | simple l, i => (l[i]?).join
  | generic m, i => m.items[i]?

/-- Create the object of instance `i`, the next id. A multi-index container rejects it when the id
is taken or a unique key is. -/
def create (c : Derived V K) (i : ℕ) (v : V) : Outcome String (Derived V K) :=
  match c with
  | simple l => .ok (simple ((resize l (i + 1)).set i (some v)))
  | generic m =>
    if h : m.collides i v = false ∧ m.items[i]? = none then .ok (generic (m.put i v h.1))
    else .threw "Could not create object! Most likely a uniqueness constraint is violated." c

/-- Give the object of instance `i` the value `v`. When that breaks uniqueness, a multi-index
container erases the object. -/
def modify (c : Derived V K) (i : ℕ) (v : V) : Outcome String (Derived V K) :=
  match c with
  | simple l => .ok (simple (l.set i (some v)))
  | generic m =>
    if h : m.collides i v = false then .ok (generic (m.put i v h))
    else .threw "Could not modify object, most likely a index constraint was violated"
      (generic (m.erase i))

/-- Insert an object that already has an id. -/
def insert (c : Derived V K) (i : ℕ) (v : V) : Outcome String (Derived V K) :=
  match c with
  | simple l => .ok (simple ((resize l (i + 1)).set i (some v)))
  | generic m =>
    if h : m.collides i v = false ∧ m.items[i]? = none then .ok (generic (m.put i v h.1))
    else .threw "Could not insert object, most likely a uniqueness constraint was violated" c

/-- Remove the object of instance `i`; a vector then drops its trailing null pointers. -/
def remove (c : Derived V K) (i : ℕ) : Derived V K :=
  match c with
  | simple l => simple ((l.set i none).rdropWhile Option.isNone)
  | generic m => generic (m.erase i)

/-- Some other object of the container has a unique key in common with `v`. -/
def Collides (c : Derived V K) (i : ℕ) (v : V) : Prop :=
  ∃ j w, c.find j = some w ∧ j ≠ i ∧ clash c.keys i v j w = true

variable {i : ℕ} {v old : V} {l : List (Option V)} {c c' : Derived V K}

theorem collides_generic {m : MultiIndex V K} : (generic m).Collides i v ↔ m.collides i v = true :=
  MultiIndex.collides_iff.symm

theorem not_collides_simple : ¬ (simple l : Derived V K).Collides i v := by
  rintro ⟨j, w, -, -, h⟩
  simp [keys, clash] at h

theorem clash_eq_false (c : Derived V K) {j : ℕ} {w : V} (hi : c.find i = some v)
    (hj : c.find j = some w) (hne : i ≠ j) : clash c.keys i v j w = false := by
  cases c with
  | simple l => simp [keys, clash]
  | generic m => exact m.unique i j v w hi hj hne

/-! ### Lookups in the vector -/

theorem getElem?_resize_join (l : List (Option V)) (n i : ℕ) :
    ((resize l n)[i]?).join = (l[i]?).join := by
  rw [resize, List.getElem?_append]
  split
  · rfl
  · rename_i h
    rw [List.getElem?_replicate, List.getElem?_eq_none (l := l) (by omega)]
    split <;> rfl

theorem getElem?_set_join (l : List (Option V)) (i j : ℕ) (o : Option V) (hi : i < l.length) :
    ((l.set i o)[j]?).join = if j = i then o else (l[j]?).join := by
  rw [List.getElem?_set]
  by_cases h : i = j
  · subst h
    simp [hi]
  · simp [h, Ne.symm h]

theorem getElem?_rdropWhile_join (l : List (Option V)) (i : ℕ) :
    ((l.rdropWhile Option.isNone)[i]?).join = (l[i]?).join := by
  induction l using List.reverseRecOn with
  | nil => simp
  | append_singleton l o ih =>
    rw [List.rdropWhile_concat]
    cases o with
    | some v => simp
    | none =>
      simp only [Option.isNone_none, if_true, ih, List.getElem?_append]
      split
      · rfl
      · rename_i h
        rw [List.getElem?_eq_none (l := l) (by omega)]
        cases i - l.length <;> simp

theorem lt_length_of_find (hi : (simple l : Derived V K).find i = some v) : i < l.length := by
  by_contra hle
  simp [find, List.getElem?_eq_none (l := l) (i := i) (by omega)] at hi

/-! ### What each operation does to every lookup -/

theorem find_create (h : c.create i v = .ok c') (j : ℕ) :
    c'.find j = if j = i then some v else c.find j := by
  cases c with
  | simple l =>
    obtain rfl : simple _ = c' := by simpa [create] using h
    have hlen : i < (resize l (i + 1)).length := by simp [resize]; omega
    simp only [find, getElem?_set_join _ _ _ _ hlen, getElem?_resize_join]
  | generic m =>
    simp only [create] at h
    split at h
    · obtain rfl : generic _ = c' := by simpa using h
      exact MultiIndex.getElem?_put _ j
    · simp at h

theorem keys_create (c : Derived V K) (i : ℕ) (v : V) : (c.create i v).state.keys = c.keys := by
  cases c with
  | simple l => rfl
  | generic m =>
    simp only [create]
    split <;> rfl

theorem create_threw {e : String} (h : c.create i v = .threw e c') : c' = c := by
  cases c with
  | simple l => simp [create] at h
  | generic m =>
    simp only [create] at h
    split at h
    · simp at h
    · simp only [Outcome.threw.injEq] at h
      exact h.2.symm

theorem find_modify (hi : c.find i = some old) (v : V) (j : ℕ) :
    (c.modify i v).state.find j =
      if j = i then (if (c.modify i v).isOk then some v else none) else c.find j := by
  cases c with
  | simple l =>
    have hlen : i < l.length := lt_length_of_find hi
    simp only [modify, Outcome.state_ok, Outcome.isOk_ok, if_true, find,
      getElem?_set_join _ _ _ _ hlen]
  | generic m =>
    simp only [modify]
    split
    · simpa [find] using MultiIndex.getElem?_put _ j
    · simpa [find] using MultiIndex.getElem?_erase m i j

theorem keys_modify (c : Derived V K) (i : ℕ) (v : V) : (c.modify i v).state.keys = c.keys := by
  cases c with
  | simple l => rfl
  | generic m =>
    simp only [modify]
    split <;> rfl

theorem modify_isOk : (c.modify i v).isOk = true ↔ ¬ c.Collides i v := by
  cases c with
  | simple l => simpa [modify] using not_collides_simple
  | generic m =>
    rw [collides_generic]
    simp only [modify]
    split <;> simp_all

theorem find_insert (h : c.insert i v = .ok c') (j : ℕ) :
    c'.find j = if j = i then some v else c.find j := by
  cases c with
  | simple l =>
    obtain rfl : simple _ = c' := by simpa [insert] using h
    have hlen : i < (resize l (i + 1)).length := by simp [resize]; omega
    simp only [find, getElem?_set_join _ _ _ _ hlen, getElem?_resize_join]
  | generic m =>
    simp only [insert] at h
    split at h
    · obtain rfl : generic _ = c' := by simpa using h
      exact MultiIndex.getElem?_put _ j
    · simp at h

theorem keys_insert (c : Derived V K) (i : ℕ) (v : V) : (c.insert i v).state.keys = c.keys := by
  cases c with
  | simple l => rfl
  | generic m =>
    simp only [insert]
    split <;> rfl

theorem insert_isOk (hi : c.find i = none) (h : ¬ c.Collides i v) : (c.insert i v).isOk = true := by
  cases c with
  | simple l => rfl
  | generic m =>
    rw [collides_generic] at h
    have hi' : m.items[i]? = none := hi
    simp [insert, h, hi']

theorem find_remove (hi : c.find i = some old) (j : ℕ) :
    (c.remove i).find j = if j = i then none else c.find j := by
  cases c with
  | simple l =>
    have hlen : i < l.length := lt_length_of_find hi
    simp only [remove, find, getElem?_rdropWhile_join, getElem?_set_join _ _ _ _ hlen]
  | generic m => exact MultiIndex.getElem?_erase m i j

theorem keys_remove (c : Derived V K) (i : ℕ) : (c.remove i).keys = c.keys := by
  cases c <;> rfl

end Derived

/-- A primary index: its container and the instance of the next object it creates. -/
structure PrimaryIndex (V K : Type) [DecidableEq K] where
  derived : Derived V K
  nextId : ℕ

end Whitecoin.Db
