import Mathlib.Data.Int.Notation
import Mathlib.Data.Nat.Notation
import Whitecoin.Lib.Check
import Whitecoin.Lib.OrdMap

/-!
# CBOR objects

The values that contracts keep in their storage. An integer has two representations: a plain one of
64 bits with a sign, and the *extra* integer, a magnitude of 64 bits beside a sign. Which of the two
a value has depends on where it comes from, so trees are compared by what they stand for.

Doubles are left out: no contract of the chain stores one.
-/

namespace Whitecoin.Cbor

open Check

/-- `std::string`: bytes. -/
abbrev Text := List UInt8

/-- A text of the source. -/
def text (s : String) : Text := s.toList.map fun c => UInt8.ofNat c.toNat

/-- `CborObject`. A map is the list of its entries in the order of `std::map`. -/
inductive CborObject where
  | null
  | undefined
  | bool (b : Bool)
  | int (n : Int64)
  | extraInt (n : UInt64) (isPositive : Bool)
  | bytes (b : List UInt8)
  | string (s : Text)
  | array (items : List CborObject)
  | map (items : List (Text × CborObject))
  | tag (n : UInt32)
  | extraTag (n : UInt64)

/-- What an object stands for: integers are numbers. -/
inductive Value where
  | null
  | undefined
  | bool (b : Bool)
  | int (n : ℤ)
  | bytes (b : List UInt8)
  | string (s : Text)
  | array (items : List Value)
  | map (items : List (Text × Value))
  | tag (n : ℕ)

namespace CborObject

@[elab_as_elim, induction_eliminator]
theorem induction {P : CborObject → Prop} (null : P null) (undefined : P undefined)
    (bool : ∀ b, P (bool b)) (int : ∀ n, P (int n)) (extraInt : ∀ n p, P (extraInt n p))
    (bytes : ∀ b, P (bytes b)) (string : ∀ s, P (string s))
    (array : ∀ items, (∀ v ∈ items, P v) → P (array items))
    (map : ∀ items, (∀ e ∈ items, P e.2) → P (map items))
    (tag : ∀ n, P (tag n)) (extraTag : ∀ n, P (extraTag n)) (v : CborObject) : P v :=
  match v with
  | .null => null
  | .undefined => undefined
  | .bool b => bool b
  | .int n => int n
  | .extraInt n p => extraInt n p
  | .bytes b => bytes b
  | .string s => string s
  | .array items => array items fun v _ =>
      induction null undefined bool int extraInt bytes string array map tag extraTag v
  | .map items => map items fun e _ =>
      induction null undefined bool int extraInt bytes string array map tag extraTag e.2
  | .tag n => tag n
  | .extraTag n => extraTag n
termination_by sizeOf v
decreasing_by
  · have := List.sizeOf_lt_of_mem ‹v ∈ items›
    simp only [CborObject.array.sizeOf_spec]
    omega
  · have := List.sizeOf_lt_of_mem ‹e ∈ items›
    have : sizeOf e = 1 + sizeOf e.1 + sizeOf e.2 := rfl
    simp only [CborObject.map.sizeOf_spec]
    omega

mutual

/-- What the object stands for. -/
def value : CborObject → Value
  | .null => .null
  | .undefined => .undefined
  | .bool b => .bool b
  | .int n => .int n.toInt
  | .extraInt n p => .int (if p then n.toNat else -n.toNat)
  | .bytes b => .bytes b
  | .string s => .string s
  | .array items => .array (itemValues items)
  | .map items => .map (entryValues items)
  | .tag n => .tag n.toNat
  | .extraTag n => .tag n.toNat

def itemValues : List CborObject → List Value
  | [] => []
  | v :: items => v.value :: itemValues items

def entryValues : List (Text × CborObject) → List (Text × Value)
  | [] => []
  | (k, v) :: items => (k, v.value) :: entryValues items

end

@[simp] theorem itemValues_eq (items : List CborObject) : itemValues items = items.map value := by
  induction items with
  | nil => rfl
  | cons v items ih => simp [itemValues, ih]

@[simp] theorem entryValues_eq (items : List (Text × CborObject)) :
    entryValues items = items.map fun e => (e.1, e.2.value) := by
  induction items with
  | nil => rfl
  | cons e items ih => simp [entryValues, ih]

mutual

/-- The integers in a tree. -/
def integers : CborObject → List ℤ
  | .int n => [n.toInt]
  | .extraInt n p => [if p then n.toNat else -n.toNat]
  | .array items => itemIntegers items
  | .map items => entryIntegers items
  | _ => []

def itemIntegers : List CborObject → List ℤ
  | [] => []
  | v :: items => v.integers ++ itemIntegers items

def entryIntegers : List (Text × CborObject) → List ℤ
  | [] => []
  | (_, v) :: items => v.integers ++ entryIntegers items

end

@[simp] theorem itemIntegers_eq (items : List CborObject) :
    itemIntegers items = items.flatMap integers := by
  induction items with
  | nil => rfl
  | cons v items ih => simp [itemIntegers, ih]

@[simp] theorem entryIntegers_eq (items : List (Text × CborObject)) :
    entryIntegers items = items.flatMap fun e => e.2.integers := by
  induction items with
  | nil => rfl
  | cons e items ih => simp [entryIntegers, ih]

mutual

/-- The trees of integers, strings, byte strings, booleans, null, arrays and maps. An extra integer
is one of `uint64_t`, and the keys of a map are in their order. -/
def Storable : CborObject → Prop
  | .undefined | .tag _ | .extraTag _ => False
  | .extraInt _ p => p = true
  | .array items => ItemsStorable items
  | .map items => OrdMap.Sorted items ∧ EntriesStorable items
  | _ => True

def ItemsStorable : List CborObject → Prop
  | [] => True
  | v :: items => v.Storable ∧ ItemsStorable items

def EntriesStorable : List (Text × CborObject) → Prop
  | [] => True
  | (_, v) :: items => v.Storable ∧ EntriesStorable items

end

@[simp] theorem itemsStorable_iff {items : List CborObject} :
    ItemsStorable items ↔ ∀ v ∈ items, v.Storable := by
  induction items with
  | nil => simp [ItemsStorable]
  | cons v items ih => simp [ItemsStorable, ih]

@[simp] theorem entriesStorable_iff {items : List (Text × CborObject)} :
    EntriesStorable items ↔ ∀ e ∈ items, e.2.Storable := by
  induction items with
  | nil => simp [EntriesStorable]
  | cons e items ih => simp [EntriesStorable, ih]

/-! ### Reading an object -/

/-- `is_integer`. -/
def isInteger : CborObject → Bool
  | .int _ | .extraInt _ _ => true
  | _ => false

/-- `is_map`. -/
def isMap : CborObject → Bool
  | .map _ => true
  | _ => false

/-- `force_as_int`. -/
def forceAsInt : CborObject → Except String Int64
  | .int n => .ok n
  | .extraInt n p =>
    let extraIntVal := n.toInt64
    .ok (if p then extraIntVal else if 0 ≤ extraIntVal then -extraIntVal else extraIntVal)
  | _ => .error "this cbor_object with can't be passed as int"

/-- `as_map`: empty for an object of another type. -/
def asMap : CborObject → List (Text × CborObject)
  | .map items => items
  | _ => []

end CborObject

end Whitecoin.Cbor
