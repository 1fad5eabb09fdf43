import Whitecoin.Cbor.Decode

/-!
# Diffs of storage values

`CborDiff::diff` describes the change of a value as another value. A scalar that changes, or a value
that changes its type, gives `{__old, __new}`. A map gives a map with the entries `k__deleted`,
`k__added` and, for a key on both sides, the diff of the two values at the key itself. An array
gives a list of `["-", i, x]`, `["+", i, x]` and `["~", i, d]`, compared position by position.
-/

namespace Whitecoin.Cbor

open Check

/-- `CborObjectType`. -/
inductive CborObjectType where
  | bool
  | int
  | bytes
  | string
  | array
  | map
  | tag
  | undefined
  | null
  | extraInt
  | extraTag
  deriving DecidableEq

namespace CborObject

/-- `object_type`. -/
def objectType : CborObject → CborObjectType
  | .null => .null
  | .undefined => .undefined
  | .bool _ => .bool
  | .int _ => .int
  | .extraInt _ _ => .extraInt
  | .bytes _ => .bytes
  | .string _ => .string
  | .array _ => .array
  | .map _ => .map
  | .tag _ => .tag
  | .extraTag _ => .extraTag

/-- `is_null`. -/
def isNull (v : CborObject) : Bool := v.objectType = .null

/-- `is_scalar_cbor_value_type`. -/
def isScalar (v : CborObject) : Bool := v.objectType ≠ .array && v.objectType ≠ .map

end CborObject

/-! ### Markers -/

/-- `CBORDIFF_KEY_ADDED_POSTFIX`. -/
def addedPostfix : Text := text "__added"

/-- `CBORDIFF_KEY_DELETED_POSTFIX`. -/
def deletedPostfix : Text := text "__deleted"

/-- `CBORDIFF_KEY_OLD_VALUE`. -/
def oldKey : Text := text "__old"

/-- `CBORDIFF_KEY_NEW_VALUE`. -/
def newKey : Text := text "__new"

/-! ### The diff -/

/-- `DiffResult`. -/
structure DiffResult where
  value : CborObject
  isUndefined : Bool

namespace DiffResult

/-- `DiffResult::DiffResult`. -/
def ofValue (v : CborObject) : DiffResult := ⟨v, v.isNull⟩

/-- `make_undefined_diff_result`. -/
def undefined : DiffResult := ⟨.undefined, true⟩

end DiffResult

/-- The value that stands for a replacement. -/
def replacement (old new : CborObject) : CborObject :=
  .map (OrdMap.set (OrdMap.set [] oldKey old) newKey new)

/-- The diff of two values of which one is a scalar or that are of different types. -/
def diffScalar (old new : CborObject) : Except String DiffResult :=
  if old.objectType = new.objectType then
    match old, new with
    | .string s, .string t =>
      .ok (if s = t then .undefined else .ofValue (replacement old new))
    | _, _ => do
      let oldBytes ← cborEncode old
      let newBytes ← cborEncode new
      pure (if oldBytes = newBytes then .undefined else .ofValue (replacement old new))
  else .ok (.ofValue (replacement old new))

/-- An entry of the diff of two arrays. -/
def edit (op : String) (i : ℕ) (v : CborObject) : CborObject :=
  .array [.string (text op), .int (Int64.ofNat i), v]

/-- The entries for the items that only the second array has. -/
def addedItems (i : ℕ) : List CborObject → List CborObject
  | [] => []
  | v :: items => edit "+" i v :: addedItems (i + 1) items

/-- The entries for the keys that only the second map has. -/
def addedEntries (a b diffJson : List (Text × CborObject)) : List (Text × CborObject) :=
  b.foldl (fun diffJson e =>
    if OrdMap.get? a e.1 = none then OrdMap.set diffJson (e.1 ++ addedPostfix) e.2 else diffJson)
    diffJson

mutual

/-- `CborDiff::diff`. The source throws for the types it does not know, of which there is none
here. -/
def diff : CborObject → CborObject → Except String DiffResult
  | .map a, .map b => do
    let diffJson := addedEntries a b (← diffEntries b [] a)
    pure (if diffJson = [] then .undefined else .ofValue (.map diffJson))
  | .array a, .array b => do
    let diffJson ← diffItems 0 a b
    pure (if diffJson = [] then .undefined else .ofValue (.array diffJson))
  | old, new => diffScalar old new
termination_by structural l => l

/-- The loop over the first map. -/
def diffEntries (b diffJson : List (Text × CborObject)) :
    List (Text × CborObject) → Except String (List (Text × CborObject))
  | [] => .ok diffJson
  | (k, v) :: a =>
    match OrdMap.get? b k with
    | none => diffEntries b (OrdMap.set diffJson (k ++ deletedPostfix) v) a
    | some w => do
      let d ← diff v w
      if d.isUndefined then diffEntries b diffJson a
      else diffEntries b (OrdMap.set diffJson k d.value) a
termination_by structural l => l

/-- The loops over the two arrays. -/
def diffItems (i : ℕ) : List CborObject → List CborObject → Except String (List CborObject)
  | [], b => .ok (addedItems i b)
  | v :: a, [] => do pure (edit "-" i v :: (← diffItems (i + 1) a []))
  | v :: a, w :: b => do
    let d ← diff v w
    let rest ← diffItems (i + 1) a b
    pure (if d.isUndefined then rest else edit "~" i d.value :: rest)
termination_by structural l => l

end

end Whitecoin.Cbor
