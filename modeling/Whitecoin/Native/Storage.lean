import Mathlib.Logic.Function.Basic
import Whitecoin.Cbor.Diff
import Whitecoin.Cbor.RoundTrip

/-!
# The storage of a native contract

A contract keeps CBOR values under names. During a call it works on an overlay over the storage of
the chain. Every assignment also records the diff between the value of the chain and the new one, so
it decodes both and fails if one of them cannot be decoded. The overlay becomes the storage when the
call returns, and is dropped when it throws.

A name that was never assigned holds the encoding of null.
-/

namespace Whitecoin.Native

open Check Cbor

/-- The bytes of a contract's storage. -/
abbrev Storage := Text → List UInt8

/-- The storage of a new contract. -/
def Storage.empty : Storage := fun _ => writeCborObject .null

/-- What a call sees: the storage of the chain, and the values after the changes so far. -/
structure Overlay where
  base : Storage
  current : Storage

/-- A storage as a call that changes nothing sees it. -/
def Storage.view (s : Storage) : Overlay := ⟨s, s⟩

namespace Overlay

/-- `get_contract_storage_cbor`. -/
def get (o : Overlay) (name : Text) : Except String CborObject :=
  cborDecode (o.current name)

/-- `set_contract_storage`. -/
def set (o : Overlay) (name : Text) (value : CborObject) : Except String Overlay := do
  let after ← cborEncode value
  let beforeCbor ← cborDecode (o.base name)
  let afterCbor ← cborDecode after
  let diff ← diff beforeCbor afterCbor
  let _ ← cborEncode diff.value
  pure { o with current := Function.update o.current name after }

/-- Several assignments, one after the other. -/
def setAll (o : Overlay) (entries : List (Text × CborObject)) : Except String Overlay :=
  entries.foldlM (fun o e => o.set e.1 e.2) o

/-- `get_string_contract_storage`. -/
def getString (o : Overlay) (name : Text) : Except String Text := do
  match ← o.get name with
  | .string s => pure s
  | _ => .error "invalid string contract storage"

/-- `get_int_contract_storage`. -/
def getInt (o : Overlay) (name : Text) : Except String Int64 := do
  let value ← o.get name
  require value.isInteger "invalid int contract storage"
  value.forceAsInt

end Overlay

/-- The name of an entry of a fast map. -/
def fastMapKey (storageName : String) (key : Text) : Text := text storageName ++ text "." ++ key

namespace Overlay

/-- `fast_map_get`. -/
def fastMapGet (o : Overlay) (storageName : String) (key : Text) : Except String CborObject :=
  o.get (fastMapKey storageName key)

/-- `fast_map_set`. -/
def fastMapSet (o : Overlay) (storageName : String) (key : Text) (value : CborObject) :
    Except String Overlay :=
  o.set (fastMapKey storageName key) value

end Overlay

namespace Token

/-- An integer that was read, or zero. -/
def orZero : Except String Int64 → ℤ
  | .ok n => n.toInt
  | .error _ => 0

end Token

/-- A call on a storage. -/
def perform (call : Overlay → Except String Overlay) (s : Storage) : Except String Storage := do
  pure (← call ⟨s, s⟩).current

theorem perform_eq_ok {call : Overlay → Except String Overlay} {s s' : Storage} :
    perform call s = .ok s' ↔ ∃ o, call ⟨s, s⟩ = .ok o ∧ o.current = s' := by
  simp only [perform, bind_eq_ok, pure_eq_ok]

theorem fastMapKey_inj {storageName : String} {k k' : Text}
    (h : fastMapKey storageName k = fastMapKey storageName k') : k = k' :=
  List.append_cancel_left h

/-! ### Reading what was assigned -/

namespace Overlay

variable {o o' : Overlay} {name : Text} {value : CborObject}

theorem set_eq_ok (h : o.set name value = .ok o') :
    (writeCborObject value).length ≤ outputLimit ∧
      (∃ w, cborDecode (writeCborObject value) = .ok w) ∧
      o' = { o with current := Function.update o.current name (writeCborObject value) } := by
  simp only [set, bind_eq_ok, pure_eq_ok] at h
  obtain ⟨after, hencode, -, -, w, hafter, -, -, -, -, rfl⟩ := h
  obtain ⟨rfl, hle⟩ := cborEncode_eq_ok.mp hencode
  exact ⟨hle, ⟨w, hafter⟩, rfl⟩

theorem get_set_self (h : o.set name value = .ok o') :
    o'.get name = cborDecode (writeCborObject value) := by
  obtain ⟨-, -, rfl⟩ := set_eq_ok h
  simp only [get, Function.update_self]

theorem get_set_of_ne (h : o.set name value = .ok o') {other : Text} (hne : other ≠ name) :
    o'.get other = o.get other := by
  obtain ⟨-, -, rfl⟩ := set_eq_ok h
  simp only [get, Function.update_of_ne hne]

/-- **A value without large negative integers is read back as the decoder makes it.** -/
theorem get_set (h : o.set name value = .ok o') (hv : value.Storable)
    (hneg : ∀ n ∈ value.integers, -2 ^ 32 ≤ n) : o'.get name = .ok (decoded value) := by
  obtain ⟨hle, ⟨w, hw⟩, -⟩ := set_eq_ok h
  rw [get_set_self h, hw, eq_decoded_of_decode hv hneg hle hw]

variable {entries : List (Text × CborObject)} {n : Int64}

theorem get_setAll_of_notMem (h : o.setAll entries = .ok o') (hname : ∀ e ∈ entries, name ≠ e.1) :
    o'.get name = o.get name := by
  induction entries generalizing o with
  | nil =>
    obtain rfl := pure_eq_ok.mp h
    rfl
  | cons e entries ih =>
    obtain ⟨hne, hname⟩ := List.forall_mem_cons.mp hname
    rw [setAll, List.foldlM_cons, bind_eq_ok] at h
    obtain ⟨o₁, hset, h⟩ := h
    rw [ih h hname, get_set_of_ne hset hne]

theorem get_setAll_of_mem (name : Text) (value : CborObject) (h : o.setAll entries = .ok o')
    (hmem : (name, value) ∈ entries) (hnames : (entries.map Prod.fst).Nodup) :
    ∃ o₁ o₂ : Overlay, o₁.set name value = .ok o₂ ∧ o'.get name = o₂.get name := by
  induction entries generalizing o with
  | nil => simp at hmem
  | cons e entries ih =>
    obtain ⟨hne, hnames⟩ := List.nodup_cons.mp hnames
    rw [setAll, List.foldlM_cons, bind_eq_ok] at h
    obtain ⟨o₁, hset, h⟩ := h
    rcases List.mem_cons.mp hmem with rfl | hmem
    · refine ⟨o, o₁, hset, get_setAll_of_notMem h fun e he heq => hne ?_⟩
      exact List.mem_map.mpr ⟨e, he, heq.symm⟩
    · exact ih h hmem hnames

/-- The integer that is read after `n` was assigned. -/
def readInt (n : Int64) : Int64 := if n.toInt = -2 ^ 32 then 0 else n

theorem get_set_int (h : o.set name (.int n) = .ok o') :
    ∃ w, o'.get name = .ok w ∧ w.isInteger = true ∧ w.forceAsInt = .ok (readInt n) := by
  rw [get_set_self h]
  exact cborDecode_int n

theorem readInt_of_nonneg (h : 0 ≤ n.toInt) : readInt n = n :=
  if_neg (by omega)

/-! ### Texts and integers -/

theorem getString_congr (h : o'.get name = o.get name) : o'.getString name = o.getString name := by
  rw [getString, getString, h]

theorem getInt_congr (h : o'.get name = o.get name) : o'.getInt name = o.getInt name := by
  rw [getInt, getInt, h]

theorem getString_set {v : Text} (h : o.set name (.string v) = .ok o') :
    o'.getString name = .ok v := by
  rw [getString, get_set h trivial (by simp [CborObject.integers])]
  rfl

theorem getInt_set (h : o.set name (.int n) = .ok o') (hn : 0 ≤ n.toInt) :
    o'.getInt name = .ok n := by
  obtain ⟨w, hw, hint, hforce⟩ := get_set_int h
  rw [readInt_of_nonneg hn] at hforce
  rw [getInt, hw]
  simp only [bind, Except.bind, require, hint, if_true, hforce]

theorem getString_setAll (name v : Text) (h : o.setAll entries = .ok o')
    (hmem : (name, .string v) ∈ entries) (hnames : (entries.map Prod.fst).Nodup) :
    o'.getString name = .ok v := by
  obtain ⟨o₁, o₂, hset, hget⟩ := get_setAll_of_mem name (.string v) h hmem hnames
  rw [getString_congr hget, getString_set hset]

theorem getInt_setAll (name : Text) (hn : 0 ≤ n.toInt) (h : o.setAll entries = .ok o')
    (hmem : (name, .int n) ∈ entries) (hnames : (entries.map Prod.fst).Nodup) :
    o'.getInt name = .ok n := by
  obtain ⟨o₁, o₂, hset, hget⟩ := get_setAll_of_mem name (.int n) h hmem hnames
  rw [getInt_congr hget, getInt_set hset hn]

end Overlay

end Whitecoin.Native
