import Whitecoin.Lib.BigEndian
import Whitecoin.Cbor.Object

/-!
# The CBOR encoder

An item begins with a byte that holds its major type and, in the low five bits, a small number or
the width of the number that follows. Integers are written by their magnitude, strings and
containers by their size before their contents.

The output buffer counts its capacity in 32 bits and doubles it when it is full. At `2 ^ 31` bytes
that gives zero, so no output is longer.
-/

namespace Whitecoin.Cbor

open Check

/-- The first byte of an item. -/
def initial (majorType minorType : ℕ) : UInt8 := UInt8.ofNat (majorType * 32 + minorType)

/-- The widths of a number that follows the first byte. -/
inductive Width where
  | one
  | two
  | four
  | eight
  deriving DecidableEq

namespace Width

/-- The low bits of the first byte. -/
def minorType : Width → ℕ
  | one => 24
  | two => 25
  | four => 26
  | eight => 27

/-- The number of bytes. -/
def size : Width → ℕ
  | one => 1
  | two => 2
  | four => 4
  | eight => 8

/-- The width the encoder takes. -/
def of (value : ℕ) : Width :=
  if value < 256 then one
  else if value < 65536 then two
  else if value < 4294967296 then four
  else eight

theorem minorType_lt (w : Width) : w.minorType < 32 := by
  cases w <;> decide

theorem le_minorType (w : Width) : 24 ≤ w.minorType := by
  cases w <;> decide

end Width

/-- `write_type_value`. The overload for 32 bits writes the same, since its values need no more than
four bytes. -/
def writeTypeValue (majorType value : ℕ) : List UInt8 :=
  if value < 24 then [initial majorType value]
  else if value < 256 then initial majorType 24 :: BigEndian.bytes 1 value
  else if value < 65536 then initial majorType 25 :: BigEndian.bytes 2 value
  else if value < 4294967296 then initial majorType 26 :: BigEndian.bytes 4 value
  else initial majorType 27 :: BigEndian.bytes 8 value

/-- The conversion of a size to `unsigned int`. -/
def unsignedInt (n : ℕ) : ℕ := n % 2 ^ 32

/-- `write_int`. -/
def writeInt (n : Int64) : List UInt8 :=
  if n < 0 then writeTypeValue 1 (-(n.toInt + 1)).toNat else writeTypeValue 0 n.toInt.toNat

/-- `write_bytes`. -/
def writeBytes (b : List UInt8) : List UInt8 := writeTypeValue 2 (unsignedInt b.length) ++ b

/-- `write_string`. -/
def writeString (s : Text) : List UInt8 := writeTypeValue 3 (unsignedInt s.length) ++ s

mutual

/-- `write_cbor_object`. -/
def writeCborObject : CborObject → List UInt8
  | .null => [0xf6]
  | .undefined => [0xf7]
  | .bool b => [if b then 0xf5 else 0xf4]
  | .int n => writeInt n
  | .extraInt n isPositive => writeTypeValue (if isPositive then 0 else 1) n.toNat
  | .string s => writeString s
  | .bytes b => writeBytes b
  | .tag n => writeTypeValue 6 n.toNat
  -- `write_tag` takes an `unsigned int`
  | .extraTag n => writeTypeValue 6 (unsignedInt n.toNat)
  | .array items => writeTypeValue 4 (unsignedInt items.length) ++ writeItems items
  | .map items => writeTypeValue 5 (unsignedInt items.length) ++ writeEntries items

def writeItems : List CborObject → List UInt8
  | [] => []
  | v :: items => writeCborObject v ++ writeItems items

def writeEntries : List (Text × CborObject) → List UInt8
  | [] => []
  | (k, v) :: items => writeString k ++ (writeCborObject v ++ writeEntries items)

end

/-- The bytes that `output_dynamic` can hold. -/
def outputLimit : ℕ := 2 ^ 31

/-- `cbor_encode`. -/
def cborEncode (v : CborObject) : Except String (List UInt8) := do
  require ((writeCborObject v).length ≤ outputLimit) "output_dynamic cannot grow"
  pure (writeCborObject v)

theorem cborEncode_eq_ok {v : CborObject} {l : List UInt8} :
    cborEncode v = .ok l ↔ l = writeCborObject v ∧ l.length ≤ outputLimit := by
  simp only [cborEncode, bind_eq_ok, require_eq_ok, exists_const, pure_eq_ok]
  constructor
  · rintro ⟨h, rfl⟩
    exact ⟨rfl, h⟩
  · rintro ⟨rfl, h⟩
    exact ⟨h, rfl⟩

/-! ### Heads -/

variable {majorType m n value : ℕ}

theorem toNat_initial {minorType : ℕ} (h : majorType < 8) (h' : minorType < 32) :
    (initial majorType minorType).toNat = majorType * 32 + minorType := by
  rw [initial, UInt8.toNat_ofNat']
  exact Nat.mod_eq_of_lt (by omega)

theorem initial_inj (h : majorType < 8) (hm : m < 32) (hn : n < 32)
    (heq : initial majorType m = initial majorType n) : m = n := by
  have := congrArg UInt8.toNat heq
  rw [toNat_initial h hm, toNat_initial h hn] at this
  omega

theorem writeTypeValue_ne_nil (majorType value : ℕ) : writeTypeValue majorType value ≠ [] := by
  unfold writeTypeValue
  split_ifs <;> simp

theorem minorType_inj (h : (Width.of m).minorType = (Width.of n).minorType) :
    Width.of m = Width.of n := by
  generalize Width.of m = v at h ⊢
  generalize Width.of n = w at h ⊢
  cases v <;> cases w <;> simp_all [Width.minorType]

theorem writeTypeValue_of_lt (h : value < 24) :
    writeTypeValue majorType value = [initial majorType value] :=
  if_pos h

theorem writeTypeValue_of_le (h : 24 ≤ value) :
    writeTypeValue majorType value =
      initial majorType (Width.of value).minorType ::
        BigEndian.bytes (Width.of value).size value := by
  rw [writeTypeValue, if_neg (by omega), Width.of]
  split_ifs <;> rfl

theorem Width.lt_of (h : value < 2 ^ 64) : value < 256 ^ (Width.of value).size := by
  unfold Width.of
  split_ifs <;> simp only [Width.size] <;> omega

/-- **A head can be told from what follows it.** -/
theorem writeTypeValue_append_inj {s t : List UInt8} (h : majorType < 8) (hm : m < 2 ^ 64)
    (hn : n < 2 ^ 64) (heq : writeTypeValue majorType m ++ s = writeTypeValue majorType n ++ t) :
    m = n ∧ s = t := by
  have hminor := fun v => Width.minorType_lt (Width.of v)
  have hle := fun v => Width.le_minorType (Width.of v)
  rcases lt_or_ge m 24 with hm24 | hm24 <;> rcases lt_or_ge n 24 with hn24 | hn24
  · rw [writeTypeValue_of_lt hm24, writeTypeValue_of_lt hn24, List.cons_append, List.cons_append,
      List.cons.injEq] at heq
    exact ⟨initial_inj h (by omega) (by omega) heq.1, heq.2⟩
  · rw [writeTypeValue_of_lt hm24, writeTypeValue_of_le hn24, List.cons_append, List.cons_append,
      List.cons.injEq] at heq
    have := initial_inj h (by omega) (hminor n) heq.1
    have := hle n
    omega
  · rw [writeTypeValue_of_le hm24, writeTypeValue_of_lt hn24, List.cons_append, List.cons_append,
      List.cons.injEq] at heq
    have := initial_inj h (hminor m) (by omega) heq.1
    have := hle m
    omega
  · rw [writeTypeValue_of_le hm24, writeTypeValue_of_le hn24, List.cons_append, List.cons_append,
      List.cons.injEq] at heq
    have hwidth := minorType_inj (initial_inj h (hminor m) (hminor n) heq.1)
    obtain ⟨hbytes, rfl⟩ := List.append_inj heq.2 (by simp [hwidth])
    refine ⟨BigEndian.bytes_inj (Width.lt_of hm) ?_ (hwidth ▸ hbytes), rfl⟩
    exact hwidth ▸ Width.lt_of hn

end Whitecoin.Cbor
