import Whitecoin.Cbor.RoundTrip
import Whitecoin.Cbor.Produced

/-!
# When storage encoding loses nothing

A tree is stored without loss if decoding its bytes gives back the same value and encoding the
decoded tree gives the same bytes. That fails for every tree with an integer below `-2 ^ 31`:

* in four bytes such an integer comes back as an extra integer whose magnitude is one more than the
  number that the encoder writes for it, so that it is encoded as the integer below;
* in eight bytes the decoder does not return to the state that reads a head either, and takes the
  next eight bytes, whatever they are, for another integer.
-/

namespace Whitecoin.Cbor

open Check

/-- Decoding gives back the value, and encoding the decoded tree the bytes. -/
def Lossless (v : CborObject) : Prop :=
  ∃ bytes w, cborEncode v = .ok bytes ∧ cborDecode bytes = .ok w ∧ w.value = v.value ∧
    cborEncode w = .ok bytes

/-! ### Integers that come back -/

variable {n : ℕ} {v : CborObject} {items : List (Text × CborObject)} {k : ℤ} {s t : List UInt8}

theorem value_pint (hn : n < 2 ^ 64) : (pint n).value = .int n := by
  rcases pint_eq n with ⟨hlt, h⟩ | h
  · rw [h, CborObject.value, Int64.toInt_ofNat_of_lt (by omega)]
  · rw [h, CborObject.value, if_pos rfl, UInt64.toNat_ofNat', Nat.mod_eq_of_lt hn]

theorem write_pint (hn : n < 2 ^ 64) : writeCborObject (pint n) = writeTypeValue 0 n := by
  rcases pint_eq n with ⟨hlt, h⟩ | h
  · have htoInt : (Int64.ofNat n).toInt = n := Int64.toInt_ofNat_of_lt (by omega)
    have hnonneg : ¬ Int64.ofNat n < 0 := by
      rw [Int64.lt_iff_toInt_lt, htoInt, Int64.toInt_zero]
      omega
    rw [h, writeCborObject, writeInt, if_neg hnonneg, htoInt, Int.toNat_natCast]
  · rw [h, writeCborObject, if_pos rfl, UInt64.toNat_ofNat', Nat.mod_eq_of_lt hn]

theorem value_nint (hn : n < 2 ^ 31) : (nint n).value = .int (-n - 1) := by
  rw [nint_of_lt hn, CborObject.value, Int64.toInt_ofInt_of_le (by omega) (by omega)]

theorem write_nint (hn : n < 2 ^ 31) : writeCborObject (nint n) = writeTypeValue 1 n := by
  have htoInt : (Int64.ofInt (-n - 1)).toInt = -n - 1 :=
    Int64.toInt_ofInt_of_le (by omega) (by omega)
  have hneg : Int64.ofInt (-n - 1) < 0 := by
    rw [Int64.lt_iff_toInt_lt, htoInt, Int64.toInt_zero]
    omega
  rw [nint_of_lt hn, writeCborObject, writeInt, if_pos hneg, htoInt]
  congr 1
  omega

/-! ### Trees that come back -/

/-- The integers that are stored without loss. -/
def Small (v : CborObject) : Prop := ∀ n ∈ v.integers, -2 ^ 31 ≤ n

theorem Small.item {items : List CborObject} (h : Small (.array items)) (hv : v ∈ items) :
    Small v := fun n hn => by
  refine h n ?_
  rw [CborObject.integers, CborObject.itemIntegers_eq]
  exact List.mem_flatMap.mpr ⟨v, hv, hn⟩

theorem Small.entry (h : Small (.map items)) {e : Text × CborObject} (he : e ∈ items) :
    Small e.2 := fun n hn => by
  refine h n ?_
  rw [CborObject.integers, CborObject.entryIntegers_eq]
  exact List.mem_flatMap.mpr ⟨e, he, hn⟩

theorem value_decoded (hs : v.Storable) (hv : Small v) : (decoded v).value = v.value := by
  induction v with
  | int n =>
    have hmax := n.toInt_lt
    have hmin := hv n.toInt (by simp [CborObject.integers])
    rw [decoded, CborObject.value]
    split
    · rename_i hneg
      rw [Int64.lt_iff_toInt_lt, Int64.toInt_zero] at hneg
      rw [value_nint (by omega)]
      congr 1
      omega
    · rename_i hneg
      rw [Int64.lt_iff_toInt_lt, Int64.toInt_zero] at hneg
      rw [value_pint (by omega), Int.toNat_of_nonneg (by omega)]
  | extraInt n p =>
    obtain rfl : p = true := hs
    exact value_pint n.toNat_lt
  | array items ih =>
    simp only [decoded, decodedItems_eq, CborObject.value, CborObject.itemValues_eq, List.map_map]
    congr 1
    exact List.map_congr_left fun w hw =>
      ih w hw (CborObject.itemsStorable_iff.mp hs w hw) (hv.item hw)
  | map items ih =>
    simp only [decoded, decodedEntries_eq, CborObject.value, CborObject.entryValues_eq,
      List.map_map]
    congr 1
    refine List.map_congr_left fun e he => Prod.ext rfl ?_
    exact ih e he (CborObject.entriesStorable_iff.mp hs.2 e he) (hv.entry he)
  | _ => rfl

theorem writeItems_eq (items : List CborObject) :
    writeItems items = items.flatMap writeCborObject := by
  induction items with
  | nil => rfl
  | cons v items ih => simp [writeItems, ih]

theorem writeEntries_eq (items : List (Text × CborObject)) :
    writeEntries items = items.flatMap fun e => writeString e.1 ++ writeCborObject e.2 := by
  induction items with
  | nil => rfl
  | cons e items ih => simp [writeEntries, ih]

theorem write_decoded (hs : v.Storable) (hv : Small v) :
    writeCborObject (decoded v) = writeCborObject v := by
  induction v with
  | int n =>
    have hmax := n.toInt_lt
    have hmin := hv n.toInt (by simp [CborObject.integers])
    rw [decoded, writeCborObject, writeInt]
    split
    · exact write_nint (by omega)
    · exact write_pint (by omega)
  | extraInt n p =>
    obtain rfl : p = true := hs
    exact write_pint n.toNat_lt
  | array items ih =>
    simp only [decoded, decodedItems_eq, writeCborObject, writeItems_eq, List.length_map,
      List.flatMap_map]
    congr 1
    exact List.flatMap_congr fun w hw =>
      ih w hw (CborObject.itemsStorable_iff.mp hs w hw) (hv.item hw)
  | map items ih =>
    simp only [decoded, decodedEntries_eq, writeCborObject, writeEntries_eq, List.length_map,
      List.flatMap_map]
    congr 1
    refine List.flatMap_congr fun e he => congrArg (writeString e.1 ++ ·) ?_
    exact ih e he (CborObject.entriesStorable_iff.mp hs.2 e he) (hv.entry he)
  | _ => rfl

/-! ### Trees that do not come back -/

theorem write_of_value_eq_int (hs : v.Storable) (hk : v.value = .int k) :
    writeCborObject v =
      if k < 0 then writeTypeValue 1 (-(k + 1)).toNat else writeTypeValue 0 k.toNat := by
  cases v with
  | int n =>
    obtain rfl : n.toInt = k := by simpa [CborObject.value] using hk
    simp only [writeCborObject, writeInt, Int64.lt_iff_toInt_lt, Int64.toInt_zero]
  | extraInt n p =>
    obtain rfl : p = true := hs
    obtain rfl : (n.toNat : ℤ) = k := by simpa [CborObject.value] using hk
    rw [if_neg (by omega), writeCborObject, if_pos rfl, Int.toNat_natCast]
  | _ => simp [CborObject.value] at hk

theorem writeTypeValue_eq_cons (majorType value : ℕ) :
    ∃ minorType l, minorType < 32 ∧
      writeTypeValue majorType value = initial majorType minorType :: l := by
  rcases Nat.lt_or_ge value 24 with h | h
  · exact ⟨value, [], by omega, writeTypeValue_of_lt h⟩
  · exact ⟨_, _, Width.minorType_lt _, writeTypeValue_of_le h⟩

theorem writeTypeValue_append_ne {m : ℕ} : writeTypeValue 1 m ++ s ≠ writeTypeValue 0 n ++ t := by
  obtain ⟨i, l, hi, hm⟩ := writeTypeValue_eq_cons 1 m
  obtain ⟨j, k, hj, hn⟩ := writeTypeValue_eq_cons 0 n
  intro heq
  rw [hm, hn, List.cons_append, List.cons_append, List.cons.injEq] at heq
  have := congrArg UInt8.toNat heq.1
  rw [toNat_initial (by omega) hi, toNat_initial (by omega) hj] at this
  omega

/-- What comes back with the same bytes and the same meaning has come back exactly: no integer in it
was below `-2 ^ 31`. -/
def Exact (v : CborObject) : Prop :=
  ∀ (w : CborObject) (s t : List UInt8), w.Produced → w.value = v.value →
    writeCborObject w ++ s = writeCborObject v ++ t → Small v ∧ s = t

theorem exact_int (hs : v.Storable) (hk : v.value = .int k) (hmax : k < 2 ^ 64) (hmin : -2 ^ 63 ≤ k)
    (hints : v.integers = [k]) : Exact v := by
  intro w s t hw hval heq
  rw [hk] at hval
  have hsame : w.Storable → -2 ^ 31 ≤ k → Small v ∧ s = t := fun hws hle => by
    rw [write_of_value_eq_int hs hk, write_of_value_eq_int hws hval] at heq
    refine ⟨fun n hn => ?_, List.append_cancel_left heq⟩
    rw [hints, List.mem_singleton] at hn
    omega
  cases w with
  | int n =>
    obtain rfl : n.toInt = k := by simpa [CborObject.value] using hval
    exact hsame trivial hw.1
  | extraInt n p =>
    cases p with
    | true =>
      obtain rfl : (n.toNat : ℤ) = k := by simpa [CborObject.value] using hval
      exact hsame rfl (by omega)
    | false =>
      -- the sign is written beside the magnitude, where the encoder expects one less
      obtain rfl : (-n.toNat : ℤ) = k := by simpa [CborObject.value] using hval
      rw [write_of_value_eq_int hs hk, writeCborObject, if_neg (by simp)] at heq
      split at heq
      · have := (writeTypeValue_append_inj (by omega) n.toNat_lt (by omega) heq).1
        omega
      · exact absurd heq writeTypeValue_append_ne
  | _ => simp [CborObject.value] at hval

theorem exact_items {items : List CborObject} (h : ∀ v ∈ items, Exact v) {ws : List CborObject}
    (hw : ∀ w ∈ ws, w.Produced) (hval : ws.map CborObject.value = items.map CborObject.value)
    (heq : writeItems ws ++ s = writeItems items ++ t) : (∀ v ∈ items, Small v) ∧ s = t := by
  induction items generalizing ws with
  | nil =>
    obtain rfl : ws = [] := by simpa using hval
    exact ⟨by simp, heq⟩
  | cons v items ih =>
    obtain ⟨hv, hitems⟩ := List.forall_mem_cons.mp h
    obtain _ | ⟨w, ws⟩ := ws
    · simp at hval
    · obtain ⟨hw, hws⟩ := List.forall_mem_cons.mp hw
      obtain ⟨hvalw, hvalws⟩ := List.cons.inj hval
      rw [writeItems, writeItems, List.append_assoc, List.append_assoc] at heq
      obtain ⟨hsmall, heq⟩ := hv w _ _ hw hvalw heq
      obtain ⟨hrest, rfl⟩ := ih hitems hws hvalws heq
      exact ⟨List.forall_mem_cons.mpr ⟨hsmall, hrest⟩, rfl⟩

theorem exact_entries (h : ∀ e ∈ items, Exact e.2) {ws : List (Text × CborObject)}
    (hw : ∀ e ∈ ws, e.2.Produced)
    (hval : (ws.map fun e => (e.1, e.2.value)) = items.map fun e => (e.1, e.2.value))
    (heq : writeEntries ws ++ s = writeEntries items ++ t) : (∀ e ∈ items, Small e.2) ∧ s = t := by
  induction items generalizing ws with
  | nil =>
    obtain rfl : ws = [] := by simpa using hval
    exact ⟨by simp, heq⟩
  | cons e items ih =>
    obtain ⟨he, hitems⟩ := List.forall_mem_cons.mp h
    obtain _ | ⟨d, ws⟩ := ws
    · simp at hval
    · obtain ⟨hd, hws⟩ := List.forall_mem_cons.mp hw
      obtain ⟨hvald, hvalws⟩ := List.cons.inj hval
      obtain ⟨hkey, hvald⟩ := Prod.mk.inj hvald
      simp only [writeEntries, hkey, List.append_assoc] at heq
      obtain ⟨hsmall, heq⟩ := he d.2 _ _ hd hvald (List.append_cancel_left heq)
      obtain ⟨hrest, rfl⟩ := ih hitems hws hvalws heq
      exact ⟨List.forall_mem_cons.mpr ⟨hsmall, hrest⟩, rfl⟩

theorem exact (hs : v.Storable) : Exact v := by
  induction v with
  | int n => exact exact_int hs rfl (by have := n.toInt_lt; omega) n.le_toInt rfl
  | extraInt n p =>
    obtain rfl : p = true := hs
    have := n.toNat_lt
    exact exact_int rfl rfl (by rw [if_pos rfl]; omega) (by rw [if_pos rfl]; omega) rfl
  | array items ih =>
    intro w s t hw hval heq
    cases w with
    | array ws =>
      have hvals : ws.map CborObject.value = items.map CborObject.value := by
        simpa [CborObject.value] using hval
      have hlen : ws.length = items.length := by simpa using congrArg List.length hvals
      rw [writeCborObject, writeCborObject, hlen, List.append_assoc, List.append_assoc] at heq
      obtain ⟨hsmall, hst⟩ := exact_items
        (fun v hv => ih v hv (CborObject.itemsStorable_iff.mp hs v hv))
        (CborObject.itemsProduced_iff.mp hw) hvals (List.append_cancel_left heq)
      refine ⟨fun n hn => ?_, hst⟩
      rw [CborObject.integers, CborObject.itemIntegers_eq] at hn
      obtain ⟨v, hv, hn⟩ := List.mem_flatMap.mp hn
      exact hsmall v hv n hn
    | _ => simp [CborObject.value] at hval
  | map items ih =>
    intro w s t hw hval heq
    cases w with
    | map ws =>
      have hvals : (ws.map fun e => (e.1, e.2.value)) = items.map fun e => (e.1, e.2.value) := by
        simpa only [CborObject.value, CborObject.entryValues_eq, Value.map.injEq] using hval
      have hlen : ws.length = items.length := by simpa using congrArg List.length hvals
      rw [writeCborObject, writeCborObject, hlen, List.append_assoc, List.append_assoc] at heq
      obtain ⟨hsmall, hst⟩ := exact_entries
        (fun e he => ih e he (CborObject.entriesStorable_iff.mp hs.2 e he))
        (CborObject.entriesProduced_iff.mp hw.2) hvals (List.append_cancel_left heq)
      refine ⟨fun n hn => ?_, hst⟩
      rw [CborObject.integers, CborObject.entryIntegers_eq] at hn
      obtain ⟨e, he, hn⟩ := List.mem_flatMap.mp hn
      exact hsmall e he n hn
    | _ => simp [CborObject.value] at hval
  | null | bool _ | string _ | bytes _ =>
    intro w s t hw hval heq
    refine ⟨by simp [Small, CborObject.integers], ?_⟩
    cases w <;> simp only [CborObject.value, reduceCtorEq, Value.bool.injEq, Value.string.injEq,
      Value.bytes.injEq] at hval
    · subst_vars
      exact List.append_cancel_left heq
  | undefined | tag _ | extraTag _ => exact absurd hs (by simp [CborObject.Storable])

/-- **Storage loses nothing exactly when every integer is at least `-2 ^ 31`**, for the trees whose
bytes the decoder can count. -/
theorem lossless_iff {v : CborObject} (hv : v.Storable) :
    Lossless v ↔ (writeCborObject v).length < 2 ^ 31 ∧ ∀ n ∈ v.integers, -2 ^ 31 ≤ n := by
  constructor
  · rintro ⟨bytes, w, hencode, hdecode, hvalue, hagain⟩
    obtain ⟨rfl, hle⟩ := cborEncode_eq_ok.mp hencode
    obtain ⟨hbytes, -⟩ := cborEncode_eq_ok.mp hagain
    constructor
    · by_contra hlt
      have hlen : (writeCborObject v).length = 2 ^ 31 := by
        unfold outputLimit at hle
        omega
      simp [cborDecode_of_length hlen] at hdecode
    · exact (exact hv w [] [] (cborDecode_produced hdecode) hvalue (by rw [hbytes])).1
  · rintro ⟨hsize, hsmall⟩
    have hread : Readable v := ⟨hv, hsize, fun n hn => by have := hsmall n hn; omega⟩
    refine ⟨_, decoded v, cborEncode_eq_ok.mpr ⟨rfl, hsize.le⟩, cborDecode_write hread,
      value_decoded hv hsmall, cborEncode_eq_ok.mpr ⟨(write_decoded hv hsmall).symm, hsize.le⟩⟩

/-- Integers, a string, a map and an array of the domain. -/
def sample : CborObject :=
  .map [(text "a", .array [.int (-2147483648), .extraInt 18446744073709551615 true, .null]),
    (text "b", .string (text "x")), (text "c", .bool true), (text "d", .bytes [0, 255])]

theorem lossless_sample : sample.Storable ∧ Lossless sample := by
  have hs : sample.Storable := by
    simp only [sample, CborObject.Storable, CborObject.EntriesStorable, CborObject.ItemsStorable]
    decide
  exact ⟨hs, (lossless_iff hs).mpr (by decide +kernel)⟩

theorem Lossless.map_write (h : Lossless v) :
    (cborDecode (writeCborObject v)).map writeCborObject = .ok (writeCborObject v) := by
  obtain ⟨bytes, w, hencode, hdecode, -, hagain⟩ := h
  obtain ⟨rfl, -⟩ := cborEncode_eq_ok.mp hencode
  rw [hdecode, Except.map, ← (cborEncode_eq_ok.mp hagain).1]

/-- Trees that do not come back: `-2 ^ 31 - 1` is encoded as the integer below it the second time,
and after `-2 ^ 40` the decoder takes the rest for another integer and stops. -/
theorem lossless_fails :
    ((CborObject.int (-2147483649)).Storable ∧ ¬ Lossless (.int (-2147483649)) ∧
      (cborDecode (writeCborObject (.int (-2147483649)))).map writeCborObject =
        .ok (writeCborObject (.int (-2147483650)))) ∧
    (CborObject.array [.int (-1099511627776), .int 1]).Storable ∧
      ¬ Lossless (.array [.int (-1099511627776), .int 1]) ∧
      (cborDecode (writeCborObject (.array [.int (-1099511627776), .int 1]))).map writeCborObject =
        .error "cbor decode fail with not finished structures" := by
  refine ⟨⟨trivial, fun h => ?_, by decide +kernel⟩, ⟨trivial, trivial, trivial⟩, fun h => ?_,
    by decide +kernel⟩
  · exact absurd h.map_write (by decide +kernel)
  · exact absurd h.map_write (by decide +kernel)

end Whitecoin.Cbor
