import Whitecoin.Cbor.Decode

/-!
# Reading back what was written

The decoder reads an encoded value in some iterations and then has put the value, or another
representation of it, in its place, with the rest of the input before it. Strings and containers
come back as they are. An integer comes back in the representation that belongs to the width in
which it was written.
-/

namespace Whitecoin.Cbor

open Check

/-! ### Single iterations -/

section step

variable {m : Machine} {b : Builder} {tail : List UInt8} {state' : DecoderState} {b' : Builder}

theorem step_head (majorType minorType : ℕ) (hmajor : majorType < 8) (hminor : minorType < 32)
    (h : readType b majorType minorType = .ok (state', b')) :
    step ⟨initial majorType minorType :: tail, .type, b⟩ = .ok (some ⟨tail, state', b'⟩) := by
  refine after_eq_ok.mpr ⟨rfl, ?_⟩
  rw [toNat_initial hmajor hminor, show (majorType * 32 + minorType) / 32 = majorType by omega,
    show (majorType * 32 + minorType) % 32 = minorType by omega]
  exact h

variable {n : ℕ}

theorem step_number {state : DecoderState} {width : Width} (hneeds : state.needs = .number width)
    (hn : n < 256 ^ width.size) (h : readNumber b n state = .ok (state', b')) :
    step ⟨BigEndian.bytes width.size n ++ tail, state, b⟩ = .ok (some ⟨tail, state', b'⟩) := by
  have hlen := BigEndian.length_bytes width.size n
  rw [step, hneeds]
  simp only [List.length_append, hlen]
  rw [if_pos (by omega), List.drop_left' hlen, List.take_left' hlen, BigEndian.value_bytes hn]
  exact after_eq_ok.mpr ⟨rfl, h⟩

theorem step_text (state : DecoderState) {make : List UInt8 → CborObject} {s : Text}
    (hneeds : state.needs = .text make s.length) (h : b.put (make s) = .ok b') :
    step ⟨s ++ tail, state, b⟩ = .ok (some ⟨tail, .type, b'⟩) := by
  rw [step, hneeds]
  simp only [List.length_append, Int.toNat_natCast]
  rw [if_neg (by omega), if_pos (by omega), List.drop_left' rfl, List.take_left' rfl]
  exact after_eq_ok.mpr ⟨rfl, withType_eq_ok.mpr ⟨rfl, h⟩⟩

theorem steps_head {majorType : ℕ} (state : Width → DecoderState) (hmajor : majorType < 8)
    (hn : n < 2 ^ 64) (hneeds : ∀ width, (state width).needs = .number width)
    (hawait : ∀ minorType, 24 ≤ minorType → ∃ message, readType b majorType minorType =
      await b minorType state message)
    (hshort : n < 24 → readType b majorType n = .ok (state', b'))
    (hlong : 24 ≤ n → readNumber b n (state (Width.of n)) = .ok (state', b')) :
    Steps ⟨writeTypeValue majorType n ++ tail, .type, b⟩ ⟨tail, state', b'⟩ := by
  rcases Nat.lt_or_ge n 24 with hlt | hge
  · rw [writeTypeValue_of_lt hlt]
    exact .single (step_head _ _ hmajor (by omega) (hshort hlt))
  · rw [writeTypeValue_of_le hge, List.cons_append]
    have hread : readType b majorType (Width.of n).minorType = .ok (state (Width.of n), b) := by
      obtain ⟨message, h⟩ := hawait _ (Width.le_minorType (Width.of n))
      rw [h, await]
      cases Width.of n <;> rfl
    refine .tail (.single (step_head _ _ hmajor (Width.minorType_lt _) hread)) ?_
    exact step_number (hneeds _) (Width.lt_of hn) (hlong hge)

end step

/-! ### Values without items -/

/-- A positive integer in the width in which it is written. -/
def pint (n : ℕ) : CborObject :=
  if n < 24 then .int (Int64.ofNat n) else pintValue (Width.of n) n

/-- A negative integer in the width in which it is written. -/
def nint (n : ℕ) : CborObject :=
  if n < 24 then .int (Int64.ofInt (-1 - n)) else nintValue (Width.of n) n

theorem pint_eq (n : ℕ) :
    (n < 2 ^ 31 ∧ pint n = .int (Int64.ofNat n)) ∨ pint n = .extraInt (UInt64.ofNat n) true := by
  unfold pint Width.of
  split_ifs
  · exact .inl ⟨by omega, rfl⟩
  · exact .inl ⟨by omega, rfl⟩
  · exact .inl ⟨by omega, rfl⟩
  · by_cases h : n ≤ intMax
    · exact .inl ⟨by simp only [intMax] at h; omega, if_pos h⟩
    · exact .inr (if_neg h)
  · exact .inr rfl

variable {n m : ℕ} {v w : CborObject} {items : List (Text × CborObject)}

theorem nint_of_lt (h : n < 2 ^ 31) : nint n = .int (Int64.ofInt (-n - 1)) := by
  unfold nint Width.of
  split_ifs
  · rw [show (-1 - n : ℤ) = -n - 1 by omega]
  · rfl
  · rfl
  · exact if_pos (by simp only [intMax]; omega)
  · omega

section scalar

variable {b b' : Builder} {rest : List UInt8} {n : ℕ}

theorem steps_pint (hn : n < 2 ^ 64) (hput : b.put (pint n) = .ok b') :
    Steps ⟨writeTypeValue 0 n ++ rest, .type, b⟩ ⟨rest, .type, b'⟩ := by
  refine steps_head .pint (by omega) hn (fun _ => rfl) (fun _ h => ⟨_, if_neg (by omega)⟩)
    (fun h => ?_) (fun h => ?_)
  · rw [pint, if_pos h] at hput
    rw [readType, if_pos h, hput]
    rfl
  · rw [pint, if_neg (by omega)] at hput
    rw [readNumber, hput]
    rfl

theorem steps_nint (hn : n < 2 ^ 64) (hput : b.put (nint n) = .ok b') :
    Steps ⟨writeTypeValue 1 n ++ rest, .type, b⟩ ⟨rest, nintState (Width.of n), b'⟩ := by
  refine steps_head .nint (by omega) hn (fun _ => rfl) (fun _ h => ⟨_, if_neg (by omega)⟩)
    (fun h => ?_) (fun h => ?_)
  · rw [nint, if_pos h] at hput
    rw [readType, if_pos h, hput, show Width.of n = .one from if_pos (by omega)]
    rfl
  · rw [nint, if_neg (by omega)] at hput
    rw [readNumber, hput]
    rfl

theorem nintState_of_lt (h : n < 2 ^ 32) : nintState (Width.of n) = .type := by
  unfold Width.of
  split_ifs <;> first | rfl | omega

theorem signedInt_of_lt (h : n < 2 ^ 31) : signedInt n = n := by
  unfold signedInt
  rw [Int.bmod_def]
  omega

theorem sizeOfText_of_lt (message : String) (h : n < 2 ^ 31) :
    sizeOfText (Width.of n) n message = .ok (n : ℤ) := by
  rw [← signedInt_of_lt h]
  unfold Width.of
  split_ifs <;> first | rfl | omega

theorem sizeOfContainer_of_lt (message : String) (h : n < 2 ^ 31) :
    sizeOfContainer (Width.of n) n message = .ok n := by
  unfold Width.of
  split_ifs <;> first | rfl | omega

theorem unsignedInt_of_lt (h : n < 2 ^ 31) : unsignedInt n = n :=
  Nat.mod_eq_of_lt (by omega)

theorem steps_string {s : Text} (hs : s.length < 2 ^ 31) (hput : b.put (.string s) = .ok b') :
    Steps ⟨writeString s ++ rest, .type, b⟩ ⟨rest, .type, b'⟩ := by
  rw [writeString, unsignedInt_of_lt hs, List.append_assoc]
  refine .tail ?_ (step_text (.stringData s.length) rfl hput)
  refine steps_head .stringSize (by omega) (by omega) (fun _ => rfl)
    (fun _ h => ⟨_, if_neg (by omega)⟩) (fun h => if_pos h) (fun _ => ?_)
  rw [readNumber, sizeOfText_of_lt _ hs]
  rfl

theorem steps_bytes {s : List UInt8} (hs : s.length < 2 ^ 31) (hput : b.put (.bytes s) = .ok b') :
    Steps ⟨writeBytes s ++ rest, .type, b⟩ ⟨rest, .type, b'⟩ := by
  rw [writeBytes, unsignedInt_of_lt hs, List.append_assoc]
  refine .tail ?_ (step_text (.bytesData s.length) rfl hput)
  refine steps_head .bytesSize (by omega) (by omega) (fun _ => rfl)
    (fun _ h => ⟨_, if_neg (by omega)⟩) (fun h => if_pos h) (fun _ => ?_)
  rw [readNumber, sizeOfText_of_lt _ hs]
  rfl

theorem steps_array (rest : List UInt8) (hn : n < 2 ^ 31)
    (hopen : b.openContainer (.array []) n = .ok b') :
    Steps ⟨writeTypeValue 4 n ++ rest, .type, b⟩ ⟨rest, .type, b'⟩ := by
  refine steps_head .array (by omega) (by omega) (fun _ => rfl)
    (fun _ h => ⟨_, if_neg (by omega)⟩) (fun h => ?_) (fun _ => ?_)
  · rw [readType, if_pos h, hopen]
    rfl
  · rw [readNumber, sizeOfContainer_of_lt _ hn]
    exact withType_eq_ok.mpr ⟨rfl, hopen⟩

theorem steps_map (rest : List UInt8) (hn : n < 2 ^ 31)
    (hopen : b.openContainer (.map []) n = .ok b') :
    Steps ⟨writeTypeValue 5 n ++ rest, .type, b⟩ ⟨rest, .type, b'⟩ := by
  refine steps_head .map (by omega) (by omega) (fun _ => rfl)
    (fun _ h => ⟨_, if_neg (by omega)⟩) (fun h => ?_) (fun _ => ?_)
  · rw [readType, if_pos h, hopen]
    rfl
  · rw [readNumber, sizeOfContainer_of_lt _ hn]
    exact withType_eq_ok.mpr ⟨rfl, hopen⟩

end scalar

/-! ### Finding the place of a value -/

namespace Builder

variable {b b₁ : Builder} {slot : Slot} {v : CborObject}

theorem put_of_next (h : b.next = .ok (b₁, slot)) :
    b.put v = .ok (b₁.complete b₁.stack slot v) := by
  rw [put, h]
  rfl

variable {n : ℕ} {below : List Frame} {items : List (Text × CborObject)}

theorem next_item {items : List CborObject} (h : b.stack = ⟨.array items, n, slot⟩ :: below) :
    b.next = .ok (b, .item) := by
  rw [next, h]

theorem next_key (h : b.stack = ⟨.map items, n, slot⟩ :: below) (hkey : b.iterInMapKey = true) :
    b.next = .ok ({ b with iterInMapKey := false }, .key) := by
  rw [next, h]
  exact if_pos hkey

theorem next_entry {k : Text} (h : b.stack = ⟨.map items, n, slot⟩ :: below)
    (hkey : b.iterInMapKey = false) (htemp : b.mapKeyTemp = some (.string k)) :
    b.next = .ok ({ b with iterInMapKey := true }, .entry k) := by
  rw [next, h]
  simp only [hkey, htemp]
  rfl

theorem slot_ne_key (h : b.next = .ok (b₁, slot)) (hkey : b₁.iterInMapKey = true) :
    slot ≠ .key := by
  rintro rfl
  unfold next at h
  split at h
  · split at h <;> simp at h
  · split at h
    · simp at h
    · split at h
      · simp only [Except.ok.injEq, Prod.mk.injEq] at h
        simp [← h.1] at hkey
      · split at h <;> simp at h

theorem complete_stack (b : Builder) (s l : List Frame) (slot : Slot) (v : CborObject) :
    ({ b with stack := s } : Builder).complete l slot v = b.complete l slot v := by
  induction l generalizing slot v with
  | nil => rfl
  | cons f rest ih =>
    cases slot with
    | key => rfl
    | item =>
      simp only [complete]
      split
      · exact ih _ _
      · rfl
    | entry k =>
      simp only [complete]
      split
      · exact ih _ _
      · rfl

theorem openContainer_of_next {c : Container} (h : b.next = .ok (b₁, slot)) (hslot : slot ≠ .key)
    (hn : n ≠ 0) : b.openContainer c n = .ok { b₁ with stack := ⟨c, n, slot⟩ :: b₁.stack } := by
  rw [openContainer, if_neg hn, h]
  cases slot with
  | key => exact absurd rfl hslot
  | item => rfl
  | entry k => rfl

end Builder

/-! ### Containers -/

mutual

/-- What the decoder makes of an object. -/
def decoded : CborObject → CborObject
  | .int n => if n < 0 then nint (-(n.toInt + 1)).toNat else pint n.toInt.toNat
  | .extraInt n isPositive => if isPositive then pint n.toNat else nint n.toNat
  | .array items => .array (decodedItems items)
  | .map items => .map (decodedEntries items)
  | v => v

def decodedItems : List CborObject → List CborObject
  | [] => []
  | v :: items => decoded v :: decodedItems items

def decodedEntries : List (Text × CborObject) → List (Text × CborObject)
  | [] => []
  | (k, v) :: items => (k, decoded v) :: decodedEntries items

end

theorem decodedItems_eq (items : List CborObject) : decodedItems items = items.map decoded := by
  induction items with
  | nil => rfl
  | cons v items ih => simp [decodedItems, ih]

theorem decodedEntries_eq (items : List (Text × CborObject)) :
    decodedEntries items = items.map fun e => (e.1, decoded e.2) := by
  induction items with
  | nil => rfl
  | cons e items ih => simp [decodedEntries, ih]

/-- The decoder reads the value, whatever stands after it, and puts it in its place. A map among the
values read leaves its last key in `map_key_temp`. -/
def ReadsBack (v : CborObject) : Prop :=
  ∀ (b b₁ : Builder) (slot : Slot) (rest : List UInt8), b.next = .ok (b₁, slot) →
    b₁.iterInMapKey = true →
    ∃ temp, Steps ⟨writeCborObject v ++ rest, .type, b⟩
      ⟨rest, .type, ({ b₁ with mapKeyTemp := temp } : Builder).complete b₁.stack slot (decoded v)⟩

theorem readsBack_of_put
    (h : ∀ {b b' : Builder} {rest : List UInt8}, b.put (decoded v) = .ok b' →
      Steps ⟨writeCborObject v ++ rest, .type, b⟩ ⟨rest, .type, b'⟩) :
    ReadsBack v :=
  fun _ b₁ _ _ hnext _ => ⟨b₁.mapKeyTemp, h (Builder.put_of_next hnext)⟩

section containers

variable {slot : Slot} {below : List Frame} {n : ℕ} {r : Option CborObject} (rest : List UInt8)

theorem steps_items {todo : List CborObject} (hread : ∀ v ∈ todo, ReadsBack v) (hne : todo ≠ [])
    (done : List CborObject) (hn : n = done.length + todo.length) (temp : Option CborObject) :
    ∃ temp', Steps
      ⟨writeItems todo ++ rest, .type, ⟨r, ⟨.array done, n, slot⟩ :: below, true, temp⟩⟩
      ⟨rest, .type, (⟨r, below, true, temp'⟩ : Builder).complete below slot
        (.array (done ++ todo.map decoded))⟩ := by
  induction todo generalizing done temp with
  | nil => exact absurd rfl hne
  | cons v todo ih =>
    rw [writeItems, List.append_assoc]
    obtain ⟨temp₁, hv⟩ := hread v (List.mem_cons_self ..) _ _ .item (writeItems todo ++ rest)
      (Builder.next_item (b := ⟨r, ⟨.array done, n, slot⟩ :: below, true, temp⟩) rfl) rfl
    simp only [Builder.complete, Frame.add, Container.size, List.length_append,
      List.length_singleton] at hv
    rw [List.length_cons] at hn
    rcases todo with _ | ⟨w, todo⟩
    · -- the last item completes the array
      rw [if_pos (by simp [hn]), ← Builder.complete_stack _ below] at hv
      exact ⟨temp₁, hv⟩
    · rw [if_neg (by simp only [List.length_cons] at hn; omega)] at hv
      obtain ⟨temp₂, hrest⟩ := ih (fun v hv => hread v (List.mem_cons_of_mem _ hv)) (by simp)
        (done ++ [decoded v]) (by simp only [List.length_append, List.length_singleton]; omega)
        temp₁
      refine ⟨temp₂, hv.trans ?_⟩
      rwa [List.append_assoc] at hrest

theorem steps_entries {todo : List (Text × CborObject)} (hread : ∀ e ∈ todo, ReadsBack e.2)
    (hlen : ∀ e ∈ todo, e.1.length < 2 ^ 31) (hsorted : OrdMap.Sorted todo) (hne : todo ≠ [])
    (done : List (Text × CborObject)) (hlt : ∀ d ∈ done, ∀ e ∈ todo, d.1 < e.1)
    (hn : n = done.length + todo.length) (temp : Option CborObject) :
    ∃ temp', Steps
      ⟨writeEntries todo ++ rest, .type, ⟨r, ⟨.map done, n, slot⟩ :: below, true, temp⟩⟩
      ⟨rest, .type, (⟨r, below, true, temp'⟩ : Builder).complete below slot
        (.map (done ++ todo.map fun e => (e.1, decoded e.2)))⟩ := by
  induction todo generalizing done temp with
  | nil => exact absurd rfl hne
  | cons e todo ih =>
    obtain ⟨k, v⟩ := e
    obtain ⟨hk, hsorted⟩ := List.pairwise_cons.mp hsorted
    have hset : OrdMap.set done k (decoded v) = done ++ [(k, decoded v)] :=
      OrdMap.set_of_forall_lt _ fun d hd => hlt d hd (k, v) (List.mem_cons_self ..)
    rw [writeEntries, List.append_assoc, List.append_assoc]
    -- the key goes to `map_key_temp`, and the value to its place in the map
    have hkey : Steps
        ⟨writeString k ++ (writeCborObject v ++ (writeEntries todo ++ rest)), .type,
          ⟨r, ⟨.map done, n, slot⟩ :: below, true, temp⟩⟩
        ⟨writeCborObject v ++ (writeEntries todo ++ rest), .type,
          ⟨r, ⟨.map done, n, slot⟩ :: below, false, some (.string k)⟩⟩ :=
      steps_string (hlen (k, v) (List.mem_cons_self ..))
        (Builder.put_of_next (Builder.next_key rfl rfl))
    obtain ⟨temp₁, hv⟩ := hread (k, v) (List.mem_cons_self ..) _ _ _ (writeEntries todo ++ rest)
      (Builder.next_entry (b := ⟨r, ⟨.map done, n, slot⟩ :: below, false, some (.string k)⟩)
        rfl rfl rfl) rfl
    simp only [Builder.complete, Frame.add, Container.size, hset, List.length_append,
      List.length_singleton] at hv
    rw [List.length_cons] at hn
    rcases todo with _ | ⟨w, todo⟩
    · rw [if_pos (by simp [hn]), ← Builder.complete_stack _ below] at hv
      exact ⟨temp₁, hkey.trans hv⟩
    · rw [if_neg (by simp only [List.length_cons] at hn; omega)] at hv
      have hlt' : ∀ d ∈ done ++ [(k, decoded v)], ∀ e ∈ w :: todo, d.1 < e.1 := by
        intro d hd e he
        rcases List.mem_append.mp hd with hd | hd
        · exact hlt d hd e (List.mem_cons_of_mem _ he)
        · rw [List.mem_singleton.mp hd]
          exact hk e he
      obtain ⟨temp₂, hrest⟩ := ih (fun e he => hread e (List.mem_cons_of_mem _ he))
        (fun e he => hlen e (List.mem_cons_of_mem _ he)) hsorted (by simp)
        (done ++ [(k, decoded v)]) hlt'
        (by simp only [List.length_append, List.length_singleton]; omega) temp₁
      refine ⟨temp₂, hkey.trans (hv.trans ?_)⟩
      rwa [List.append_assoc] at hrest

end containers

/-! ### Trees -/

theorem length_write_pos (v : CborObject) : 0 < (writeCborObject v).length := by
  have hhead := fun majorType value => List.length_pos_of_ne_nil
    (writeTypeValue_ne_nil majorType value)
  cases v with
  | int n =>
    rw [writeCborObject, writeInt]
    split <;> exact hhead _ _
  | _ => simp [writeCborObject, writeString, writeBytes, hhead]

theorem length_write_le_items {items : List CborObject} (hv : v ∈ items) :
    (writeCborObject v).length ≤ (writeItems items).length := by
  induction items with
  | nil => simp at hv
  | cons w items ih =>
    rw [writeItems, List.length_append]
    rcases List.mem_cons.mp hv with rfl | hv
    · omega
    · have := ih hv
      omega

theorem length_le_writeItems (items : List CborObject) :
    items.length ≤ (writeItems items).length := by
  induction items with
  | nil => simp [writeItems]
  | cons v items ih =>
    have := length_write_pos v
    rw [writeItems, List.length_append, List.length_cons]
    omega

theorem length_write_le_entries {e : Text × CborObject} (he : e ∈ items) :
    e.1.length + (writeCborObject e.2).length ≤ (writeEntries items).length := by
  induction items with
  | nil => simp at he
  | cons d items ih =>
    rw [writeEntries, List.length_append, List.length_append, writeString, List.length_append]
    rcases List.mem_cons.mp he with rfl | he
    · omega
    · have := ih he
      omega

theorem length_le_writeEntries (items : List (Text × CborObject)) :
    items.length ≤ (writeEntries items).length := by
  induction items with
  | nil => simp [writeEntries]
  | cons e items ih =>
    have := length_write_pos e.2
    rw [writeEntries, List.length_append, List.length_append, List.length_cons]
    omega

/-- The trees that the decoder can read. -/
structure Readable (v : CborObject) : Prop where
  storable : v.Storable
  /-- The input counts its bytes by an `int`. -/
  size : (writeCborObject v).length < 2 ^ 31
  /-- No negative integer takes eight bytes. -/
  negative : ∀ n ∈ v.integers, -2 ^ 32 ≤ n

namespace Readable

theorem item {items : List CborObject} (h : Readable (.array items)) {v : CborObject}
    (hv : v ∈ items) : Readable v := by
  refine ⟨?_, ?_, fun n hn => h.negative n ?_⟩
  · exact CborObject.itemsStorable_iff.mp h.storable v hv
  · have hsize := h.size
    rw [writeCborObject, List.length_append] at hsize
    have := length_write_le_items hv
    omega
  · rw [CborObject.integers, CborObject.itemIntegers_eq]
    exact List.mem_flatMap.mpr ⟨v, hv, hn⟩

variable {items : List (Text × CborObject)}

theorem entry (h : Readable (.map items)) {e : Text × CborObject} (he : e ∈ items) :
    Readable e.2 := by
  refine ⟨?_, ?_, fun n hn => h.negative n ?_⟩
  · exact CborObject.entriesStorable_iff.mp h.storable.2 e he
  · have hsize := h.size
    rw [writeCborObject, List.length_append] at hsize
    have := length_write_le_entries he
    omega
  · rw [CborObject.integers, CborObject.entryIntegers_eq]
    exact List.mem_flatMap.mpr ⟨e, he, hn⟩

theorem length_items {items : List CborObject} (h : Readable (.array items)) :
    items.length < 2 ^ 31 := by
  have hsize := h.size
  have := length_le_writeItems items
  rw [writeCborObject, List.length_append] at hsize
  omega

theorem length_entries (h : Readable (.map items)) : items.length < 2 ^ 31 := by
  have hsize := h.size
  have := length_le_writeEntries items
  rw [writeCborObject, List.length_append] at hsize
  omega

theorem length_key (h : Readable (.map items)) : ∀ e ∈ items, e.1.length < 2 ^ 31 := by
  intro e he
  have hsize := h.size
  have := length_write_le_entries he
  rw [writeCborObject, List.length_append] at hsize
  omega

end Readable

/-- **The decoder reads one value**, whatever stands after it. -/
theorem readsBack (hv : Readable v) : ReadsBack v := by
  induction v with
  | null =>
    exact readsBack_of_put fun hput =>
      .single (step_head 7 22 (by omega) (by omega) (withType_eq_ok.mpr ⟨rfl, hput⟩))
  | bool c =>
    refine readsBack_of_put fun hput => ?_
    cases c with
    | false => exact .single (step_head 7 20 (by omega) (by omega) (withType_eq_ok.mpr ⟨rfl, hput⟩))
    | true => exact .single (step_head 7 21 (by omega) (by omega) (withType_eq_ok.mpr ⟨rfl, hput⟩))
  | int n =>
    have hmax := n.toInt_lt
    have hneg := hv.negative n.toInt (by simp [CborObject.integers])
    refine readsBack_of_put fun {b b' rest} hput => ?_
    rw [writeCborObject, writeInt]
    rw [decoded] at hput
    split
    · rename_i hlt
      rw [if_pos hlt] at hput
      have hsteps : Steps _ ⟨rest, _, b'⟩ := steps_nint (by omega) hput
      rwa [nintState_of_lt (by omega)] at hsteps
    · rename_i hge
      rw [if_neg hge] at hput
      exact steps_pint (by omega) hput
  | extraInt n p =>
    obtain rfl : p = true := hv.storable
    exact readsBack_of_put fun hput => steps_pint n.toNat_lt hput
  | string s =>
    have hsize := hv.size
    rw [writeCborObject, writeString, List.length_append] at hsize
    exact readsBack_of_put fun hput => steps_string (by omega) hput
  | bytes s =>
    have hsize := hv.size
    rw [writeCborObject, writeBytes, List.length_append] at hsize
    exact readsBack_of_put fun hput => steps_bytes (by omega) hput
  | array items ih =>
    intro b b₁ slot rest hnext hkey
    rw [writeCborObject, unsignedInt_of_lt hv.length_items, List.append_assoc, decoded,
      decodedItems_eq]
    by_cases hne : items = []
    · subst hne
      exact ⟨b₁.mapKeyTemp, steps_array _ (by simp) (Builder.put_of_next hnext)⟩
    · have hopen := steps_array (writeItems items ++ rest) hv.length_items
        (Builder.openContainer_of_next hnext (Builder.slot_ne_key hnext hkey)
          (by simpa using hne))
      obtain ⟨temp, hitems⟩ := steps_items rest (fun v hvm => ih v hvm (hv.item hvm)) hne
        [] (Nat.zero_add _).symm b₁.mapKeyTemp
      rw [hkey] at hopen
      refine ⟨temp, ?_⟩
      rw [hkey]
      exact hopen.trans hitems
  | map items ih =>
    intro b b₁ slot rest hnext hkey
    rw [writeCborObject, unsignedInt_of_lt hv.length_entries, List.append_assoc, decoded,
      decodedEntries_eq]
    by_cases hne : items = []
    · subst hne
      exact ⟨b₁.mapKeyTemp, steps_map _ (by simp) (Builder.put_of_next hnext)⟩
    · have hopen := steps_map (writeEntries items ++ rest) hv.length_entries
        (Builder.openContainer_of_next hnext (Builder.slot_ne_key hnext hkey)
          (by simpa using hne))
      obtain ⟨temp, hentries⟩ := steps_entries rest (fun e he => ih e he (hv.entry he))
        hv.length_key hv.storable.1 hne [] (by simp) (Nat.zero_add _).symm b₁.mapKeyTemp
      rw [hkey] at hopen
      refine ⟨temp, ?_⟩
      rw [hkey]
      exact hopen.trans hentries
  | undefined | tag _ | extraTag _ => exact absurd hv.storable (by simp [CborObject.Storable])

/-- **Decoding what was written.** -/
theorem cborDecode_write (hv : Readable v) : cborDecode (writeCborObject v) = .ok (decoded v) := by
  have hinput : inputOf (writeCborObject v) = writeCborObject v := by
    rw [inputOf, signedInt_of_lt hv.size, Int.toNat_natCast, List.take_length]
  obtain ⟨temp, hsteps⟩ := readsBack hv ⟨none, [], true, none⟩ ⟨none, [], true, none⟩ .item [] rfl
    rfl
  rw [List.append_nil] at hsteps
  rw [cborDecode, hinput, Machine.start, runAll_steps hsteps, runAll_of_none rfl]
  rfl

/-- An encoding as long as the buffer is too long for the `int` that counts the input. -/
theorem cborDecode_of_length {bytes : List UInt8} (h : bytes.length = 2 ^ 31) :
    cborDecode bytes = .error "cbor decoded nothing" := by
  rw [cborDecode, show inputOf bytes = [] by rw [inputOf, h]; rfl, runAll_of_none rfl]
  rfl

theorem eq_decoded_of_decode (hv : v.Storable) (hneg : ∀ n ∈ v.integers, -2 ^ 32 ≤ n)
    (hle : (writeCborObject v).length ≤ outputLimit) (hw : cborDecode (writeCborObject v) = .ok w) :
    w = decoded v := by
  have hsize : (writeCborObject v).length < 2 ^ 31 := by
    by_contra hge
    have hlen : (writeCborObject v).length = 2 ^ 31 := by
      unfold outputLimit at hle
      omega
    simp [cborDecode_of_length hlen] at hw
  rw [cborDecode_write ⟨hv, hsize, hneg⟩] at hw
  exact (Except.ok.inj hw).symm

/-! ### A negative integer of eight bytes inside a map

The decoder goes on in the state that reads such an integer. The next one is taken for a key, and
the map is not completed. -/

/-- **Nothing is read** after a negative integer of eight bytes, if another key is expected. -/
theorem not_read_of_nint {input : List UInt8} {b : Builder} {slot : Slot} {below : List Frame}
    (hstack : b.stack = ⟨.map items, n, slot⟩ :: below) (hkey : b.iterInMapKey = true)
    (v : CborObject) : (runAll ⟨input, .nint .eight, b⟩ >>= fun m => m.builder.finish) ≠ .ok v := by
  have hend : ∀ {l : List UInt8} {c : Builder}, c.stack = ⟨.map items, n, slot⟩ :: below →
      l.length < 8 → (runAll ⟨l, .nint .eight, c⟩ >>= fun m => m.builder.finish) ≠ .ok v := by
    intro l c hc hl
    have hstep : step ⟨l, .nint .eight, c⟩ = .ok none := if_neg (by simpa [Width.size] using hl)
    rw [runAll_of_none hstep, ne_eq, bind_eq_ok]
    rintro ⟨m, hm, hfinish⟩
    obtain rfl := Except.ok.inj hm
    simp [Builder.finish, hc] at hfinish
  rcases Nat.lt_or_ge input.length 8 with hlt | hge
  · exact hend hstack hlt
  · -- the next eight bytes become the key
    obtain ⟨key, hput⟩ : ∃ key, b.put (nintValue .eight (BigEndian.value (input.take 8))) =
        .ok ⟨b.result, ⟨.map items, n, slot⟩ :: below, false, some (.extraInt key false)⟩ := by
      refine ⟨UInt64.ofNat (BigEndian.value (input.take 8) + 1), ?_⟩
      rw [Builder.put_of_next (Builder.next_key hstack hkey), hstack]
      rfl
    have hstep : step ⟨input, .nint .eight, b⟩ = .ok (some ⟨input.drop 8, .nint .eight,
        ⟨b.result, ⟨.map items, n, slot⟩ :: below, false, some (.extraInt key false)⟩⟩) := by
      rw [step]
      refine (if_pos hge).trans (after_eq_ok.mpr ⟨rfl, ?_⟩)
      show (do pure (nintState .eight,
        ← b.put (nintValue .eight (BigEndian.value (input.take 8))))) = _
      rw [hput]
      rfl
    rw [runAll_step hstep]
    rcases Nat.lt_or_ge (input.drop 8).length 8 with hlt | hge'
    · exact hend rfl hlt
    · -- such a key is refused when the value comes
      have herror : step ⟨input.drop 8, .nint .eight,
          ⟨b.result, ⟨.map items, n, slot⟩ :: below, false, some (.extraInt key false)⟩⟩ =
            .error "invalid map key type" := by
        rw [step]
        exact (if_pos hge').trans rfl
      rw [runAll, run, herror]
      intro hok
      cases hok

/-- A map with a negative integer of eight bytes before another entry cannot be read. -/
theorem cborDecode_ne_of_nint {k l : Text} {g : CborObject} (hk : k.length < 2 ^ 31)
    (hm : m < 2 ^ 64) (hge : 2 ^ 32 ≤ m) (hg : writeCborObject g = writeTypeValue 1 m)
    (hle : (writeCborObject (.map [(k, g), (l, w)])).length ≤ outputLimit) (v : CborObject) :
    cborDecode (writeCborObject (.map [(k, g), (l, w)])) ≠ .ok v := by
  rcases Nat.lt_or_eq_of_le hle with hlt | heq
  swap
  · rw [cborDecode_of_length heq]
    nofun
  rw [cborDecode, inputOf, signedInt_of_lt hlt, Int.toNat_natCast, List.take_length, Machine.start]
  have hwrite : writeCborObject (.map [(k, g), (l, w)]) = writeTypeValue 5 2 ++
      (writeString k ++ (writeTypeValue 1 m ++ writeEntries [(l, w)])) := by
    rw [writeCborObject, writeEntries, hg]
    rfl
  have hopen := steps_map (writeString k ++ (writeTypeValue 1 m ++ writeEntries [(l, w)]))
    (n := 2) (by omega) (Builder.openContainer_of_next (b := ⟨none, [], true, none⟩) rfl
      (by simp : Slot.item ≠ .key) (by omega))
  have hkey : Steps
      ⟨writeString k ++ (writeTypeValue 1 m ++ writeEntries [(l, w)]), .type,
        ⟨none, [⟨.map [], 2, .item⟩], true, none⟩⟩
      ⟨writeTypeValue 1 m ++ writeEntries [(l, w)], .type,
        ⟨none, [⟨.map [], 2, .item⟩], false, some (.string k)⟩⟩ :=
    steps_string hk (Builder.put_of_next (Builder.next_key rfl rfl))
  have hvalue : Steps
      ⟨writeTypeValue 1 m ++ writeEntries [(l, w)], .type,
        ⟨none, [⟨.map [], 2, .item⟩], false, some (.string k)⟩⟩
      ⟨writeEntries [(l, w)], nintState (Width.of m),
        ⟨none, [⟨.map [(k, nint m)], 2, .item⟩], true, some (.string k)⟩⟩ :=
    steps_nint hm (Builder.put_of_next (Builder.next_entry rfl rfl rfl))
  have hwidth : nintState (Width.of m) = .nint .eight := by
    rw [Width.of, if_neg (by omega), if_neg (by omega), if_neg (by omega)]
    rfl
  rw [hwrite, runAll_steps (hopen.trans (hkey.trans hvalue)), hwidth]
  exact not_read_of_nint rfl rfl v

/-! ### A single integer -/

theorem isInteger_pint (n : ℕ) : (pint n).isInteger = true := by
  rcases pint_eq n with ⟨-, h⟩ | h <;> rw [h] <;> rfl

theorem isInteger_nint (n : ℕ) : (nint n).isInteger = true := by
  unfold nint nintValue
  split_ifs <;> first | rfl | (split <;> rfl)

theorem forceAsInt_pint (n : ℕ) : (pint n).forceAsInt = .ok (Int64.ofNat n) := by
  rcases pint_eq n with ⟨-, h⟩ | h
  · rw [h, CborObject.forceAsInt]
  · rw [h, CborObject.forceAsInt, if_pos rfl, UInt64.toInt64_ofNat']

theorem forceAsInt_extraInt (h : m ≤ 2 ^ 63) :
    (CborObject.extraInt (UInt64.ofNat m) false).forceAsInt = .ok (Int64.ofInt (-m)) := by
  rw [CborObject.forceAsInt, UInt64.toInt64_ofNat', if_neg (by simp)]
  congr 1
  rcases Nat.lt_or_eq_of_le h with h | rfl
  · have htoInt : (Int64.ofNat m).toInt = m := Int64.toInt_ofNat_of_lt h
    have hle : 0 ≤ Int64.ofNat m := by
      rw [Int64.le_iff_toInt_le, htoInt, Int64.toInt_zero]
      omega
    rw [if_pos hle, ← Int64.toInt_inj, Int64.toInt_neg, htoInt,
      Int64.toInt_ofInt_of_le (by omega) (by omega), Int.bmod_def]
    omega
  · decide

theorem forceAsInt_nint (h : n < 2 ^ 63) :
    (nint n).forceAsInt = .ok (if n = 2 ^ 32 - 1 then 0 else Int64.ofInt (-n - 1)) := by
  rcases Nat.lt_or_ge n (2 ^ 31) with hlt | hge
  · rw [nint_of_lt hlt, if_neg (by omega), CborObject.forceAsInt]
  · rcases Nat.lt_or_ge n (2 ^ 32) with hlt | hge'
    · have hnint : nint n = .extraInt (UInt64.ofNat (unsignedInt (n + 1))) false := by
        rw [nint, if_neg (by omega), Width.of, if_neg (by omega), if_neg (by omega),
          if_pos (by omega)]
        exact if_neg (by simp only [intMax]; omega)
      rw [hnint, forceAsInt_extraInt (by unfold unsignedInt; omega)]
      congr 1
      split
      · rename_i heq
        subst heq
        rfl
      · rw [show unsignedInt (n + 1) = n + 1 from Nat.mod_eq_of_lt (by omega)]
        congr 1
        omega
    · have hnint : nint n = .extraInt (UInt64.ofNat (n + 1)) false := by
        rw [nint, if_neg (by omega), Width.of, if_neg (by omega), if_neg (by omega),
          if_neg (by omega)]
        rfl
      rw [hnint, forceAsInt_extraInt (by omega), if_neg (by omega)]
      congr 2
      omega

theorem length_writeTypeValue_le (majorType n : ℕ) : (writeTypeValue majorType n).length ≤ 9 := by
  unfold writeTypeValue
  split_ifs <;> simp [BigEndian.length_bytes]

/-- A negative integer that nothing follows: the decoder may be in the wrong state afterwards. -/
theorem cborDecode_nint (h : n < 2 ^ 63) : cborDecode (writeTypeValue 1 n) = .ok (nint n) := by
  have hlen := length_writeTypeValue_le 1 n
  have hinput : inputOf (writeTypeValue 1 n) = writeTypeValue 1 n ++ [] := by
    rw [inputOf, signedInt_of_lt (by omega), Int.toNat_natCast, List.take_length, List.append_nil]
  have hsteps : Steps ⟨writeTypeValue 1 n ++ [], .type, ⟨none, [], true, none⟩⟩ _ :=
    steps_nint (by omega) (Builder.put_of_next (v := nint n) rfl)
  have hstop : ∀ width b, runAll ⟨[], nintState width, b⟩ = .ok ⟨[], nintState width, b⟩ :=
    fun width b => runAll_of_none (by cases width <;> rfl)
  rw [cborDecode, hinput, Machine.start, runAll_steps hsteps, hstop]
  rfl

/-- **A single integer is read back as it was**, but for `-2 ^ 32`. -/
theorem cborDecode_int (n : Int64) :
    ∃ w, cborDecode (writeCborObject (.int n)) = .ok w ∧ w.isInteger = true ∧
      w.forceAsInt = .ok (if n.toInt = -2 ^ 32 then 0 else n) := by
  have hmin := n.le_toInt
  have hmax := n.toInt_lt
  rw [writeCborObject, writeInt]
  split
  · rename_i hneg
    rw [Int64.lt_iff_toInt_lt, Int64.toInt_zero] at hneg
    refine ⟨_, cborDecode_nint (by omega), isInteger_nint _, ?_⟩
    rw [forceAsInt_nint (by omega)]
    congr 1
    split
    · rw [if_pos (by omega)]
    · rw [if_neg (by omega), ← Int64.toInt_inj, Int64.toInt_ofInt_of_le (by omega) (by omega)]
      omega
  · rename_i hnonneg
    have hle := hnonneg
    rw [Int64.lt_iff_toInt_lt, Int64.toInt_zero] at hle
    have hsize := length_writeTypeValue_le 0 n.toInt.toNat
    have hread : Readable (.int n) := by
      refine ⟨trivial, ?_, fun m hm => ?_⟩
      · rw [writeCborObject, writeInt, if_neg hnonneg]
        omega
      · obtain rfl : m = n.toInt := by simpa [CborObject.integers] using hm
        omega
    have hdecode := cborDecode_write hread
    rw [writeCborObject, writeInt, if_neg hnonneg, decoded, if_neg hnonneg] at hdecode
    refine ⟨_, hdecode, isInteger_pint _, ?_⟩
    rw [forceAsInt_pint, if_neg (by omega)]
    refine congrArg Except.ok ?_
    have hlt : n.toInt.toNat < 2 ^ 63 := by omega
    rw [← Int64.toInt_inj, Int64.toInt_ofNat_of_lt hlt, Int.toNat_of_nonneg (by omega)]

end Whitecoin.Cbor
