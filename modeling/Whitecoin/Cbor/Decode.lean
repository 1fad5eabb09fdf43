import Mathlib.Logic.Relation
import Whitecoin.Cbor.Encode

/-!
# The CBOR decoder

`decoder::run` is a loop over a state machine. A head either gives a value at once or leads to a
state that waits for the bytes of a number, of a size or of a text. Containers that miss items are
kept on a stack, and a value that has been read goes to the container on top.

The source puts a new container into its parent at once, through a shared pointer, and pops the
parent when that was its last item. Here a container stands on the stack until it is complete, with
the place where it goes, and a parent stays below its open child; the container on top is the same.

The loop stops when the input has too few bytes for the state it is in. In the branch for negative
integers of eight bytes the source does not return to the state that reads a head.
-/

namespace Whitecoin.Cbor

open Check

/-- `decoder_state`, with the `_currentLength` that belongs to it. -/
inductive DecoderState where
  | type
  | pint (width : Width)
  | nint (width : Width)
  | bytesSize (width : Width)
  | bytesData (length : ℤ)
  | stringSize (width : Width)
  | stringData (length : ℤ)
  | array (width : Width)
  | map (width : Width)
  | tag (width : Width)

/-- What an open container holds so far. -/
inductive Container where
  | array (items : List CborObject)
  | map (items : List (Text × CborObject))

namespace Container

def size : Container → ℕ
  | array items => items.length
  | map items => items.length

def close : Container → CborObject
  | array items => .array items
  | map items => .map items

end Container

/-- Where a value goes. -/
inductive Slot where
  /-- The next item of an array, or the result. -/
  | item
  /-- The value of a map at a key. -/
  | entry (key : Text)
  /-- `map_key_temp`. -/
  | key

/-- An open container, its `array_or_map_size`, and where it goes when it is complete. -/
structure Frame where
  contents : Container
  size : ℕ
  slot : Slot

/-- The contents with one more value. -/
def Frame.add (f : Frame) (slot : Slot) (v : CborObject) : Container :=
  match f.contents, slot with
  | .array items, .item => .array (items ++ [v])
  | .map items, .entry k => .map (OrdMap.set items k v)
  | c, _ => c

/-- The variables that `put_decoded_value` works on. -/
structure Builder where
  result : Option CborObject
  stack : List Frame
  iterInMapKey : Bool
  mapKeyTemp : Option CborObject

namespace Builder

/-- `put_decoded_value`, first half: where the next value goes. -/
def next (b : Builder) : Except String (Builder × Slot) :=
  match b.stack with
  | [] =>
    if b.result.isSome then .error "multiple cbor object when decoding" else .ok (b, .item)
  | f :: _ =>
    match f.contents with
    | .array _ => .ok (b, .item)
    | .map _ =>
      if b.iterInMapKey then .ok ({ b with iterInMapKey := false }, .key)
      else
        match b.mapKeyTemp with
        | some (.string k) => .ok ({ b with iterInMapKey := true }, .entry k)
        | _ => .error "invalid map key type"

/-- `put_decoded_value`, second half: put a value in its place. A container that is complete by that
goes to its own place. -/
def complete (b : Builder) : List Frame → Slot → CborObject → Builder
  | [], _, v => { b with stack := [], result := some v }
  | f :: rest, .key, v => { b with stack := f :: rest, mapKeyTemp := some v }
  | f :: rest, slot, v =>
    if f.size ≤ (f.add slot v).size then b.complete rest f.slot (f.add slot v).close
    else { b with stack := { f with contents := f.add slot v } :: rest }

/-- `put_decoded_value` for a value without items. -/
def put (b : Builder) (v : CborObject) : Except String Builder := do
  let (b, slot) ← b.next
  pure (b.complete b.stack slot v)

/-- The new container is `map_key_temp` if it stands where a key is expected. -/
def noteKey (b : Builder) (slot : Slot) (contents : Container) : Builder :=
  match slot with
  | .key => { b with mapKeyTemp := some contents.close }
  | _ => b

/-- `put_decoded_value` for a new container of the given size. -/
def openContainer (b : Builder) (contents : Container) (size : ℕ) : Except String Builder := do
  if size = 0 then b.put contents.close
  else
    let (b, slot) ← b.next
    pure { b.noteKey slot contents with stack := ⟨contents, size, slot⟩ :: b.stack }

end Builder

/-! ### The states -/

/-- The width that the low bits of a first byte announce. -/
def Width.ofMinor : ℕ → Option Width
  | 24 => some .one
  | 25 => some .two
  | 26 => some .four
  | 27 => some .eight
  | _ => none

/-- `INT_MAX`. -/
def intMax : ℕ := 2147483647

/-- The object for a positive integer, `STATE_PINT`. -/
def pintValue (width : Width) (n : ℕ) : CborObject :=
  match width with
  | .one | .two => .int (Int64.ofNat n)
  | .four =>
    if n ≤ intMax then .int (Int64.ofNat n) else .extraInt (UInt64.ofNat n) true
  | .eight => .extraInt (UInt64.ofNat n) true

/-- The object for a negative integer, `STATE_NINT`. In four bytes the sum is one of
`unsigned int`. -/
def nintValue (width : Width) (n : ℕ) : CborObject :=
  match width with
  | .one | .two => .int (Int64.ofInt (-n - 1))
  | .four =>
    if n ≤ intMax then .int (Int64.ofInt (-n - 1))
    else .extraInt (UInt64.ofNat (unsignedInt (n + 1))) false
  | .eight => .extraInt (UInt64.ofNat (n + 1)) false

/-- The state after a negative integer: in the branch for eight bytes the source does not set it. -/
def nintState : Width → DecoderState
  | .eight => .nint .eight
  | _ => .type

/-- The conversion of an `unsigned int` to `int`. -/
def signedInt (n : ℕ) : ℤ := Int.bmod n (2 ^ 32)

/-- The size of a text. -/
def sizeOfText (width : Width) (n : ℕ) (message : String) : Except String ℤ :=
  match width with
  | .eight => .error message
  | _ => .ok (signedInt n)

/-- The size of a container. -/
def sizeOfContainer (width : Width) (n : ℕ) (message : String) : Except String ℕ :=
  match width with
  | .eight => .error message
  | _ => .ok n

def tagValue (width : Width) (n : ℕ) : CborObject :=
  match width with
  | .eight => .extraTag (UInt64.ofNat n)
  | _ => .tag (UInt32.ofNat n)

/-- The state after a value has been put. -/
def withType (x : Except String Builder) : Except String (DecoderState × Builder) := do
  pure (.type, ← x)

/-- Wait for a number of the announced width. -/
def await (b : Builder) (minorType : ℕ) (state : Width → DecoderState) (message : String) :
    Except String (DecoderState × Builder) := do
  pure (state (← found (Width.ofMinor minorType) message), b)

/-- `STATE_TYPE`. -/
def readType (b : Builder) (majorType minorType : ℕ) : Except String (DecoderState × Builder) :=
  match majorType with
  | 0 =>
    if minorType < 24 then withType (b.put (.int (Int64.ofNat minorType)))
    else await b minorType .pint "invalid integer type"
  | 1 =>
    if minorType < 24 then withType (b.put (.int (Int64.ofInt (-1 - minorType))))
    else await b minorType .nint "invalid integer type"
  | 2 =>
    if minorType < 24 then .ok (.bytesData minorType, b)
    else await b minorType .bytesSize "invalid bytes type"
  | 3 =>
    if minorType < 24 then .ok (.stringData minorType, b)
    else await b minorType .stringSize "invalid string type"
  | 4 =>
    if minorType < 24 then withType (b.openContainer (.array []) minorType)
    else await b minorType .array "invalid array type"
  | 5 =>
    if minorType < 24 then withType (b.openContainer (.map []) minorType)
    else await b minorType .map "invalid array type"
  | 6 =>
    if minorType < 24 then withType (b.put (.tag (UInt32.ofNat minorType)))
    else await b minorType .tag "invalid tag type"
  | _ =>
    match minorType with
    | 20 => withType (b.put (.bool false))
    | 21 => withType (b.put (.bool true))
    | 22 => withType (b.put .null)
    | 23 => withType (b.put .undefined)
    -- the states of a double are left out
    | _ => .error "invalid float type"

/-- The states that wait for a number, when it has been read. -/
def readNumber (b : Builder) (n : ℕ) : DecoderState → Except String (DecoderState × Builder)
  | .pint width => withType (b.put (pintValue width n))
  | .nint width => do pure (nintState width, ← b.put (nintValue width n))
  | .bytesSize width => do pure (.bytesData (← sizeOfText width n "extra long bytes"), b)
  | .stringSize width => do pure (.stringData (← sizeOfText width n "extra long array"), b)
  | .array width => do
    withType (b.openContainer (.array []) (← sizeOfContainer width n "extra long array"))
  | .map width => do
    withType (b.openContainer (.map []) (← sizeOfContainer width n "extra long map"))
  | .tag width => withType (b.put (tagValue width n))
  | state => .ok (state, b)

/-- What a state waits for. -/
inductive Needs where
  | head
  | number (width : Width)
  | text (make : List UInt8 → CborObject) (length : ℤ)

def DecoderState.needs : DecoderState → Needs
  | .type => .head
  | .pint width | .nint width | .bytesSize width | .stringSize width | .array width | .map width
  | .tag width => .number width
  | .bytesData length => .text .bytes length
  | .stringData length => .text .string length

/-- The variables of `decoder::run`. -/
structure Machine where
  input : List UInt8
  state : DecoderState
  builder : Builder

/-- The variables after an iteration that leaves the given input. -/
def Machine.after (rest : List UInt8) (x : Except String (DecoderState × Builder)) :
    Except String (Option Machine) := do
  let (state, builder) ← x
  pure (some ⟨rest, state, builder⟩)

/-- One iteration of the loop; `none` is its `break`. -/
def step (m : Machine) : Except String (Option Machine) :=
  match m.state.needs with
  | .head =>
    match m.input with
    | [] => .ok none
    | c :: rest => Machine.after rest (readType m.builder (c.toNat / 32) (c.toNat % 32))
  | .number width =>
    if width.size ≤ m.input.length then
      Machine.after (m.input.drop width.size)
        (readNumber m.builder (BigEndian.value (m.input.take width.size)) m.state)
    else .ok none
  | .text make length =>
    -- `std::vector` of a negative size
    if length < 0 then .error "vector::_M_default_append"
    else if length.toNat ≤ m.input.length then
      Machine.after (m.input.drop length.toNat)
        (withType (m.builder.put (make (m.input.take length.toNat))))
    else .ok none

/-- The loop, with a bound on the number of iterations. -/
def run : ℕ → Machine → Except String Machine
  | 0, _ => .error "the loop has not ended"
  | fuel + 1, m =>
    match step m with
    | .error e => .error e
    | .ok none => .ok m
    | .ok (some m') => run fuel m'

/-- A bound on the number of iterations: a head or a number uses up a byte, and a text of no bytes
follows one of them. -/
def Machine.measure (m : Machine) : ℕ :=
  2 * m.input.length + match m.state.needs with
    | .text _ _ => 1
    | _ => 0

/-- The loop with enough iterations. -/
def runAll (m : Machine) : Except String Machine := run (m.measure + 1) m

/-- The variables at the beginning. -/
def Machine.start (input : List UInt8) : Machine := ⟨input, .type, ⟨none, [], true, none⟩⟩

/-- The end of `decoder::run`. -/
def Builder.finish (b : Builder) : Except String CborObject :=
  match b.stack, b.result with
  | _ :: _, _ => .error "cbor decode fail with not finished structures"
  | [], none => .error "cbor decoded nothing"
  | [], some v => .ok v

/-- The bytes that `input` sees: it counts them by an `int`. -/
def inputOf (bytes : List UInt8) : List UInt8 := bytes.take (signedInt bytes.length).toNat

/-- `cbor_decode`. -/
def cborDecode (bytes : List UInt8) : Except String CborObject := do
  let m ← runAll (.start (inputOf bytes))
  m.builder.finish

/-! ### The loop ends -/

variable {m m' : Machine}

theorem after_eq_ok {rest : List UInt8} {x : Except String (DecoderState × Builder)} :
    Machine.after rest x = .ok (some m) ↔ m.input = rest ∧ x = .ok (m.state, m.builder) := by
  simp only [Machine.after, bind_eq_ok, Prod.exists, pure_eq_ok, Option.some.injEq]
  constructor
  · rintro ⟨state, builder, rfl, rfl⟩
    exact ⟨rfl, rfl⟩
  · rintro ⟨rfl, rfl⟩
    exact ⟨_, _, rfl, rfl⟩

theorem withType_eq_ok {x : Except String Builder} {state : DecoderState} {b : Builder} :
    withType x = .ok (state, b) ↔ state = .type ∧ x = .ok b := by
  cases x <;> simp [withType, bind, Except.bind, pure, Except.pure, eq_comm]

theorem Width.size_pos (w : Width) : 0 < w.size := by
  cases w <;> decide

theorem measure_le (m : Machine) : m.measure ≤ 2 * m.input.length + 1 := by
  unfold Machine.measure
  split <;> omega

theorem step_measure_lt (h : step m = .ok (some m')) : m'.measure < m.measure := by
  have hle := measure_le m'
  unfold step at h
  split at h
  · split at h
    · simp at h
    · rename_i hneeds _ c rest hinput
      obtain ⟨hrest, -⟩ := after_eq_ok.mp h
      simp only [Machine.measure, hneeds, hinput, List.length_cons] at hle ⊢
      rw [hrest] at hle ⊢
      omega
  · rename_i width hneeds
    split at h
    · obtain ⟨hrest, -⟩ := after_eq_ok.mp h
      have := width.size_pos
      simp only [Machine.measure, hneeds] at hle ⊢
      rw [hrest, List.length_drop] at hle ⊢
      omega
    · simp at h
  · rename_i make length hneeds
    split at h
    · simp at h
    · split at h
      · obtain ⟨hrest, hput⟩ := after_eq_ok.mp h
        obtain ⟨hstate, -⟩ := withType_eq_ok.mp hput
        have hm' : m'.measure = 2 * m'.input.length := by rw [Machine.measure, hstate]; rfl
        rw [hm', hrest, List.length_drop]
        simp only [Machine.measure, hneeds]
        omega
      · simp at h

theorem run_eq_runAll {fuel : ℕ} (h : m.measure < fuel) : run fuel m = runAll m := by
  induction fuel using Nat.strong_induction_on generalizing m with
  | _ fuel ih =>
    obtain _ | fuel := fuel
    · omega
    · rw [runAll, run, run]
      cases hs : step m with
      | error e => rfl
      | ok o =>
        cases o with
        | none => rfl
        | some m' =>
          have hlt := step_measure_lt hs
          simp only
          rcases Nat.lt_or_ge m.measure fuel with hf | hf
          · rw [ih fuel (by omega) (by omega), ih m.measure (by omega) hlt]
          · rw [show fuel = m.measure by omega]

/-- `m'` is reached from `m` in some iterations. -/
def Steps : Machine → Machine → Prop := Relation.ReflTransGen fun m m' => step m = .ok (some m')

theorem Steps.trans {m'' : Machine} (h : Steps m m') (h' : Steps m' m'') : Steps m m'' :=
  Relation.ReflTransGen.trans h h'

theorem runAll_step (h : step m = .ok (some m')) : runAll m = runAll m' := by
  rw [runAll, run, h]
  exact run_eq_runAll (step_measure_lt h)

/-- **A run may be cut at any state that it passes.** -/
theorem runAll_steps (h : Steps m m') : runAll m = runAll m' := by
  induction h with
  | refl => rfl
  | tail _ hs ih => rw [ih, runAll_step hs]

theorem runAll_of_none (h : step m = .ok none) : runAll m = .ok m := by
  rw [runAll, run, h]

theorem runAll_induction {P : Machine → Prop} (hm : P m)
    (hstep : ∀ m m', P m → step m = .ok (some m') → P m') (h : runAll m = .ok m') : P m' := by
  have key : ∀ fuel m, P m → run fuel m = .ok m' → P m' := by
    intro fuel
    induction fuel with
    | zero => nofun
    | succ fuel ih =>
      intro m hm h
      rw [run] at h
      split at h
      · simp at h
      · obtain rfl := Except.ok.inj h
        exact hm
      · rename_i m₁ hs
        exact ih m₁ (hstep m m₁ hm hs) h
  exact key _ m hm h

end Whitecoin.Cbor
