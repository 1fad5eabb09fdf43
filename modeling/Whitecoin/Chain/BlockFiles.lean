import Mathlib.Algebra.Order.Ring.Int
import Whitecoin.Chain.BlockDatabase
import Whitecoin.Lib.Check

/-!
# The files of the block store

`block_database` keeps two files. Blocks are appended to the one, and the other has a record of
fixed size for each block number: where the block is, how long it is, and its id. A record beyond
the end of the file is written after a gap of zeros. Removing a block sets the size in its record to
zero and leaves the rest.

The readers look at different parts of a record. Most of them find that nothing is there: the size
is zero, or the bytes of the block are none and cannot be unpacked. `fetch_block_id` looks only at
the id, which a record keeps when its block is removed.
-/

namespace Whitecoin.Chain

open Check

/-- How blocks are packed. Nothing is unpacked from no bytes. -/
structure BlockFormat (B Id : Type) extends BlockIds B Id where
  pack : B → List UInt8
  unpack : List UInt8 → Option B
  unpack_pack : ∀ b, unpack (pack b) = some b
  unpack_nil : unpack [] = none

/-- `index_entry`, a record of the index file. -/
structure IndexRecord (Id : Type) where
  blockPos : ℕ
  blockSize : ℕ
  blockId : Id

/-- The two files, the index as its records. -/
structure BlockFiles (Id : Type) where
  index : List (IndexRecord Id)
  blocks : List UInt8

namespace BlockFiles

variable {B Id : Type} [DecidableEq Id] (F : BlockFormat B Id)

/-! ### The calls -/

/-- A record of zeros. -/
def zeroRecord : IndexRecord Id := ⟨0, 0, F.null⟩

/-- Write a record. What is between it and the end of the file is filled with zeros. -/
def writeRecord (index : List (IndexRecord Id)) (num : ℕ) (e : IndexRecord Id) :
    List (IndexRecord Id) :=
  (index.rightpad (num + 1) (zeroRecord F)).set num e

/-- `block_database::store`. -/
def store (s : BlockFiles Id) (id : Id) (b : B) : BlockFiles Id :=
  let id := if id = F.null then F.id b else id
  let vec := F.pack b
  let e : IndexRecord Id := ⟨s.blocks.length, vec.length % 2 ^ 32, id⟩
  { index := writeRecord F s.index (F.numFromId id) e
    blocks := s.blocks ++ vec }

/-- `block_database::remove`. -/
def remove (s : BlockFiles Id) (id : Id) : Except String (BlockFiles Id) := do
  let e ← found s.index[F.numFromId id]? "Block not contained in block database"
  if e.blockId = id then
    return { s with index := writeRecord F s.index (F.numFromId id) { e with blockSize := 0 } }
  else return s

/-- `block_database::contains`. -/
def contains (s : BlockFiles Id) (id : Id) : Bool :=
  if id = F.null then false
  else match s.index[F.numFromId id]? with
    | some e => e.blockId = id ∧ 0 < e.blockSize
    | none => false

/-- `block_database::fetch_block_id`. -/
def fetchBlockId (s : BlockFiles Id) (blockNum : ℕ) : Except String Id := do
  let e ← found s.index[blockNum]? "Block number not contained in block database"
  require (e.blockId ≠ F.null) "Empty block_id in block_database (maybe corrupt on disk?)"
  return e.blockId

/-- Read the block of a record; too few bytes are an error, and so are bytes that are no block. -/
def readBlock (s : BlockFiles Id) (e : IndexRecord Id) : Option B :=
  let data := (s.blocks.drop e.blockPos).take e.blockSize
  if data.length < e.blockSize then none else F.unpack data

/-- `block_database::fetch_optional`. -/
def fetchOptional (s : BlockFiles Id) (id : Id) : Option B := do
  let e ← s.index[F.numFromId id]?
  if e.blockId ≠ id then none
  else
    let b ← readBlock F s e
    if F.id b = e.blockId then some b else none

/-- `block_database::fetch_by_number`. -/
def fetchByNumber (s : BlockFiles Id) (blockNum : ℕ) : Option B := do
  let e ← s.index[blockNum]?
  let b ← readBlock F s e
  if F.id b = e.blockId then some b else none

/-- The loop of `last` and `last_id`: from a position down to a record with a size, or to the first
record. -/
def lastRecord (index : List (IndexRecord Id)) : ℕ → IndexRecord Id → Option (IndexRecord Id)
  | 0, e => some e
  | pos + 1, e =>
    if e.blockSize = 0 then index[pos]?.bind (lastRecord index pos) else some e

/-- The record that `last` and `last_id` find. -/
def findLast (s : BlockFiles Id) : Option (IndexRecord Id) := do
  let e ← s.index.getLast?
  let e ← lastRecord s.index s.index.length e
  if e.blockSize = 0 then none else some e

/-- `block_database::last`. -/
def last (s : BlockFiles Id) : Option B := (findLast s).bind (readBlock F s)

/-- `block_database::last_id`. -/
def lastId (s : BlockFiles Id) : Option Id := (findLast s).map IndexRecord.blockId

/-! ### The reference -/

/-- What is kept for a block number: nothing was stored, or a block, or the block was removed. -/
inductive Slot (B : Type) where
  | empty
  | stored (b : B)
  | removed (b : B)

/-- The last block that was stored, unless it was removed. -/
def Slot.block {B : Type} : Slot B → Option B
  | .stored b => some b
  | _ => none

/-- The map that the files stand for. -/
abbrev Reference (B : Type) := ℕ → Slot B

/-- A call that changes the files. -/
inductive Call (B Id : Type) where
  | store (id : Id) (b : B)
  | remove (id : Id)

/-- A block is stored under its own id, or under none, and its size fits into a record. -/
def Call.Proper : Call B Id → Prop
  | .store id b => (id = F.null ∨ id = F.id b) ∧ (F.pack b).length < 2 ^ 32
  | .remove _ => True

/-- A call on the files; one that throws changes nothing. -/
def apply (s : BlockFiles Id) : Call B Id → BlockFiles Id
  | .store id b => s.store F id b
  | .remove id => attempted s (s.remove F id)

/-- A call on the map. -/
def Reference.apply (r : Reference B) : Call B Id → Reference B
  | .store _ b => Function.update r (F.numFromId (F.id b)) (.stored b)
  | .remove id =>
    match r (F.numFromId id) with
    | .stored b => if F.id b = id then Function.update r (F.numFromId id) (.removed b) else r
    | _ => r

/-- The block with an id. -/
def Reference.fetchOptional (r : Reference B) (id : Id) : Option B :=
  (r (F.numFromId id)).block.filter (F.id · = id)

/-- The block has the largest number. -/
def Reference.IsLast (r : Reference B) (b : B) : Prop :=
  ∃ n, (r n).block = some b ∧ ∀ m, n < m → (r m).block = none

/-! ### The files stand for the map -/

/-- A place of the index, and what is kept for the block number. -/
inductive Recorded (blocks : List UInt8) (n : ℕ) : Option (IndexRecord Id) → Slot B → Prop
  | missing : Recorded blocks n none .empty
  | zero (pos : ℕ) : Recorded blocks n (some ⟨pos, 0, F.null⟩) .empty
  | stored (b : B) (before after : List UInt8) (hn : F.numFromId (F.id b) = n)
      (hblocks : blocks = before ++ (F.pack b ++ after)) :
      Recorded blocks n (some ⟨before.length, (F.pack b).length, F.id b⟩) (.stored b)
  | removed (b : B) (pos : ℕ) (hn : F.numFromId (F.id b) = n) :
      Recorded blocks n (some ⟨pos, 0, F.id b⟩) (.removed b)

/-- **The files stand for the map.** -/
def Refines (s : BlockFiles Id) (r : Reference B) : Prop :=
  ∀ n, Recorded F s.blocks n s.index[n]? (r n)

variable {F} {s : BlockFiles Id} {r : Reference B}

variable {blocks : List UInt8} {n num : ℕ} {k : Slot B} {e : IndexRecord Id} {b : B}

omit [DecidableEq Id] in
theorem Recorded.append {e : Option (IndexRecord Id)} (h : Recorded F blocks n e k)
    (vec : List UInt8) : Recorded F (blocks ++ vec) n e k := by
  cases h with
  | missing => exact .missing
  | zero pos => exact .zero pos
  | stored b before after hn hblocks =>
    refine .stored b before (after ++ vec) hn ?_
    rw [hblocks, List.append_assoc, List.append_assoc]
  | removed b pos hn => exact .removed b pos hn

omit [DecidableEq Id] in
theorem length_writeRecord (index : List (IndexRecord Id)) (num : ℕ) (e : IndexRecord Id) :
    (writeRecord F index num e).length = max index.length (num + 1) := by
  rw [writeRecord, List.length_set, List.length_rightpad]
  omega

omit [DecidableEq Id] in
theorem getElem?_writeRecord_self (index : List (IndexRecord Id)) (num : ℕ) (e : IndexRecord Id) :
    (writeRecord F index num e)[num]? = some e := by
  rw [writeRecord, List.getElem?_set_self]
  rw [List.length_rightpad]
  omega

omit [DecidableEq Id] in
theorem getElem?_writeRecord_of_ne (index : List (IndexRecord Id)) (e : IndexRecord Id)
    (h : n ≠ num) :
    (writeRecord F index num e)[n]? = index[n]? ∨
      index[n]? = none ∧ (writeRecord F index num e)[n]? = some (zeroRecord F) := by
  rw [writeRecord, List.getElem?_set_ne h.symm, List.rightpad]
  rcases Nat.lt_or_ge n index.length with hn | hn
  · exact .inl (List.getElem?_append_left hn)
  · have hnone : index[n]? = none := List.getElem?_eq_none hn
    rw [List.getElem?_append_right hn, List.getElem?_replicate, hnone]
    split
    · exact .inr ⟨rfl, rfl⟩
    · exact .inl rfl

omit [DecidableEq Id] in
theorem Refines.write (h : Refines F s r) (vec : List UInt8)
    (hk : Recorded F (s.blocks ++ vec) num (some e) k) :
    Refines F ⟨writeRecord F s.index num e, s.blocks ++ vec⟩ (Function.update r num k) := by
  intro n
  show Recorded F (s.blocks ++ vec) n (writeRecord F s.index num e)[n]? _
  by_cases hn : n = num
  · subst hn
    rw [getElem?_writeRecord_self, Function.update_self]
    exact hk
  · rw [Function.update_of_ne hn]
    have hr := (h n).append vec
    rcases getElem?_writeRecord_of_ne (F := F) s.index e hn with he | ⟨hnone, he⟩
    · rwa [he]
    · -- a record that was beyond the end of the file is zero now
      rw [hnone] at hr
      rw [he]
      generalize r n = k' at hr
      cases hr
      exact .zero 0

theorem Refines.store (h : Refines F s r) {id : Id} (hid : id = F.null ∨ id = F.id b)
    (hsize : (F.pack b).length < 2 ^ 32) :
    Refines F (s.store F id b) (Function.update r (F.numFromId (F.id b)) (.stored b)) := by
  have hid' : (if id = F.null then F.id b else id) = F.id b := by
    split
    · rfl
    · exact hid.resolve_left ‹_›
  rw [BlockFiles.store]
  simp only [hid', Nat.mod_eq_of_lt hsize]
  exact h.write _ (.stored b s.blocks [] rfl (by rw [List.append_nil]))

theorem Refines.remove (h : Refines F s r) (id : Id) :
    Refines F (attempted s (s.remove F id)) (r.apply F (.remove id)) := by
  rw [BlockFiles.remove, Reference.apply]
  have hr := h (F.numFromId id)
  have hw {e : IndexRecord Id} {k : Slot B}
      (hk : Recorded F s.blocks (F.numFromId id) (some e) k) :
      Refines F ⟨writeRecord F s.index (F.numFromId id) e, s.blocks⟩
        (Function.update r (F.numFromId id) k) := by
    have := h.write [] (by rwa [List.append_nil])
    rwa [List.append_nil] at this
  generalize he : s.index[F.numFromId id]? = e at hr
  generalize hk : r (F.numFromId id) = k at hr
  cases hr with
  | missing => exact h
  | zero pos =>
    rw [found, ok_bind]
    split
    · have := hw (.zero pos)
      rwa [← hk, Function.update_eq_self] at this
    · exact h
  | stored b before after hn hblocks =>
    rw [found, ok_bind]
    dsimp only
    split
    · exact hw (.removed b _ hn)
    · exact h
  | removed b pos hn =>
    rw [found, ok_bind]
    dsimp only
    split
    · have := hw (.removed b pos hn)
      rwa [← hk, Function.update_eq_self] at this
    · exact h

/-! ### The readers -/

omit [DecidableEq Id] in
theorem pack_ne_nil (b : B) : F.pack b ≠ [] := by
  intro h
  have := F.unpack_pack b
  rw [h, F.unpack_nil] at this
  cases this

omit [DecidableEq Id] in
theorem readBlock_pack {before after : List UInt8} (id : Id)
    (h : s.blocks = before ++ (F.pack b ++ after)) :
    readBlock F s ⟨before.length, (F.pack b).length, id⟩ = some b := by
  have hdata : (s.blocks.drop before.length).take (F.pack b).length = F.pack b := by
    rw [h, List.drop_left, List.take_left]
  rw [readBlock]
  simp only [hdata]
  rw [if_neg (Nat.lt_irrefl _), F.unpack_pack]

omit [DecidableEq Id] in
theorem readBlock_zero (pos : ℕ) (id : Id) : readBlock F s ⟨pos, 0, id⟩ = none := by
  simp [readBlock, F.unpack_nil]

theorem Refines.fetchByNumber_eq (h : Refines F s r) (n : ℕ) :
    s.fetchByNumber F n = (r n).block := by
  rw [fetchByNumber]
  have hr := h n
  generalize s.index[n]? = e, r n = k at hr ⊢
  cases hr with
  | missing => rfl
  | zero pos => simp [readBlock_zero, Slot.block]
  | stored b before after hn hblocks => simp [readBlock_pack _ hblocks, Slot.block]
  | removed b pos hn => simp [readBlock_zero, Slot.block]

theorem Refines.fetchOptional_eq (h : Refines F s r) (id : Id) :
    s.fetchOptional F id = r.fetchOptional F id := by
  rw [BlockFiles.fetchOptional, Reference.fetchOptional]
  have hr := h (F.numFromId id)
  generalize s.index[F.numFromId id]? = e, r (F.numFromId id) = k at hr ⊢
  cases hr with
  | missing => rfl
  | zero pos => simp [readBlock_zero, Slot.block]
  | stored b before after hn hblocks =>
    by_cases hid : F.id b = id <;> simp [readBlock_pack _ hblocks, Slot.block, Option.filter, hid]
  | removed b pos hn => simp [readBlock_zero, Slot.block]

theorem Refines.contains_eq (h : Refines F s r) (id : Id) :
    s.contains F id = (r.fetchOptional F id).isSome := by
  rw [contains, Reference.fetchOptional]
  have hr := h (F.numFromId id)
  generalize s.index[F.numFromId id]? = e, r (F.numFromId id) = k at hr ⊢
  cases hr with
  | missing => simp [Slot.block]
  | zero pos => simp [Slot.block]
  | stored b before after hn hblocks =>
    have hsize : 0 < (F.pack b).length := List.length_pos_iff.mpr (pack_ne_nil b)
    by_cases hid : F.id b = id
    · subst hid
      simp [Slot.block, hsize, F.id_ne_null b]
    · simp [Slot.block, hid]
  | removed b pos hn => simp [Slot.block]

/-- **The id of a block that was removed is still found**, and no other wrong one. -/
theorem Refines.fetchBlockId_eq_iff (h : Refines F s r) (n : ℕ) :
    (s.fetchBlockId F n).toOption = (r n).block.map F.id ↔ ∀ b, r n ≠ .removed b := by
  rw [fetchBlockId]
  have hr := h n
  generalize s.index[n]? = e, r n = k at hr ⊢
  cases hr with
  | missing => simp [found, Slot.block, bind, Except.bind, Except.toOption]
  | zero pos => simp [found, require, Slot.block, bind, Except.bind, Except.toOption]
  | stored b before after hn hblocks =>
    simp [found, ok_bind, require, Slot.block, Except.toOption, F.id_ne_null b]
  | removed b pos hn =>
    simp [found, ok_bind, require, Slot.block, Except.toOption, F.id_ne_null b]

omit [DecidableEq Id] in
theorem lastRecord_spec {index : List (IndexRecord Id)} {pos : ℕ} (hpos : pos ≤ index.length)
    (he : e.blockSize = 0) :
    ∃ e', lastRecord index pos e = some e' ∧
      ((e'.blockSize = 0 ∧ ∀ n a, n < pos → index[n]? = some a → a.blockSize = 0) ∨
        ∃ n, index[n]? = some e' ∧ e'.blockSize ≠ 0 ∧
          ∀ m a, n < m → m < pos → index[m]? = some a → a.blockSize = 0) := by
  induction pos generalizing e with
  | zero => exact ⟨e, rfl, .inl ⟨he, by omega⟩⟩
  | succ pos ih =>
    obtain ⟨a, ha⟩ : ∃ a, index[pos]? = some a := ⟨_, List.getElem?_eq_getElem hpos⟩
    rw [lastRecord, if_pos he, ha, Option.bind_some]
    by_cases hsize : a.blockSize = 0
    · obtain ⟨e', he', h⟩ := ih (by omega) hsize
      -- the record at `pos` has no size either
      have hext {m : ℕ} {c : IndexRecord Id} (hm : m < pos + 1) (hc : index[m]? = some c)
          (hlt : m < pos → c.blockSize = 0) : c.blockSize = 0 := by
        rcases Nat.lt_succ_iff_lt_or_eq.mp hm with hm | rfl
        · exact hlt hm
        · rw [ha] at hc
          cases hc
          exact hsize
      refine ⟨e', he', h.imp ?_ ?_⟩
      · rintro ⟨hz, hall⟩
        exact ⟨hz, fun n c hn hc => hext hn hc fun hn => hall n c hn hc⟩
      · rintro ⟨n, hn, hs, hall⟩
        exact ⟨n, hn, hs, fun m c hnm hm hc => hext hm hc fun hm => hall m c hnm hm hc⟩
    · refine ⟨a, ?_, .inr ⟨pos, ha, hsize, by omega⟩⟩
      cases pos with
      | zero => rfl
      | succ pos => rw [lastRecord, if_neg hsize]

omit [DecidableEq Id] in
theorem findLast_spec (s : BlockFiles Id) :
    (∃ n e, findLast s = some e ∧ s.index[n]? = some e ∧ e.blockSize ≠ 0 ∧
        ∀ (m : ℕ) (a : IndexRecord Id), n < m → s.index[m]? = some a → a.blockSize = 0) ∨
      findLast s = none ∧
        ∀ (n : ℕ) (a : IndexRecord Id), s.index[n]? = some a → a.blockSize = 0 := by
  have hlt {m : ℕ} {a : IndexRecord Id} (h : s.index[m]? = some a) : m < s.index.length :=
    (List.getElem?_eq_some_iff.mp h).1
  rw [findLast]
  rcases List.eq_nil_or_concat s.index with hnil | ⟨front, e, hindex⟩
  · refine .inr ⟨by simp [hnil], ?_⟩
    intro n a ha
    rw [hnil] at ha
    cases ha
  have hlast : s.index.getLast? = some e := by simp [hindex]
  have hlen : s.index.length = front.length + 1 := by simp [hindex]
  have htop : s.index[front.length]? = some e := by simp [hindex]
  rw [hlast]
  show _ ∨ _
  by_cases he : e.blockSize = 0
  · obtain ⟨e', he', h⟩ := lastRecord_spec (Nat.le_refl s.index.length) he
    simp only [Option.bind_eq_bind, Option.bind_some, he']
    rcases h with ⟨hz, hall⟩ | ⟨n, hn, hs, hall⟩
    · exact .inr ⟨if_pos hz, fun n a ha => hall n a (hlt ha) ha⟩
    · exact .inl ⟨n, e', if_neg hs, hn, hs, fun m a hm ha => hall m a hm (hlt ha) ha⟩
  · refine .inl ⟨front.length, e, ?_, htop, he, ?_⟩
    · rw [hlen]
      simp [lastRecord, he]
    · intro m a hm ha
      have := hlt ha
      omega

omit [DecidableEq Id] in
theorem Recorded.block_eq_none {e : Option (IndexRecord Id)} (h : Recorded F blocks n e k)
    (he : ∀ a, e = some a → a.blockSize = 0) : k.block = none := by
  cases h with
  | missing => rfl
  | zero pos => rfl
  | stored b before after hn hblocks =>
    exact absurd (List.length_eq_zero_iff.mp (he _ rfl)) (pack_ne_nil b)
  | removed b pos hn => rfl

omit [DecidableEq Id] in
/-- `last` and `last_id` find the block with the largest number, or there is no block. -/
theorem Refines.last_spec (h : Refines F s r) :
    (∃ b, s.last F = some b ∧ s.lastId = some (F.id b) ∧ r.IsLast b) ∨
      s.last F = none ∧ s.lastId = none ∧ ∀ n, (r n).block = none := by
  rw [last, lastId]
  rcases findLast_spec s with ⟨n, e, hfind, he, hsize, hall⟩ | ⟨hfind, hall⟩
  · rw [hfind]
    have hr := h n
    rw [he] at hr
    generalize hk : r n = k at hr
    cases hr with
    | zero pos => exact absurd rfl hsize
    | removed b pos hn => exact absurd rfl hsize
    | stored b before after hn hblocks =>
      refine .inl ⟨b, readBlock_pack _ hblocks, rfl, n, by rw [hk]; rfl, ?_⟩
      intro m hm
      exact (h m).block_eq_none fun a ha => hall m a hm ha
  · rw [hfind]
    exact .inr ⟨rfl, rfl, fun n => (h n).block_eq_none fun a ha => hall n a ha⟩

omit [DecidableEq Id] in
theorem Reference.IsLast.eq {c : B} (hb : r.IsLast b) (hc : r.IsLast c) : b = c := by
  obtain ⟨n, hn, hn'⟩ := hb
  obtain ⟨m, hm, hm'⟩ := hc
  rcases Nat.lt_trichotomy n m with hlt | rfl | hlt
  · rw [hn' m hlt] at hm
    cases hm
  · exact Option.mem_unique hn hm
  · rw [hm' n hlt] at hn
    cases hn

/-! ### What the readers say -/

variable (F) in
/-- The readers but `fetch_block_id` agree with the map. -/
structure Agrees (s : BlockFiles Id) (r : Reference B) : Prop where
  contains : ∀ id, s.contains F id = (r.fetchOptional F id).isSome
  fetchOptional : ∀ id, s.fetchOptional F id = r.fetchOptional F id
  fetchByNumber : ∀ n, s.fetchByNumber F n = (r n).block
  last : ∀ b, s.last F = some b ↔ r.IsLast b
  last_none : s.last F = none ↔ ∀ n, (r n).block = none
  lastId : s.lastId = (s.last F).map F.id

theorem Refines.agrees (h : Refines F s r) : Agrees F s r where
  contains := h.contains_eq
  fetchOptional := h.fetchOptional_eq
  fetchByNumber := h.fetchByNumber_eq
  last b := by
    constructor
    · intro hb
      obtain ⟨c, hc, -, hlast⟩ | ⟨hnone, -⟩ := h.last_spec
      · rw [hb] at hc
        cases hc
        exact hlast
      · rw [hb] at hnone
        cases hnone
    · intro hb
      obtain ⟨c, hc, -, hlast⟩ | ⟨-, -, hall⟩ := h.last_spec
      · rw [hc, hlast.eq hb]
      · obtain ⟨n, hn, -⟩ := hb
        rw [hall n] at hn
        cases hn
  last_none := by
    obtain ⟨c, hc, -, n, hn, -⟩ | ⟨hnone, -, hall⟩ := h.last_spec
    · rw [hc]
      constructor
      · intro hnone
        cases hnone
      · intro hall
        rw [hall n] at hn
        cases hn
    · exact ⟨fun _ => hall, fun _ => hnone⟩
  lastId := by
    obtain ⟨c, hc, hid, -⟩ | ⟨hnone, hid, -⟩ := h.last_spec
    · rw [hc, hid]
      rfl
    · rw [hnone, hid]
      rfl

theorem Refines.apply (h : Refines F s r) {c : Call B Id} (hc : c.Proper F) :
    Refines F (s.apply F c) (r.apply F c) := by
  cases c with
  | store id b => exact h.store hc.1 hc.2
  | remove id => exact h.remove id

theorem Refines.foldl {calls : List (Call B Id)} (h : Refines F s r)
    (hcalls : ∀ c ∈ calls, c.Proper F) :
    Refines F (calls.foldl (BlockFiles.apply F) s) (calls.foldl (Reference.apply F) r) := by
  induction calls generalizing s r with
  | nil => exact h
  | cons c calls ih =>
    obtain ⟨hc, hcalls⟩ := List.forall_mem_cons.mp hcalls
    exact ih (h.apply hc) hcalls

/-- Empty files. -/
def empty : BlockFiles Id := ⟨[], []⟩

omit [DecidableEq Id] in
theorem refines_empty : Refines F empty fun _ => .empty := fun _ => .missing

variable (F) in
/-- **The block files stand for a map, but removed ids are found.** After any calls that store
blocks under their own ids, the readers say what the map says; `fetch_block_id` says it of a block
number unless the last block that was stored there was removed. -/
theorem files_refine_iff (calls : List (Call B Id)) (h : ∀ c ∈ calls, c.Proper F) :
    Agrees F (calls.foldl (apply F) empty) (calls.foldl (Reference.apply F) fun _ => .empty) ∧
      ∀ n, ((calls.foldl (apply F) empty).fetchBlockId F n).toOption =
          (calls.foldl (Reference.apply F) (fun _ => .empty) n).block.map F.id ↔
        ∀ b, calls.foldl (Reference.apply F) (fun _ => .empty) n ≠ .removed b := by
  have hr := (refines_empty (F := F)).foldl h
  exact ⟨hr.agrees, fun n => hr.fetchBlockId_eq_iff n⟩

/-- Blocks that are numbers; each is packed in one byte more than the number. -/
def numberFormat : BlockFormat ℕ ℕ where
  id b := b + 1
  previous b := b
  numFromId id := id
  null := 0
  id_injective _ _ h := Nat.succ.inj h
  num_null := rfl
  num_id _ := rfl
  pack b := List.replicate (b + 1) 0
  unpack l := if l = [] then none else some (l.length - 1)
  unpack_pack b := by simp [List.replicate_succ]
  unpack_nil := rfl

theorem files_refine_iff_removed :
    Agrees numberFormat
      ([.store 1 0, .store 0 1, .remove 2].foldl (apply numberFormat) empty)
      ([.store 1 0, .store 0 1, .remove 2].foldl (Reference.apply numberFormat) fun _ => .empty) :=
  (files_refine_iff numberFormat [.store 1 0, .store 0 1, .remove 2] (by
    simp [Call.Proper, numberFormat])).1

/-- **The id of a removed block is found.** A block is stored and removed; there is no block with
its number, and `fetch_block_id` returns its id. -/
theorem removed_id_found :
    let s := [.store 1 0, .remove 1].foldl (apply numberFormat) empty
    s.fetchByNumber numberFormat 1 = none ∧ s.contains numberFormat 1 = false ∧
      s.lastId = none ∧ s.fetchBlockId numberFormat 1 = .ok 1 := by
  decide +kernel

/-! ### The block store of the chain -/

variable (F) in
/-- The store without the positions in the files. -/
def database (s : BlockFiles Id) : BlockDatabase B Id where
  entries n :=
    match s.index[n]? with
    | some e => ⟨e.blockId, readBlock F s e⟩
    | none => ⟨F.null, none⟩
  length := s.index.length

omit [DecidableEq Id] in
theorem Refines.readBlock_eq (h : Refines F s r) (he : s.index[n]? = some e) :
    readBlock F s e = (r n).block := by
  have hr := h n
  rw [he] at hr
  generalize r n = k at hr ⊢
  cases hr with
  | zero pos => exact readBlock_zero ..
  | stored b before after hn hblocks => exact readBlock_pack _ hblocks
  | removed b pos hn => exact readBlock_zero ..

omit [DecidableEq Id] in
theorem Recorded.blank (h : Recorded F blocks n (some e) k) :
    ∃ k', Recorded F blocks n (some { e with blockSize := 0 }) k' ∧ k'.block = none := by
  cases h with
  | zero pos => exact ⟨_, .zero pos, rfl⟩
  | stored b before after hn hblocks => exact ⟨_, .removed b _ hn, rfl⟩
  | removed b pos hn => exact ⟨_, .removed b pos hn, rfl⟩

omit [DecidableEq Id] in
theorem Refines.database_write (h : Refines F s r) (vec : List UInt8)
    (hk : Recorded F (s.blocks ++ vec) num (some e) k) :
    database F ⟨writeRecord F s.index num e, s.blocks ++ vec⟩ =
      ⟨Function.update (database F s).entries num ⟨e.blockId, k.block⟩,
        max s.index.length (num + 1)⟩ := by
  have hw := h.write vec hk
  refine congrArg₂ BlockDatabase.mk (funext fun n => ?_) (length_writeRecord ..)
  show (match (writeRecord F s.index num e)[n]? with
    | some e => _
    | none => _) = _
  by_cases hn : n = num
  · subst hn
    have hread := hw.readBlock_eq (getElem?_writeRecord_self s.index n e)
    rw [Function.update_self] at hread
    rw [getElem?_writeRecord_self, Function.update_self]
    exact congrArg _ hread
  · rw [Function.update_of_ne hn]
    show _ = (match s.index[n]? with
      | some e => _
      | none => _)
    rcases getElem?_writeRecord_of_ne (F := F) s.index e hn with he | ⟨hnone, he⟩
    · rw [he]
      cases ha : s.index[n]? with
      | none => rfl
      | some a =>
        have hread := hw.readBlock_eq (he.trans ha)
        rw [Function.update_of_ne hn, ← h.readBlock_eq ha] at hread
        exact congrArg _ hread
    · rw [he, hnone]
      exact congrArg _ (readBlock_zero ..)

theorem Refines.database_store (h : Refines F s r) (hsize : (F.pack b).length < 2 ^ 32) :
    database F (s.store F (F.id b) b) = (database F s).store F.toBlockIds (F.id b) b := by
  rw [BlockFiles.store]
  simp only [if_neg (F.id_ne_null b), Nat.mod_eq_of_lt hsize]
  exact h.database_write _ (.stored b s.blocks [] rfl (by rw [List.append_nil]))

theorem Refines.database_remove (h : Refines F s r) (id : Id) :
    (s.remove F id).map (database F) = (database F s).remove F.toBlockIds id := by
  rw [BlockFiles.remove, BlockDatabase.remove]
  have hlength : (database F s).length = s.index.length := rfl
  rw [hlength]
  cases he : s.index[F.numFromId id]? with
  | none =>
    rw [if_pos (List.getElem?_eq_none_iff.mp he)]
    rfl
  | some e =>
    have hlt : F.numFromId id < s.index.length := (List.getElem?_eq_some_iff.mp he).1
    have hentry : (database F s).entries (F.numFromId id) = ⟨e.blockId, readBlock F s e⟩ := by
      simp only [database, he]
    rw [if_neg (Nat.not_le.mpr hlt), hentry, found, ok_bind]
    by_cases hid : e.blockId = id
    · obtain ⟨k, hk, hnone⟩ := (he ▸ h (F.numFromId id)).blank
      have hw := h.database_write [] (by rwa [List.append_nil])
      rw [List.append_nil, hnone, Nat.max_eq_left hlt] at hw
      rw [if_pos hid, if_pos hid]
      subst hid
      exact congrArg Except.ok hw
    · rw [if_neg hid, if_neg hid]
      rfl

theorem Refines.database_fetchOptional (h : Refines F s r) (id : Id) :
    s.fetchOptional F id = (database F s).fetchOptional F.toBlockIds id := by
  have hlength : (database F s).length = s.index.length := rfl
  rw [BlockFiles.fetchOptional, BlockDatabase.fetchOptional, hlength, database]
  have hr := h (F.numFromId id)
  cases he : s.index[F.numFromId id]? with
  | none => exact (if_pos (List.getElem?_eq_none_iff.mp he)).symm
  | some e =>
    rw [if_neg (Nat.not_le.mpr (List.getElem?_eq_some_iff.mp he).1)]
    have hread := h.readBlock_eq he
    rw [he] at hr
    generalize r (F.numFromId id) = k at hr hread
    cases hr <;> simp [he, show readBlock F s _ = _ from hread, Slot.block]

variable (F) in
/-- A call on the store without the positions. -/
def databaseCall (d : BlockDatabase B Id) : Call B Id → BlockDatabase B Id
  | .store _ b => d.store F.toBlockIds (F.id b) b
  | .remove id => attempted d (d.remove F.toBlockIds id)

theorem Refines.database_apply (h : Refines F s r) {c : Call B Id} (hc : c.Proper F) :
    database F (s.apply F c) = databaseCall F (database F s) c := by
  cases c with
  | store id b =>
    refine Eq.trans (congrArg (database F) ?_) (h.database_store hc.2)
    rcases hc.1 with rfl | rfl
    · simp [BlockFiles.apply, BlockFiles.store]
    · rfl
  | remove id =>
    rw [databaseCall, ← h.database_remove id, BlockFiles.apply]
    cases s.remove F id <;> rfl

/-- **The files refine the store of the chain**: after any calls, they are what the same calls make
of the store without positions, and a block is found in both or in neither. -/
theorem files_refine_database (calls : List (Call B Id)) (hcalls : ∀ c ∈ calls, c.Proper F) :
    database F (calls.foldl (apply F) empty) =
        calls.foldl (databaseCall F) ⟨fun _ => ⟨F.null, none⟩, 0⟩ ∧
      ∀ id, (calls.foldl (apply F) empty).fetchOptional F id =
        (calls.foldl (databaseCall F) ⟨fun _ => ⟨F.null, none⟩, 0⟩).fetchOptional F.toBlockIds id := by
  have hrun : database F (calls.foldl (apply F) empty) =
      calls.foldl (databaseCall F) (database F empty) := by
    induction calls using List.reverseRecOn with
    | nil => rfl
    | append_singleton calls c ih =>
      have hbefore : ∀ c ∈ calls, c.Proper F := fun c hc => hcalls c (by simp [hc])
      -- the files before the last call stand for a map
      rw [List.foldl_concat, List.foldl_concat, ← ih hbefore]
      exact (refines_empty.foldl hbefore).database_apply (hcalls c (by simp))
  refine ⟨hrun, fun id => ?_⟩
  rw [(refines_empty.foldl hcalls).database_fetchOptional id, hrun]
  rfl

theorem files_refine_database_removed :
    ([.store 1 0, .store 0 1, .remove 2].foldl (databaseCall numberFormat)
      ⟨fun _ => ⟨0, none⟩, 0⟩).fetchOptional numberFormat.toBlockIds 1 = some 0 := by
  refine ((files_refine_database _ (by simp [Call.Proper, numberFormat])).2 1).symm.trans ?_
  decide +kernel

end BlockFiles

end Whitecoin.Chain
