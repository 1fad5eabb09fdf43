import Whitecoin.Cbor.Decode

/-!
# What the decoder produces

Whatever bytes the decoder accepts, its result is well formed: maps have their keys in order. A
plain integer fits in 32 bits, because larger ones come as extra integers.
-/

namespace Whitecoin.Cbor

open Check

namespace CborObject

mutual

/-- The trees that the decoder may return. -/
def Produced : CborObject → Prop
  | .int n => -2 ^ 31 ≤ n.toInt ∧ n.toInt < 2 ^ 31
  | .array items => ItemsProduced items
  | .map items => OrdMap.Sorted items ∧ EntriesProduced items
  | _ => True

def ItemsProduced : List CborObject → Prop
  | [] => True
  | v :: items => v.Produced ∧ ItemsProduced items

def EntriesProduced : List (Text × CborObject) → Prop
  | [] => True
  | (_, v) :: items => v.Produced ∧ EntriesProduced items

end

theorem itemsProduced_iff {items : List CborObject} :
    ItemsProduced items ↔ ∀ v ∈ items, v.Produced := by
  induction items with
  | nil => simp [ItemsProduced]
  | cons v items ih => simp [ItemsProduced, ih]

theorem entriesProduced_iff {items : List (Text × CborObject)} :
    EntriesProduced items ↔ ∀ e ∈ items, e.2.Produced := by
  induction items with
  | nil => simp [EntriesProduced]
  | cons e items ih => simp [EntriesProduced, ih]

end CborObject

open CborObject in
theorem Frame.produced_add {f : Frame} {v : CborObject} (slot : Slot)
    (hf : f.contents.close.Produced) (hv : v.Produced) : (f.add slot v).close.Produced := by
  unfold Frame.add
  split
  · rename_i items hcontents
    rw [hcontents] at hf
    refine itemsProduced_iff.mpr fun w hw => ?_
    rcases List.mem_append.mp hw with hw | hw
    · exact itemsProduced_iff.mp hf w hw
    · rwa [List.mem_singleton.mp hw]
  · rename_i items k hcontents
    rw [hcontents] at hf
    refine ⟨hf.1.set k v, entriesProduced_iff.mpr fun e he => ?_⟩
    rcases OrdMap.mem_set he with rfl | he
    · exact hv
    · exact entriesProduced_iff.mp hf.2 e he
  · exact hf

/-- All objects that the decoder holds are as they should be. -/
structure Builder.Produced (b : Builder) : Prop where
  result : ∀ v ∈ b.result, v.Produced
  stack : ∀ f ∈ b.stack, f.contents.close.Produced

namespace Builder

variable {b b' : Builder}

theorem Produced.complete (hb : ∀ v ∈ b.result, v.Produced) {l : List Frame}
    (hl : ∀ f ∈ l, f.contents.close.Produced) (slot : Slot) {v : CborObject} (hv : v.Produced) :
    (b.complete l slot v).Produced := by
  induction l generalizing slot v with
  | nil => exact ⟨fun w hw => by rwa [← Option.mem_some.mp hw], by simp [Builder.complete]⟩
  | cons f rest ih =>
    obtain ⟨hf, hrest⟩ := List.forall_mem_cons.mp hl
    have hadd := Frame.produced_add slot hf hv
    have hgo : (if f.size ≤ (f.add slot v).size
        then b.complete rest f.slot (f.add slot v).close
        else { b with stack := { f with contents := f.add slot v } :: rest }).Produced := by
      split
      · exact ih hrest _ hadd
      · exact ⟨hb, List.forall_mem_cons.mpr ⟨hadd, hrest⟩⟩
    cases slot with
    | key => exact ⟨hb, hl⟩
    | item => exact hgo
    | entry k => exact hgo

theorem next_eq_ok {slot : Slot} (h : b.next = .ok (b', slot)) :
    b'.result = b.result ∧ b'.stack = b.stack := by
  unfold next at h
  split at h
  · split at h <;> simp_all
  · split at h
    · simp_all
    · split at h
      · simp only [Except.ok.injEq, Prod.mk.injEq] at h
        simp [← h.1]
      · split at h <;> simp only [Except.ok.injEq, Prod.mk.injEq, reduceCtorEq] at h
        simp [← h.1]

theorem Produced.put (hb : b.Produced) {v : CborObject} (hv : v.Produced)
    (h : b.put v = .ok b') : b'.Produced := by
  simp only [Builder.put, bind_eq_ok, Prod.exists, pure_eq_ok] at h
  obtain ⟨b₁, slot, hnext, rfl⟩ := h
  obtain ⟨hresult, hstack⟩ := next_eq_ok hnext
  exact .complete (hresult ▸ hb.result) (hstack ▸ hb.stack) slot hv

theorem Produced.openContainer (hb : b.Produced) {c : Container} (hc : c.close.Produced) {n : ℕ}
    (h : b.openContainer c n = .ok b') : b'.Produced := by
  unfold Builder.openContainer at h
  split at h
  · exact hb.put hc h
  · simp only [bind_eq_ok, Prod.exists, pure_eq_ok] at h
    obtain ⟨b₁, slot, hnext, rfl⟩ := h
    obtain ⟨hresult, hstack⟩ := next_eq_ok hnext
    have hnote : (b₁.noteKey slot c).result = b.result := by cases slot <;> exact hresult
    exact ⟨hnote ▸ hb.result, List.forall_mem_cons.mpr ⟨hc, hstack ▸ hb.stack⟩⟩

end Builder

/-! ### Iterations -/

theorem pintValue_produced (width : Width) {n : ℕ} (hn : n < 256 ^ width.size) :
    (pintValue width n).Produced := by
  have hint : n < 2 ^ 31 → (CborObject.int (Int64.ofNat n)).Produced := fun h => by
    rw [CborObject.Produced, Int64.toInt_ofNat_of_lt (by omega)]
    omega
  cases width with
  | one => exact hint (by simp only [Width.size] at hn; omega)
  | two => exact hint (by simp only [Width.size] at hn; omega)
  | four =>
    rw [pintValue]
    split
    · rename_i h
      exact hint (by simp only [intMax] at h; omega)
    · trivial
  | eight => trivial

theorem nintValue_produced (width : Width) {n : ℕ} (hn : n < 256 ^ width.size) :
    (nintValue width n).Produced := by
  have hint : n < 2 ^ 31 → (CborObject.int (Int64.ofInt (-n - 1))).Produced := fun h => by
    rw [CborObject.Produced, Int64.toInt_ofInt_of_le (by omega) (by omega)]
    omega
  cases width with
  | one => exact hint (by simp only [Width.size] at hn; omega)
  | two => exact hint (by simp only [Width.size] at hn; omega)
  | four =>
    rw [nintValue]
    split
    · rename_i h
      exact hint (by simp only [intMax] at h; omega)
    · trivial
  | eight => trivial

section step

variable {b b' : Builder} {state state' : DecoderState}

theorem await_produced (hb : b.Produced) {n : ℕ} {next : Width → DecoderState} {message : String}
    (h : await b n next message = .ok (state', b')) : b'.Produced := by
  simp only [await, bind_eq_ok, pure_eq_ok, Prod.mk.injEq] at h
  obtain ⟨_, -, -, rfl⟩ := h
  exact hb

theorem put_produced (hb : b.Produced) {v : CborObject} (hv : v.Produced)
    (h : withType (b.put v) = .ok (state', b')) : b'.Produced :=
  hb.put hv (withType_eq_ok.mp h).2

theorem readType_produced (hb : b.Produced) {majorType minorType : ℕ}
    (h : readType b majorType minorType = .ok (state', b')) : b'.Produced := by
  unfold readType at h
  split at h
  · split at h
    · refine put_produced hb ?_ h
      rw [CborObject.Produced, Int64.toInt_ofNat_of_lt (by omega)]
      omega
    · exact await_produced hb h
  · split at h
    · refine put_produced hb ?_ h
      rw [CborObject.Produced, Int64.toInt_ofInt_of_le (by omega) (by omega)]
      omega
    · exact await_produced hb h
  · split at h
    · exact (Prod.mk.inj (Except.ok.inj h)).2 ▸ hb
    · exact await_produced hb h
  · split at h
    · exact (Prod.mk.inj (Except.ok.inj h)).2 ▸ hb
    · exact await_produced hb h
  · split at h
    · exact hb.openContainer (c := .array []) trivial (withType_eq_ok.mp h).2
    · exact await_produced hb h
  · split at h
    · exact hb.openContainer (c := .map []) ⟨List.Pairwise.nil, trivial⟩ (withType_eq_ok.mp h).2
    · exact await_produced hb h
  · split at h
    · exact put_produced hb (v := .tag _) trivial h
    · exact await_produced hb h
  · split at h
    · exact put_produced hb (v := .bool _) trivial h
    · exact put_produced hb (v := .bool _) trivial h
    · exact put_produced hb (v := .null) trivial h
    · exact put_produced hb (v := .undefined) trivial h
    · simp at h

theorem readNumber_produced (hb : b.Produced) {n : ℕ} {width : Width}
    (hneeds : state.needs = .number width) (hn : n < 256 ^ width.size)
    (h : readNumber b n state = .ok (state', b')) : b'.Produced := by
  cases state with
  | pint w =>
    obtain rfl : w = width := by simpa [DecoderState.needs] using hneeds
    exact put_produced hb (pintValue_produced w hn) h
  | nint w =>
    obtain rfl : w = width := by simpa [DecoderState.needs] using hneeds
    simp only [readNumber, bind_eq_ok, pure_eq_ok, Prod.mk.injEq] at h
    obtain ⟨_, hput, -, rfl⟩ := h
    exact hb.put (nintValue_produced w hn) hput
  | bytesSize w | stringSize w =>
    simp only [readNumber, bind_eq_ok, pure_eq_ok, Prod.mk.injEq] at h
    obtain ⟨_, -, -, rfl⟩ := h
    exact hb
  | array w =>
    simp only [readNumber, bind_eq_ok] at h
    obtain ⟨_, -, h⟩ := h
    exact hb.openContainer (c := .array []) trivial (withType_eq_ok.mp h).2
  | map w =>
    simp only [readNumber, bind_eq_ok] at h
    obtain ⟨_, -, h⟩ := h
    exact hb.openContainer (c := .map []) ⟨List.Pairwise.nil, trivial⟩ (withType_eq_ok.mp h).2
  | tag w =>
    refine put_produced hb ?_ h
    cases w <;> trivial
  | type | bytesData _ | stringData _ => simp [DecoderState.needs] at hneeds

end step

theorem step_produced {m m' : Machine} (hm : m.builder.Produced) (h : step m = .ok (some m')) :
    m'.builder.Produced := by
  unfold step at h
  split at h
  · split at h
    · simp at h
    · exact readType_produced hm (after_eq_ok.mp h).2
  · rename_i width hneeds
    split at h
    · rename_i hlen
      refine readNumber_produced hm hneeds ?_ (after_eq_ok.mp h).2
      have := BigEndian.value_lt (m.input.take width.size)
      rwa [List.length_take, Nat.min_eq_left hlen] at this
    · simp at h
  · rename_i make length hneeds
    split at h
    · simp at h
    · split at h
      · refine put_produced hm ?_ (after_eq_ok.mp h).2
        unfold DecoderState.needs at hneeds
        split at hneeds <;> simp only [reduceCtorEq, Needs.text.injEq] at hneeds
        · rw [← hneeds.1]
          trivial
        · rw [← hneeds.1]
          trivial
      · simp at h

/-- **What the decoder returns is well formed.** -/
theorem cborDecode_produced {bytes : List UInt8} {v : CborObject} (h : cborDecode bytes = .ok v) :
    v.Produced := by
  rw [cborDecode, bind_eq_ok] at h
  obtain ⟨m, hrun, hfinish⟩ := h
  have hm : m.builder.Produced :=
    runAll_induction (P := fun m => m.builder.Produced) ⟨by simp [Machine.start], by
      simp [Machine.start]⟩ (fun _ _ => step_produced) hrun
  unfold Builder.finish at hfinish
  split at hfinish
  · simp at hfinish
  · simp at hfinish
  · rename_i w hresult
    obtain rfl := Except.ok.inj hfinish
    exact hm.result _ hresult

end Whitecoin.Cbor
