import Whitecoin.Cbor.Diff
import Whitecoin.Cbor.Lossless

/-!
# A diff is undefined for equal trees only

Scalars are compared by their encoding, or directly if they are strings, and the encoding of an
integer determines it. A map or an array reports a change if one of its children does, or if the
keys or the lengths differ. So the diff of two trees is undefined exactly when they are the same.

The two representations of an integer are of different types. A value that changes from one to the
other has changed.
-/

namespace Whitecoin.Cbor

open Check

/-- The trees of null, booleans, integers, strings, arrays and maps. The keys of a map are in their
order. -/
inductive IsTree : CborObject → Prop
  | null : IsTree .null
  | bool (b : Bool) : IsTree (.bool b)
  | int (n : Int64) : IsTree (.int n)
  | extraInt (n : UInt64) (p : Bool) : IsTree (.extraInt n p)
  | string (s : Text) : IsTree (.string s)
  | array {items : List CborObject} (h : ∀ v ∈ items, IsTree v) : IsTree (.array items)
  | map {items : List (Text × CborObject)} (hsorted : OrdMap.Sorted items)
    (h : ∀ e ∈ items, IsTree e.2) : IsTree (.map items)

/-- The diff is computed, and it is undefined exactly if the values are the same. -/
def Detects (old new : CborObject) : Prop :=
  ∃ d, diff old new = .ok d ∧ (d.isUndefined = true ↔ old = new)

/-! ### Scalars -/

theorem writeTypeValue_sign_inj {p q : Bool} {m n : ℕ} (hm : m < 2 ^ 64) (hn : n < 2 ^ 64)
    (h : writeTypeValue (if p then 0 else 1) m = writeTypeValue (if q then 0 else 1) n) :
    p = q ∧ m = n := by
  rw [← List.append_nil (writeTypeValue _ m), ← List.append_nil (writeTypeValue _ n)] at h
  cases p <;> cases q
  · exact ⟨rfl, (writeTypeValue_append_inj (by decide) hm hn h).1⟩
  · exact absurd h writeTypeValue_append_ne
  · exact absurd h.symm writeTypeValue_append_ne
  · exact ⟨rfl, (writeTypeValue_append_inj (by decide) hm hn h).1⟩

theorem writeInt_eq (n : Int64) : writeInt n =
    writeTypeValue (if decide (0 ≤ n.toInt) then 0 else 1)
      (if 0 ≤ n.toInt then n.toInt else -(n.toInt + 1)).toNat := by
  simp only [writeInt, Int64.lt_iff_toInt_lt, Int64.toInt_zero, decide_eq_true_eq]
  split_ifs <;> first | rfl | omega

theorem writeInt_inj {m n : Int64} (h : writeInt m = writeInt n) : m = n := by
  have hm := m.toInt_lt
  have hm' := m.le_toInt
  have hn := n.toInt_lt
  have hn' := n.le_toInt
  rw [writeInt_eq, writeInt_eq] at h
  obtain ⟨hsign, hvalue⟩ := writeTypeValue_sign_inj (by split <;> omega) (by split <;> omega) h
  rw [decide_eq_decide] at hsign
  refine Int64.toInt_inj.mp ?_
  split at hvalue <;> split at hvalue <;> omega

variable {old new : CborObject}

theorem isUndefined_replacement (old new : CborObject) :
    (DiffResult.ofValue (replacement old new)).isUndefined ≠ true := Bool.false_ne_true

theorem detects_of_type_ne (h : old.objectType ≠ new.objectType) : Detects old new := by
  have hdiff : diff old new = diffScalar old new := by
    cases old <;> cases new <;> first | rfl | exact absurd rfl h
  refine ⟨_, ?_, iff_of_false (isUndefined_replacement old new) fun he => h (he ▸ rfl)⟩
  rw [hdiff]
  exact if_neg h

theorem detects_of_encode (hdiff : diff old new = do
      let oldBytes ← cborEncode old
      let newBytes ← cborEncode new
      pure (if oldBytes = newBytes then .undefined else .ofValue (replacement old new)))
    (hold : (writeCborObject old).length ≤ 9) (hnew : (writeCborObject new).length ≤ 9)
    (hinj : writeCborObject old = writeCborObject new → old = new) : Detects old new := by
  have hencode : ∀ v, (writeCborObject v).length ≤ 9 → cborEncode v = .ok (writeCborObject v) :=
    fun v hv => cborEncode_eq_ok.mpr ⟨rfl, hv.trans (by decide)⟩
  rw [hencode _ hold, hencode _ hnew, ok_bind, ok_bind] at hdiff
  refine ⟨_, hdiff, ?_⟩
  split_ifs with h
  · exact iff_of_true rfl (hinj h)
  · exact iff_of_false (isUndefined_replacement old new) fun he => h (he ▸ rfl)

theorem detects_string (s t : Text) : Detects (.string s) (.string t) := by
  refine ⟨if s = t then .undefined else .ofValue (replacement (.string s) (.string t)), rfl, ?_⟩
  rw [CborObject.string.injEq]
  split_ifs with h
  · exact iff_of_true rfl h
  · exact iff_of_false (isUndefined_replacement _ _) h

/-! ### Arrays -/

theorem diffItems_eq_nil_iff {a b : List CborObject}
    (h : ∀ v ∈ a, ∀ w ∈ b, Detects v w) (i : ℕ) :
    ∃ l, diffItems i a b = .ok l ∧ (l = [] ↔ a = b) := by
  induction a generalizing b i with
  | nil => cases b <;> exact ⟨_, rfl, by simp [addedItems]⟩
  | cons v a ih =>
    cases b with
    | nil =>
      obtain ⟨l, hl, -⟩ := ih (b := []) (by simp) (i + 1)
      exact ⟨edit "-" i v :: l, by rw [diffItems, hl]; rfl, by simp⟩
    | cons w b =>
      obtain ⟨d, hd, hsame⟩ := h v (List.mem_cons_self ..) w (List.mem_cons_self ..)
      obtain ⟨l, hl, hnil⟩ := ih (fun v hv w hw => h v (List.mem_cons_of_mem _ hv) w
        (List.mem_cons_of_mem _ hw)) (i + 1)
      refine ⟨_, by rw [diffItems, hd, ok_bind, hl, ok_bind]; rfl, ?_⟩
      rw [List.cons.injEq, ← hsame, ← hnil]
      split_ifs with hund
      · simp [hund]
      · simp [hund]

theorem detects_array {a b : List CborObject} (h : ∀ v ∈ a, ∀ w ∈ b, Detects v w) :
    Detects (.array a) (.array b) := by
  obtain ⟨l, hl, hnil⟩ := diffItems_eq_nil_iff h 0
  refine ⟨_, by rw [diff, hl, ok_bind]; rfl, ?_⟩
  rw [CborObject.array.injEq, ← hnil]
  split_ifs with hempty
  · exact iff_of_true rfl hempty
  · exact iff_of_false Bool.false_ne_true hempty

/-! ### Maps -/

section maps

variable {a b todo : List (Text × CborObject)}

theorem set_ne_nil (diffJson : List (Text × CborObject)) (k : Text) (v : CborObject) :
    OrdMap.set diffJson k v ≠ [] := by
  cases diffJson with
  | nil => simp [OrdMap.set]
  | cons e diffJson =>
    rw [OrdMap.set]
    split_ifs <;> simp

theorem diffEntries_eq_nil_iff (diffJson : List (Text × CborObject))
    (h : ∀ e ∈ todo, ∀ e' ∈ b, Detects e.2 e'.2) :
    ∃ l, diffEntries b diffJson todo = .ok l ∧
      (l = [] ↔ diffJson = [] ∧ ∀ e ∈ todo, OrdMap.get? b e.1 = some e.2) := by
  induction todo generalizing diffJson with
  | nil => exact ⟨diffJson, rfl, by simp⟩
  | cons e todo ih =>
    obtain ⟨k, v⟩ := e
    obtain ⟨he, htodo⟩ := List.forall_mem_cons.mp h
    rw [diffEntries]
    cases hget : OrdMap.get? b k with
    | none =>
      obtain ⟨l, hl, hnil⟩ := ih (OrdMap.set diffJson (k ++ deletedPostfix) v) htodo
      exact ⟨l, hl, by simp [hnil, set_ne_nil, hget]⟩
    | some w =>
      obtain ⟨d, hd, hsame⟩ := he (k, w) (OrdMap.mem_of_get? hget)
      simp only [hd, ok_bind]
      by_cases hund : d.isUndefined = true
      · obtain ⟨l, hl, hnil⟩ := ih diffJson htodo
        have heq : w = v := (hsame.mp hund).symm
        exact ⟨l, by rw [if_pos hund, hl], by simp [hnil, hget, heq]⟩
      · obtain ⟨l, hl, hnil⟩ := ih (OrdMap.set diffJson k d.value) htodo
        have hne : w ≠ v := fun he => hund (hsame.mpr he.symm)
        exact ⟨l, by rw [if_neg hund, hl], by simp [hnil, set_ne_nil, hget, hne]⟩

theorem addedEntries_eq_nil_iff (a diffJson : List (Text × CborObject)) :
    addedEntries a todo diffJson = [] ↔
      diffJson = [] ∧ ∀ e ∈ todo, OrdMap.get? a e.1 ≠ none := by
  induction todo generalizing diffJson with
  | nil => simp [addedEntries]
  | cons e todo ih =>
    rw [addedEntries, List.foldl_cons]
    change addedEntries a todo _ = [] ↔ _
    rw [ih]
    split_ifs with hget <;> simp [hget, set_ne_nil]

/-- Maps with the same keys, of which the second has every entry of the first. -/
theorem eq_of_entries (ha : OrdMap.Sorted a) (hb : OrdMap.Sorted b)
    (hsub : ∀ e ∈ a, OrdMap.get? b e.1 = some e.2) (hkeys : ∀ e ∈ b, OrdMap.get? a e.1 ≠ none) :
    a = b := by
  apply ha.ext hb
  intro k
  cases hget : OrdMap.get? a k with
  | some v => exact (hsub (k, v) (OrdMap.mem_of_get? hget)).symm
  | none =>
    refine (OrdMap.get?_eq_none_iff.mpr fun e he hk => ?_).symm
    exact hkeys e he (hk ▸ hget)

theorem detects_map (ha : OrdMap.Sorted a) (hb : OrdMap.Sorted b)
    (h : ∀ e ∈ a, ∀ e' ∈ b, Detects e.2 e'.2) : Detects (.map a) (.map b) := by
  obtain ⟨l, hl, hnil⟩ := diffEntries_eq_nil_iff [] h
  refine ⟨_, by rw [diff, hl, ok_bind]; rfl, ?_⟩
  have hsame : addedEntries a b l = [] ↔ a = b := by
    rw [addedEntries_eq_nil_iff, hnil]
    constructor
    · rintro ⟨⟨-, hsub⟩, hkeys⟩
      exact eq_of_entries ha hb hsub hkeys
    · rintro rfl
      have hget : ∀ e ∈ a, OrdMap.get? a e.1 = some e.2 := by
        intro e he
        exact ha.get?_eq_some_iff.mpr he
      exact ⟨⟨rfl, hget⟩, fun e he => by simp [hget e he]⟩
  rw [CborObject.map.injEq, ← hsame]
  split_ifs with hempty
  · exact iff_of_true rfl hempty
  · exact iff_of_false Bool.false_ne_true hempty

end maps

/-- **A diff is undefined exactly if nothing changed.** -/
theorem diff_isUndefined_iff (hold : IsTree old) (hnew : IsTree new) :
    ∃ d, diff old new = .ok d ∧ (d.isUndefined = true ↔ old = new) := by
  change Detects old new
  by_cases htype : old.objectType = new.objectType
  swap
  · exact detects_of_type_ne htype
  induction hold generalizing new with
  | null =>
    cases hnew <;> cases htype
    exact detects_of_encode rfl (by decide) (by decide) fun _ => rfl
  | bool b =>
    cases hnew <;> cases htype
    rename_i c
    refine detects_of_encode rfl (by cases b <;> decide) (by cases c <;> decide) fun h => ?_
    cases b <;> cases c <;> simp_all [writeCborObject]
  | int n =>
    cases hnew <;> cases htype
    refine detects_of_encode rfl ?_ ?_ fun h => congrArg _ (writeInt_inj h)
    · rw [writeCborObject, writeInt_eq]
      exact length_writeTypeValue_le ..
    · rw [writeCborObject, writeInt_eq]
      exact length_writeTypeValue_le ..
  | extraInt n p =>
    cases hnew <;> cases htype
    rename_i m q
    refine detects_of_encode rfl (length_writeTypeValue_le ..) (length_writeTypeValue_le ..)
      fun h => ?_
    obtain ⟨rfl, hvalue⟩ := writeTypeValue_sign_inj n.toNat_lt m.toNat_lt h
    rw [UInt64.toNat_inj.mp hvalue]
  | string s =>
    cases hnew <;> cases htype
    exact detects_string ..
  | array _ ih =>
    cases hnew <;> cases htype
    rename_i hb
    refine detects_array fun v hv w hw => ?_
    by_cases ht : v.objectType = w.objectType
    · exact ih v hv (hb w hw) ht
    · exact detects_of_type_ne ht
  | map hsorted _ ih =>
    cases hnew <;> cases htype
    rename_i hsorted' hb
    refine detects_map hsorted hsorted' fun e he e' he' => ?_
    by_cases ht : e.2.objectType = e'.2.objectType
    · exact ih e he (hb e' he') ht
    · exact detects_of_type_ne ht

theorem diff_isUndefined_iff_sample :
    ∃ d, diff (.map [(text "k", .array [.int (-3000000000), .null])])
        (.map [(text "k", .array [.int (-3000000000), .bool true])]) = .ok d ∧
      (d.isUndefined = true ↔ CborObject.map [(text "k", .array [.int (-3000000000), .null])] =
        .map [(text "k", .array [.int (-3000000000), .bool true])]) :=
  diff_isUndefined_iff
    (.map (List.pairwise_singleton ..) (by simp [IsTree.array, IsTree.int, IsTree.null]))
    (.map (List.pairwise_singleton ..) (by simp [IsTree.array, IsTree.int, IsTree.bool]))

end Whitecoin.Cbor
