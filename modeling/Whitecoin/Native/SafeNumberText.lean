import Whitecoin.Native.SafeNumberValue

/-!
# Safe numbers and texts

The reader takes every character but a point for a digit, and computes modulo `2 ^ 128`. It is right
for decimal numbers whose digits are below `2 ^ 128`, and it rejects a second point, but it accepts
any other text of up to 40 characters. The texts that are written are decimal numbers, and reading
them gives the number back.
-/

namespace Whitecoin.Native

namespace SafeNumber

open Check Cbor Decimal

/-! ### Reading -/

/-- A text without its sign. -/
def unsigned (str : Text) : Text :=
  if str.head? = some 43 ∨ str.head? = some 45 then str.tail else str

/-- One more digit. -/
def readDigit (n : ℕ) (c : UInt8) : ℕ := n * 10 + (c.toNat - 48)

/-- The digits of a text, read as one integer. -/
def digitsOf (str : Text) : ℕ := ((unsigned str).filter (· ≠ 46)).foldl readDigit 0

/-- The number of characters after the point. -/
def decimalsOf (str : Text) : ℕ := ((unsigned str).dropWhile (· ≠ 46)).tail.length

def IsDigit (c : UInt8) : Prop := 48 ≤ c.toNat ∧ c.toNat ≤ 57

/-- A sign, digits and at most one point, with at least one digit and digits below `2 ^ 128`. -/
structure IsDecimal (str : Text) : Prop where
  chars : ∀ c ∈ unsigned str, c = 46 ∨ IsDigit c
  points : (unsigned str).count 46 ≤ 1
  digit : ∃ c ∈ unsigned str, IsDigit c
  lt : digitsOf str < 2 ^ 128

/-- The number that a text stands for. -/
def textValue (str : Text) : ℚ :=
  signed (str.head? ≠ some 45) (digitsOf str) / 10 ^ decimalsOf str

/-- What the loop does with a character that is not a point. -/
def readChar (x : SimpleUint128) (c : UInt8) : SimpleUint128 :=
  Wide.add (Wide.multi x uint128Ten) ⟨0, charValue c⟩

/-- **The loop over the characters** stops at a second point only. -/
theorem createLoop_eq (str : Text) (afterDot : Bool) (x : SimpleUint128) (e : ℕ) :
    createLoop str afterDot x e =
      if str.count 46 + (if afterDot then 1 else 0) ≤ 1 then
        some ((str.filter (· ≠ 46)).foldl readChar x,
          e + if afterDot then str.length else (str.dropWhile (· ≠ 46)).tail.length)
      else none := by
  induction str generalizing afterDot x e with
  | nil => cases afterDot <;> simp [createLoop]
  | cons c str ih =>
    rw [createLoop]
    by_cases hc : c = 46
    · subst hc
      cases afterDot
      · simp [ih]
      · simp
    · rw [if_neg hc, ih]
      cases afterDot
      · simp [hc, readChar]
      · simp [hc, readChar, Nat.add_assoc, Nat.add_comm 1]

variable {c : UInt8} {str : Text}

theorem toNat_charValue (h : IsDigit c) : (charValue c).toNat = c.toNat - 48 := by
  have hint : c.toInt8.toInt = Int.bmod c.toNat (2 ^ 8) := c.toBitVec.toInt_eq_toNat_bmod
  obtain ⟨h₁, h₂⟩ := h
  rw [Int.bmod_def] at hint
  show (BitVec.ofInt 64 (c.toInt8.toInt - 48)).toNat = _
  rw [BitVec.toNat_ofInt]
  omega

theorem le_foldl_readDigit (str : Text) (n : ℕ) : n ≤ str.foldl readDigit n := by
  induction str generalizing n with
  | nil => exact le_rfl
  | cons c str ih => exact (by rw [readDigit]; omega : n ≤ readDigit n c).trans (ih _)

theorem toNat_foldl_readChar (hs : ∀ c ∈ str, IsDigit c) (x : SimpleUint128)
    (h : str.foldl readDigit x.toNat < 2 ^ 128) :
    (str.foldl readChar x).toNat = str.foldl readDigit x.toNat := by
  induction str generalizing x with
  | nil => rfl
  | cons c str ih =>
    rw [List.forall_mem_cons] at hs
    rw [List.foldl_cons] at h
    have hlt := (le_foldl_readDigit str _).trans_lt h
    have hread : (readChar x c).toNat = readDigit x.toNat c := by
      rw [readDigit] at hlt ⊢
      have hten := toNat_times_ten (x := x) (by omega)
      rw [readChar, toNat_add_uint128, hten, toNat_uint64, toNat_charValue hs.1]
      rwa [hten, toNat_uint64, toNat_charValue hs.1]
    rw [List.foldl_cons, List.foldl_cons, ih hs.2 _ (by rwa [hread]), hread]

/-- The texts that the reader rejects. -/
def Rejected (str : Text) : Prop :=
  str = [] ∨ str = text "NaN" ∨ 1 < (unsigned str).count 46

theorem createString_of_rejected (h : Rejected str) : createString str = .ok nan := by
  rw [createString]
  by_cases hempty : str = [] ∨ 40 < str.length ∨ str = text "NaN"
  · rw [if_pos hempty]
  · obtain ⟨h₁, -, h₃⟩ := not_or.mp hempty |>.imp_right not_or.mp
    rw [if_neg hempty, ← unsigned]
    dsimp only
    rw [createLoop_eq, if_neg (by simpa using (h.resolve_left h₁).resolve_left h₃)]

theorem createString_eq_create (h : ¬ Rejected str) (hlen : str.length ≤ 40) :
    createString str = create (str.head? ≠ some 45)
      (((unsigned str).filter (· ≠ 46)).foldl readChar 0) (decimalsOf str) := by
  simp only [Rejected, not_or, Nat.not_lt] at h
  rw [createString, if_neg (by simp [h.1, h.2.1]; omega), ← unsigned]
  dsimp only
  rw [createLoop_eq, if_pos (by simpa using h.2.2)]
  simp [decimalsOf]

theorem IsDecimal.not_rejected (h : IsDecimal str) : ¬ Rejected str := by
  rintro (rfl | rfl | hpoints)
  · obtain ⟨c, hc, -⟩ := h.digit
    simp [unsigned] at hc
  · exact absurd (h.chars 78 (by decide)) (by unfold IsDigit; decide)
  · exact absurd h.points (by omega)

theorem IsDecimal.createString (h : IsDecimal str) (hlen : str.length ≤ 40) :
    ∃ x, SafeNumber.createString str = create (str.head? ≠ some 45) x (decimalsOf str) ∧
      x.toNat = digitsOf str := by
  refine ⟨_, createString_eq_create h.not_rejected hlen, ?_⟩
  refine (toNat_foldl_readChar (fun c hc => ?_) 0 ?_).trans ?_
  · rw [List.mem_filter, decide_eq_true_eq] at hc
    exact (h.chars c hc.1).resolve_left hc.2
  all_goals rw [toNat_zero]
  · exact h.lt
  · rfl

/-- **Decimal numbers are read right**, but other texts are accepted as well: the texts on which the
reader is right are the decimal numbers, the empty text, `NaN`, and those with two points. -/
theorem createString_correct_iff {str : Text} (hlen : str.length ≤ 40) :
    ∃ n, createString str = .ok n ∧ (n.valid = false → n = nan) ∧
      (IsDecimal str → n.valid = true ∧ ∃ d ≤ 16, n.value = truncateAt d (textValue str)) ∧
      ((n.valid = true ↔ IsDecimal str) ↔ IsDecimal str ∨ str = [] ∨ str = text "NaN" ∨
        1 < (unsigned str).count 46) := by
  by_cases hrejected : Rejected str
  · refine ⟨nan, createString_of_rejected hrejected, fun _ => rfl,
      fun h => absurd hrejected h.not_rejected, ?_⟩
    exact iff_of_true (iff_of_false (by decide) fun h => h.not_rejected hrejected) (.inr hrejected)
  · obtain ⟨n, hn, hvalid⟩ := create_valid (str.head? ≠ some 45)
      (((unsigned str).filter (· ≠ 46)).foldl readChar 0) (decimalsOf str)
    have hcreate := (createString_eq_create hrejected hlen).trans hn
    refine ⟨n, hcreate, by simp [hvalid], fun h => ⟨hvalid, ?_⟩, ?_⟩
    · obtain ⟨x, hx, hdigits⟩ := h.createString hlen
      obtain ⟨n', hn', -, he, hvalue⟩ := create_value (str.head? ≠ some 45) x (decimalsOf str)
      obtain rfl := Except.ok.inj (hcreate.symm.trans (hx.trans hn'))
      have hkept := kept_le x.toNat (decimalsOf str)
      rw [hdigits] at hvalue hkept
      exact ⟨kept (digitsOf str) (decimalsOf str), by omega, hvalue⟩
    · rw [iff_true_left hvalid]
      exact ⟨.inl, fun h => h.resolve_right hrejected⟩

theorem createString_correct_iff_point : ∃ n, createString (text "+.25") = .ok n ∧
    n.valid = true ∧ ∃ d ≤ 16, n.value = truncateAt d (textValue (text "+.25")) := by
  obtain ⟨n, hn, -, hvalue, -⟩ := createString_correct_iff
    (by decide : (text "+.25").length ≤ 40)
  refine ⟨n, hn, hvalue ⟨?_, by decide, ⟨50, by decide, by unfold IsDigit; decide⟩, by decide⟩⟩
  rw [(by decide : unsigned (text "+.25") = [46, 50, 53])]
  simp [IsDigit]

/-- **Letters are accepted**, and so are a point alone and digits that overflow: `2 ^ 128` is read
as zero. -/
theorem createString_lenient : ∃ a b c, createString (text "abc") = .ok a ∧
    createString (text ".") = .ok b ∧
    createString (text "340282366920938463463374607431768211456") = .ok c ∧
    a.valid = true ∧ b.valid = true ∧ c.valid = true ∧ c.isZero = true ∧
    ¬ IsDecimal (text "abc") ∧ ¬ IsDecimal (text ".") ∧
    ¬ IsDecimal (text "340282366920938463463374607431768211456") := by
  refine ⟨⟨true, true, ⟨0, 5451⟩, 0⟩, zero, zero, by decide +kernel, by decide +kernel,
    by decide +kernel, rfl, rfl, rfl, rfl, fun h => ?_, fun h => ?_, fun h => ?_⟩
  · exact absurd (h.chars 97 (by decide)) (by unfold IsDigit; decide)
  · obtain ⟨c, hc, hdigit⟩ := h.digit
    obtain rfl : c = 46 := List.mem_singleton.mp hc
    exact absurd hdigit (by unfold IsDigit; decide)
  · exact absurd h.lt (by decide)

/-! ### Writing -/

/-- The digits of a number, which may start with zeros. -/
structure IsNumeral (str : Text) (n : ℕ) : Prop where
  chars : ∀ c ∈ str, IsDigit c
  eq : ∀ start, str.foldl readDigit start = start * 10 ^ str.length + n

theorem isNumeral_nil : IsNumeral [] 0 := ⟨by simp, by simp⟩

theorem IsNumeral.append {str' : Text} {m n : ℕ} (h : IsNumeral str m) (h' : IsNumeral str' n) :
    IsNumeral (str ++ str') (m * 10 ^ str'.length + n) := by
  refine ⟨List.forall_mem_append.mpr ⟨h.chars, h'.chars⟩, fun start => ?_⟩
  rw [List.foldl_append, h.eq, h'.eq, List.length_append, pow_add]
  ring

theorem isNumeral_singleton {i : ℕ} (hi : i < 10) (hc : c.toNat = 48 + i) : IsNumeral [c] i := by
  refine ⟨by simp only [List.mem_singleton, forall_eq, IsDigit]; omega, fun start => ?_⟩
  rw [List.foldl_cons, List.foldl_nil, readDigit, hc, List.length_singleton, pow_one]
  omega

theorem isNumeral_replicate (n : ℕ) : IsNumeral (List.replicate n 48) 0 := by
  induction n with
  | zero => exact isNumeral_nil
  | succ n ih =>
    rw [List.replicate_succ]
    simpa using (isNumeral_singleton (i := 0) (c := 48) (by decide) rfl).append ih

theorem toStringLoop_digit (a : SimpleUint128) : ∃ s c, simpleUint128Divmod a uint128Ten = .ok s ∧
    s.divResult.toNat = a.toNat / 10 ∧
    (text "0123456789abcdef").getD s.modResult.low.toUInt8.toNat 0 = c ∧
    ∀ str, IsNumeral str (a.toNat / 10) → IsNumeral (str ++ [c]) a.toNat := by
  have hdigit : ∀ i < 10, ((text "0123456789abcdef").getD i 0).toNat = 48 + i := by decide
  obtain ⟨s, hs, hdiv, hmod⟩ := simpleUint128Divmod_eq_ok (a := a) (b := uint128Ten)
    (by rw [toNat_uint128Ten]; decide)
  rw [toNat_uint128Ten] at hdiv hmod
  have hlow : s.modResult.low.toUInt8.toNat = a.toNat % 10 := by
    have hlow := toNat_low_uint128 s.modResult
    rw [UInt64.toNat_toUInt8]
    omega
  have hlt := Nat.mod_lt a.toNat (show 0 < 10 by decide)
  refine ⟨s, _, hs, hdiv, by rw [hlow], fun str h => ?_⟩
  have happend := h.append (isNumeral_singleton hlt (hdigit _ hlt))
  rw [List.length_singleton, pow_one, Nat.mul_comm, Nat.div_add_mod] at happend
  exact happend

theorem toStringLoop_eq_ok {n : ℕ} {a : SimpleUint128} (h : a.toNat < 10 ^ (n + 1)) (out : Text) :
    ∃ str, toStringLoop uint128Ten (n + 1) a out = .ok (str ++ out) ∧ IsNumeral str a.toNat ∧
      0 < str.length ∧ ∀ k, a.toNat < 10 ^ (k + 1) → str.length ≤ k + 1 := by
  induction n generalizing a out with
  | zero =>
    obtain ⟨s, c, hs, hdiv, hc, hlast⟩ := toStringLoop_digit a
    have hzero : a.toNat / 10 = 0 := by omega
    refine ⟨[c], ?_, hlast [] (by rw [hzero]; exact isNumeral_nil), by simp, by simp⟩
    rw [toStringLoop, hs, ok_bind, hc, if_pos (Wide.isZero_iff.mpr (hdiv.trans hzero))]
    rfl
  | succ n ih =>
    obtain ⟨s, c, hs, hdiv, hc, hlast⟩ := toStringLoop_digit a
    rw [toStringLoop, hs, ok_bind, hc]
    simp only [Wide.isZero_iff, hdiv]
    split_ifs with hzero
    · exact ⟨[c], rfl, hlast [] (by rw [hzero]; exact isNumeral_nil), by simp, by simp⟩
    · obtain ⟨str, hstr, hnumeral, -, hlen⟩ := ih (a := s.divResult)
        (by rw [hdiv]; exact Nat.div_lt_of_lt_mul (by rwa [← pow_succ'])) (c :: out)
      rw [hdiv] at hnumeral hlen
      refine ⟨str ++ [c], by rw [hstr, List.append_assoc]; rfl, hlast str hnumeral, by simp,
        fun k hk => ?_⟩
      cases k with
      | zero => omega
      | succ k =>
        have := hlen k (Nat.div_lt_of_lt_mul (by rwa [← pow_succ']))
        rw [List.length_append, List.length_singleton]
        omega

/-- **Numbers are written in decimal digits**, with zeros in front up to the length. -/
theorem simpleUint128ToString_eq_ok (a : SimpleUint128) (len : ℕ) :
    ∃ str, simpleUint128ToString a 10 len = .ok str ∧ IsNumeral str a.toNat ∧ 0 < str.length ∧
      len ≤ str.length ∧ ∀ k, a.toNat < 10 ^ (k + 1) → str.length ≤ max len (k + 1) := by
  obtain ⟨out, hout, hnumeral, hpos, hlen⟩ : ∃ out,
      (if Wide.isZero a then pure (text "0") else toStringLoop uint128Ten 128 a []) =
        (.ok out : Except String Text) ∧ IsNumeral out a.toNat ∧ 0 < out.length ∧
      ∀ k, a.toNat < 10 ^ (k + 1) → out.length ≤ k + 1 := by
    have hlt := toNat_lt_uint128 a
    simp only [Wide.isZero_iff]
    split_ifs with hzero
    · refine ⟨text "0", rfl, ?_, by decide, fun k _ => by show 1 ≤ k + 1; omega⟩
      rw [hzero]
      exact isNumeral_singleton (i := 0) (by decide) rfl
    · obtain ⟨str, hstr, h⟩ := toStringLoop_eq_ok (n := 127) (hlt.trans_le (by decide)) []
      exact ⟨str, by rw [hstr, List.append_nil], h⟩
  refine ⟨List.replicate (len - out.length) 48 ++ out, ?_, ?_, ?_, ?_, fun k hk => ?_⟩
  · rw [simpleUint128ToString, require, if_pos (by decide), ok_bind]
    split_ifs at hout ⊢
    · obtain rfl := Except.ok.inj hout
      rfl
    · rw [show toStringLoop ⟨0, UInt8.toUInt64 10⟩ 128 a [] = .ok out from hout]
      rfl
  · simpa using (isNumeral_replicate (len - out.length)).append hnumeral
  all_goals rw [List.length_append, List.length_replicate]
  · omega
  · omega
  · have := hlen k hk
    omega

/-! ### There and back -/

section digits

variable {p q : Text} {c : UInt8}

theorem IsDigit.ne_point (h : IsDigit c) : c ≠ 46 := by
  rintro rfl
  exact absurd h.1 (by decide)

theorem filter_digits (h : ∀ c ∈ p, IsDigit c) : p.filter (· ≠ 46) = p :=
  List.filter_eq_self.mpr fun c hc => decide_eq_true (h c hc).ne_point

theorem dropWhile_digits (h : ∀ c ∈ p, IsDigit c) (rest : Text) :
    (p ++ rest).dropWhile (· ≠ 46) = rest.dropWhile (· ≠ 46) :=
  List.dropWhile_append_of_pos fun c hc => decide_eq_true (h c hc).ne_point

theorem count_digits (h : ∀ c ∈ p, IsDigit c) : p.count 46 = 0 :=
  List.count_eq_zero.mpr fun hc => (h _ hc).ne_point rfl

theorem unsigned_append (sign : Bool) (h : ∀ c ∈ p, IsDigit c) (hpos : 0 < p.length) (rest : Text) :
    unsigned ((if sign then [] else text "-") ++ p ++ rest) = p ++ rest ∧
      decide (((if sign then [] else text "-") ++ p ++ rest).head? ≠ some 45) = sign := by
  obtain ⟨c, p, rfl⟩ := List.exists_cons_of_length_pos hpos
  obtain ⟨hc, -⟩ := h c List.mem_cons_self
  have hplus : c ≠ 43 := by
    rintro rfl
    exact absurd hc (by decide)
  have hminus : c ≠ 45 := by
    rintro rfl
    exact absurd hc (by decide)
  cases sign
  · exact ⟨rfl, rfl⟩
  · simp [unsigned, hplus, hminus]

theorem createString_append {m k : ℕ} {x : SimpleUint128} (sign : Bool) (rest : Text)
    (hp : IsNumeral p m) (hpos : 0 < p.length) (hq : IsNumeral (rest.filter (· ≠ 46)) k)
    (hpoints : rest.count 46 ≤ 1)
    (hx : x.toNat = m * 10 ^ (rest.filter (· ≠ 46)).length + k)
    (hlen : ((if sign then [] else text "-") ++ p ++ rest).length ≤ 40) :
    createString ((if sign then [] else text "-") ++ p ++ rest) =
      create sign x (rest.dropWhile (· ≠ 46)).tail.length := by
  obtain ⟨hunsigned, hsign⟩ := unsigned_append sign hp.chars hpos rest
  have hdigits : digitsOf ((if sign then [] else text "-") ++ p ++ rest) = x.toNat := by
    rw [digitsOf, hunsigned, List.filter_append, filter_digits hp.chars, (hp.append hq).eq,
      Nat.zero_mul, Nat.zero_add, hx]
  have hdecimal : IsDecimal ((if sign then [] else text "-") ++ p ++ rest) := by
    refine ⟨?_, ?_, ?_, by rw [hdigits]; exact toNat_lt_uint128 x⟩
    · rw [hunsigned]
      intro c hc
      by_cases hpoint : c = 46
      · exact .inl hpoint
      · rcases List.mem_append.mp hc with hc | hc
        · exact .inr (hp.chars c hc)
        · exact .inr (hq.chars c (List.mem_filter.mpr ⟨hc, decide_eq_true hpoint⟩))
    · rw [hunsigned, List.count_append, count_digits hp.chars, Nat.zero_add]
      exact hpoints
    · obtain ⟨c, hc⟩ := List.exists_mem_of_length_pos hpos
      exact ⟨c, by rw [hunsigned]; exact List.mem_append_left _ hc, hp.chars c hc⟩
  obtain ⟨y, hy, hyn⟩ := hdecimal.createString hlen
  rw [hy, hsign, decimalsOf, hunsigned, dropWhile_digits hp.chars,
    Wide.toNat_inj (hyn.trans hdigits)]

end digits

variable {n : SafeNumber}

theorem create_self (hvalid : n.valid = true) (hc : n.Canonical) (hne : n.x.toNat ≠ 0) :
    create n.sign n.x n.e = .ok n := by
  obtain ⟨n', hn, hvalid', hle, hx, hsign, hshort⟩ := create_cut n.sign n.x n.e
  have hkept : kept n.x.toNat n.e = n.e := by
    rcases hc.x with h | h
    · have := kept_le n.x.toNat n.e
      omega
    · rw [kept_of_le h]
      exact Nat.min_eq_right hc.e
  rw [hkept, Nat.sub_self, pow_zero, Nat.div_one] at hx
  have hne' : n'.x.toNat ≠ 0 := fun h => hne (by rw [← hx, h, Nat.zero_mul])
  have heq : n'.x.toNat * 10 ^ n.e = n.x.toNat * 10 ^ n'.e := by
    rw [← hx, Nat.mul_assoc, ← pow_add, Nat.sub_add_cancel (hkept ▸ hle)]
  obtain ⟨hx', he⟩ := (hshort.resolve_left hne').unique (by decide)
    (hc.shortest.resolve_left hne) heq
  have hs := hsign.resolve_right fun h => hne' h.2
  obtain ⟨valid, sign, x, e⟩ := n
  obtain ⟨valid', sign', x', e'⟩ := n'
  obtain rfl : x' = x := Wide.toNat_inj hx'
  simp only at hvalid hvalid' hs he
  rw [hn, hvalid, hvalid', hs, he]

/-- A number is written as a sign, its integer part, and its decimals after a point, if they are not
zero. -/
theorem toString_eq_ok (hvalid : n.valid = true) (hc : n.Canonical) (hne : n.x.toNat ≠ 0) :
    ∃ p q, toString n = .ok ((if n.sign then [] else text "-") ++ p ++
        if n.x.toNat % 10 ^ n.e = 0 then [] else 46 :: q) ∧
      IsNumeral p (n.x.toNat / 10 ^ n.e) ∧ 0 < p.length ∧
      (∀ k, n.x.toNat / 10 ^ n.e < 10 ^ (k + 1) → p.length ≤ k + 1) ∧
      IsNumeral q (n.x.toNat % 10 ^ n.e) ∧ (0 < n.e → q.length = n.e) := by
  have hzero : n.isZero = false := by rwa [← Bool.not_eq_true, isZero_eq hvalid]
  have hcompress : compressNumber n = .ok n := by
    have hself := create_self hvalid hc hne
    obtain ⟨valid, sign, x, e⟩ := n
    obtain rfl : valid = true := hvalid
    exact hself
  obtain ⟨pq, hpq, hdiv, hmod⟩ := divmod_decimals hc.e
  obtain ⟨p, hp, hpn, hpos, -, hplen⟩ := simpleUint128ToString_eq_ok pq.divResult 0
  obtain ⟨q, hq, hqn, -, hqle, hqlen⟩ := simpleUint128ToString_eq_ok pq.modResult n.e
  rw [hdiv] at hpn hplen
  rw [hmod] at hqn hqlen
  refine ⟨p, q, ?_, hpn, hpos, fun k hk => by simpa using hplen k hk, hqn, fun he => ?_⟩
  · rw [toString, hcompress, ok_bind, hvalid, hzero, if_neg (by decide), if_neg (by decide), hpq,
      ok_bind, hp, ok_bind]
    simp only [Wide.isZero_iff, hmod]
    by_cases hrest : n.x.toNat % 10 ^ n.e = 0
    · rw [if_pos hrest, if_pos hrest]
      rfl
    · rw [if_neg hrest, if_neg hrest, hq]
      rfl
  · have hlt := Nat.mod_lt n.x.toNat (Nat.pow_pos (n := n.e) (show 0 < 10 by decide))
    have := hqlen (n.e - 1) (by rwa [Nat.sub_add_cancel he])
    omega

/-- **Texts give the number back.** -/
theorem createString_toString (h : Made n) (hvalid : n.valid = true) (hzero : n.isZero = false) :
    ∃ str, toString n = .ok str ∧ createString str = .ok n := by
  have hc := h.canonical
  have hne : n.x.toNat ≠ 0 := by rwa [← Bool.not_eq_true, isZero_eq hvalid] at hzero
  obtain ⟨p, q, hrun, hp, hpos, hplen, hq, hqlen⟩ := toString_eq_ok hvalid hc hne
  have he16 := hc.e
  have hsgn : (if n.sign then [] else text "-").length ≤ 1 := by split_ifs <;> decide
  refine ⟨_, hrun, ?_⟩
  rw [← create_self hvalid hc hne]
  by_cases hrest : n.x.toNat % 10 ^ n.e = 0
  · -- without a fraction there are no decimals
    have he : n.e = 0 := by
      by_contra he
      exact ((hc.shortest.resolve_left hne).resolve_left he)
        ((dvd_pow_self 10 he).trans (Nat.dvd_of_mod_eq_zero hrest))
    rw [he, pow_zero, Nat.div_one] at hp hplen
    have hlen := hplen 38 ((toNat_lt_uint128 n.x).trans_le (by decide))
    rw [if_pos hrest, he]
    refine createString_append n.sign [] hp hpos isNumeral_nil (by decide) (by simp) ?_
    rw [List.length_append, List.length_append, List.length_nil]
    omega
  · have he : 0 < n.e := Nat.pos_of_ne_zero fun he => hrest (by rw [he, pow_zero, Nat.mod_one])
    have hlen : p.length ≤ 32 - n.e + 1 := by
      refine hplen _ (lt_of_le_of_lt ?_ (Nat.pow_lt_pow_right (by decide) (Nat.lt_succ_self _)))
      rw [← Nat.pow_div (by omega) (by decide)]
      exact Nat.div_le_div_right (hc.x.resolve_left he.ne')
    have hfilter : (46 :: q : Text).filter (· ≠ 46) = q := by
      rw [List.filter_cons_of_neg (by decide), filter_digits hq.chars]
    have hread := createString_append (x := n.x) n.sign (46 :: q) hp hpos
      (by rwa [hfilter]) (by rw [List.count_cons_self, count_digits hq.chars])
      (by rw [hfilter, hqlen he, Nat.div_add_mod']) (by
        rw [List.length_append, List.length_append, List.length_cons, hqlen he]
        omega)
    rw [if_neg hrest, hread, List.dropWhile_cons_of_neg (by decide), List.tail_cons, hqlen he]

theorem createString_toString_negative : ∃ n str, createString (text "-12.03400") = .ok n ∧
    toString n = .ok str ∧ createString str = .ok n := by
  have hn : createString (text "-12.03400") = .ok ⟨true, false, ⟨0, 12034⟩, 3⟩ := by decide +kernel
  obtain ⟨str, hstr, hread⟩ := createString_toString (.createString hn) rfl rfl
  exact ⟨_, str, hn, hstr, hread⟩

end SafeNumber

end Whitecoin.Native
