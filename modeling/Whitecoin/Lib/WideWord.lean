import Mathlib.Data.Fin.VecNotation
import Mathlib.Data.Nat.Bitwise
import Whitecoin.Lib.Radix

/-!
# Words of double width

Two words make a word of double width, and the operations on it are built from those on its halves.
The construction can be repeated.

Division needs a difference for its remainders only. It is a parameter, so that a difference can be
used that is right for some words and not for others.
-/

/-- The operations of a type of words with `2 * half` bits. -/
class MachineWord (W : Type) extends Zero W, One W, Add W, Sub W, Mul W, AndOp W, OrOp W where
  decEq : DecidableEq W
  half : ℕ
  toNat : W → ℕ
  /-- The low half of the bits. -/
  mask : W
  /-- All bits. -/
  ones : W
  lt : W → W → Bool
  shiftLeft : W → ℕ → W
  shiftRight : W → ℕ → W

export MachineWord (half mask ones)

attribute [reducible, instance] MachineWord.decEq

/-- Operations that compute modulo the number of words. -/
class LawfulWord (W : Type) [MachineWord W] : Prop where
  le_half : 4 ≤ half W
  toNat_lt (a : W) : MachineWord.toNat a < 2 ^ (2 * half W)
  toNat_inj {a b : W} (h : MachineWord.toNat a = MachineWord.toNat b) : a = b
  toNat_zero : MachineWord.toNat (0 : W) = 0
  toNat_one : MachineWord.toNat (1 : W) = 1
  toNat_mask : MachineWord.toNat (mask : W) = 2 ^ half W - 1
  toNat_ones : MachineWord.toNat (ones : W) = 2 ^ (2 * half W) - 1
  lt_iff {a b : W} : MachineWord.lt a b = true ↔ MachineWord.toNat a < MachineWord.toNat b
  toNat_add (a b : W) : MachineWord.toNat (a + b) =
    (MachineWord.toNat a + MachineWord.toNat b) % 2 ^ (2 * half W)
  toNat_sub (a b : W) : MachineWord.toNat (a - b) =
    (2 ^ (2 * half W) - MachineWord.toNat b + MachineWord.toNat a) % 2 ^ (2 * half W)
  toNat_mul (a b : W) : MachineWord.toNat (a * b) =
    MachineWord.toNat a * MachineWord.toNat b % 2 ^ (2 * half W)
  toNat_and (a b : W) : MachineWord.toNat (a &&& b) =
    MachineWord.toNat a &&& MachineWord.toNat b
  toNat_or (a b : W) : MachineWord.toNat (a ||| b) =
    MachineWord.toNat a ||| MachineWord.toNat b
  toNat_shiftLeft (a : W) {s : ℕ} (h : s < 2 * half W) :
    MachineWord.toNat (MachineWord.shiftLeft a s) =
      MachineWord.toNat a * 2 ^ s % 2 ^ (2 * half W)
  toNat_shiftRight (a : W) {s : ℕ} (h : s < 2 * half W) :
    MachineWord.toNat (MachineWord.shiftRight a s) = MachineWord.toNat a / 2 ^ s

instance : MachineWord UInt64 where
  zero := 0
  one := 1
  decEq := inferInstance
  half := 32
  toNat := UInt64.toNat
  mask := 0xffffffff
  ones := 0xffffffffffffffff
  lt a b := decide (a < b)
  shiftLeft a s := a <<< UInt64.ofNat s
  shiftRight a s := a >>> UInt64.ofNat s

instance : LawfulWord UInt64 where
  le_half := by decide
  toNat_lt := UInt64.toNat_lt
  toNat_inj := UInt64.toNat_inj.mp
  toNat_zero := rfl
  toNat_one := rfl
  toNat_mask := rfl
  toNat_ones := rfl
  lt_iff := by
    intro a b
    simp only [MachineWord.lt, MachineWord.toNat, decide_eq_true_eq, UInt64.lt_iff_toNat_lt]
  toNat_add := UInt64.toNat_add
  toNat_sub := UInt64.toNat_sub
  toNat_mul := UInt64.toNat_mul
  toNat_and := UInt64.toNat_and
  toNat_or := UInt64.toNat_or
  toNat_shiftLeft a s h := by
    change s < 64 at h
    show (a <<< UInt64.ofNat s).toNat = _
    rw [UInt64.toNat_shiftLeft, UInt64.toNat_ofNat', Nat.mod_eq_of_lt (by omega : s < 2 ^ 64),
      Nat.mod_eq_of_lt h, Nat.shiftLeft_eq]
    rfl
  toNat_shiftRight a s h := by
    change s < 64 at h
    show (a >>> UInt64.ofNat s).toNat = _
    rw [UInt64.toNat_shiftRight, UInt64.toNat_ofNat', Nat.mod_eq_of_lt (by omega : s < 2 ^ 64),
      Nat.mod_eq_of_lt h, Nat.shiftRight_eq_div_pow]
    rfl

/-- Two words, of which `big` has the high bits. -/
structure Wide (W : Type) where
  big : W
  low : W
  deriving DecidableEq

namespace Wide

open LawfulWord

variable {W : Type} [MachineWord W]

/-! ### The operations -/

/-- The number that the word stands for. -/
def toNat (a : Wide W) : ℕ :=
  MachineWord.toNat a.big * 2 ^ (2 * half W) + MachineWord.toNat a.low

def isZero (a : Wide W) : Bool := a.big = 0 && a.low = 0

def gt (a b : Wide W) : Bool :=
  if a.big = b.big then MachineWord.lt b.low a.low else MachineWord.lt b.big a.big

def ge (a b : Wide W) : Bool := gt a b || decide (a = b)

def add (a b : Wide W) : Wide W :=
  ⟨a.big + b.big + (if MachineWord.lt (a.low + b.low) a.low then 1 else 0), a.low + b.low⟩

def minus (a b : Wide W) : Wide W :=
  ⟨a.big - b.big - (if MachineWord.lt a.low (a.low - b.low) then 1 else 0), a.low - b.low⟩

/-- The four digits of a word, the highest first. -/
def digits (a : Wide W) : Fin 4 → W :=
  ![MachineWord.shiftRight a.big (half W), a.big &&& mask,
    MachineWord.shiftRight a.low (half W), a.low &&& mask]

def multi (a b : Wide W) : Wide W :=
  let products (x y : Fin 4) := digits a (3 - x) * digits b y
  let low (p : W) := p &&& mask
  let high (p : W) := MachineWord.shiftRight p (half W)
  -- first row
  let fourth := low (products 0 3)
  let third := low (products 0 2) + high (products 0 3)
  let second := low (products 0 1) + high (products 0 2)
  let first := low (products 0 0) + high (products 0 1)
  -- second row
  let third := third + low (products 1 3)
  let second := second + (low (products 1 2) + high (products 1 3))
  let first := first + (low (products 1 1) + high (products 1 2))
  -- third row
  let second := second + low (products 2 3)
  let first := first + (low (products 2 2) + high (products 2 3))
  -- fourth row
  let first := first + low (products 3 3)
  -- move carry to next digit
  let third := third + high fourth
  let second := second + high third
  let first := first + high second
  ⟨MachineWord.shiftLeft (low first) (half W) ||| low second,
    MachineWord.shiftLeft (low third) (half W) ||| low fourth⟩

def shiftLeft (a : Wide W) (shift : ℕ) : Wide W :=
  if 4 * half W ≤ shift then ⟨0, 0⟩
  else if shift = 2 * half W then ⟨a.low, 0⟩
  else if shift = 0 then a
  else if shift < 2 * half W then
    ⟨MachineWord.shiftLeft a.big shift + MachineWord.shiftRight a.low (2 * half W - shift),
      MachineWord.shiftLeft a.low shift⟩
  else ⟨MachineWord.shiftLeft a.low (shift - 2 * half W), 0⟩

def shiftRight (a : Wide W) (shift : ℕ) : Wide W :=
  if 4 * half W ≤ shift then ⟨0, 0⟩
  else if shift = 2 * half W then ⟨0, a.big⟩
  else if shift = 0 then a
  else if shift < 2 * half W then
    ⟨MachineWord.shiftRight a.big shift,
      MachineWord.shiftLeft a.big (2 * half W - shift) + MachineWord.shiftRight a.low shift⟩
  else ⟨0, MachineWord.shiftRight a.big (shift - 2 * half W)⟩

def bitAnd (a b : Wide W) : Wide W := ⟨a.big &&& b.big, a.low &&& b.low⟩

def bitOr (a b : Wide W) : Wide W := ⟨a.big ||| b.big, a.low ||| b.low⟩

/-- The bits of a word are counted by shifting it to the right. The word has at most `fuel` bits. -/
def countBits : ℕ → W → UInt8 → UInt8
  | 0, _, out => out
  | fuel + 1, up, out =>
    if up = 0 then out else countBits fuel (MachineWord.shiftRight up 1) (out + 1)

/-- The number of bits, in one byte. -/
def bits (a : Wide W) : UInt8 :=
  if a.big ≠ 0 then countBits (2 * half W) a.big (UInt8.ofNat (2 * half W))
  else countBits (2 * half W) a.low 0

structure DivResult (W : Type) where
  divResult : Wide W
  modResult : Wide W
  deriving DecidableEq

/-- The remainder with the bit of the dividend at the place `x`. -/
def takeBit (a : Wide W) (x : ℕ) (modResult : Wide W) : Wide W :=
  if isZero (bitAnd (shiftRight a x) ⟨0, 1⟩) then modResult else add modResult ⟨0, 1⟩

/-- One step of the division. -/
def divStep (minus : Wide W → Wide W → Wide W) (a b : Wide W) (x : ℕ) (s : DivResult W) :
    DivResult W :=
  let divResult := shiftLeft s.divResult 1
  let modResult := takeBit a x (shiftLeft s.modResult 1)
  if ge modResult b then ⟨add divResult ⟨0, 1⟩, minus modResult b⟩ else ⟨divResult, modResult⟩

/-- The loop of the division. -/
def divLoop (minus : Wide W → Wide W → Wide W) (a b : Wide W) : ℕ → DivResult W → DivResult W
  | 0, s => s
  | x + 1, s => divLoop minus a b x (divStep minus a b x s)

def divmod (minus : Wide W → Wide W → Wide W) (a b : Wide W) : Except String (DivResult W) :=
  if isZero b then .error "Error: division or modulus by 0"
  else if b = ⟨0, 1⟩ then .ok ⟨a, ⟨0, 0⟩⟩
  else if a = b then .ok ⟨⟨0, 1⟩, ⟨0, 0⟩⟩
  else if isZero a || gt b a then .ok ⟨⟨0, 0⟩, a⟩
  else .ok (divLoop minus a b (bits a).toNat ⟨⟨0, 0⟩, ⟨0, 0⟩⟩)

instance : MachineWord (Wide W) where
  zero := ⟨0, 0⟩
  one := ⟨0, 1⟩
  add := add
  sub := minus
  mul := multi
  and := bitAnd
  or := bitOr
  decEq := inferInstance
  half := 2 * half W
  toNat := toNat
  mask := ⟨0, ones⟩
  ones := ⟨ones, ones⟩
  lt a b := gt b a
  shiftLeft := shiftLeft
  shiftRight := shiftRight

/-! ### What they compute -/

section lawful

variable [LawfulWord W]

theorem two_pow_double (W : Type) [MachineWord W] :
    2 ^ (2 * (2 * half W)) = 2 ^ (2 * half W) * 2 ^ (2 * half W) := by
  rw [two_mul (2 * half W), pow_add]

theorem toNat_lt (a : Wide W) : a.toNat < 2 ^ (2 * (2 * half W)) := by
  have hbig := LawfulWord.toNat_lt a.big
  have hlow := LawfulWord.toNat_lt a.low
  rw [two_pow_double, toNat]
  calc _ < MachineWord.toNat a.big * 2 ^ (2 * half W) + 2 ^ (2 * half W) := by omega
    _ = (MachineWord.toNat a.big + 1) * 2 ^ (2 * half W) := by ring
    _ ≤ _ := Nat.mul_le_mul_right _ hbig

theorem toNat_low (a : Wide W) : MachineWord.toNat a.low = a.toNat % 2 ^ (2 * half W) := by
  rw [toNat, Nat.add_comm, Nat.add_mul_mod_self_right, Nat.mod_eq_of_lt (LawfulWord.toNat_lt _)]

theorem toNat_big (a : Wide W) : MachineWord.toNat a.big = a.toNat / 2 ^ (2 * half W) := by
  rw [toNat, Nat.add_comm, Nat.add_mul_div_right _ _ (Nat.two_pow_pos _),
    Nat.div_eq_of_lt (LawfulWord.toNat_lt a.low), Nat.zero_add]

theorem toNat_inj {a b : Wide W} (h : a.toNat = b.toNat) : a = b := by
  have hbig : a.big = b.big := LawfulWord.toNat_inj (by rw [toNat_big, h, toNat_big])
  have hlow : a.low = b.low := LawfulWord.toNat_inj (by rw [toNat_low, h, toNat_low])
  exact congrArg₂ Wide.mk hbig hlow

theorem toNat_add (a b : Wide W) :
    (add a b).toNat = (a.toNat + b.toNat) % 2 ^ (2 * (2 * half W)) := by
  have hal := LawfulWord.toNat_lt a.low
  have hbl := LawfulWord.toNat_lt b.low
  have hM := Nat.two_pow_pos (2 * half W)
  simp only [add, toNat, LawfulWord.toNat_add]
  rw [two_pow_double]
  set M := 2 ^ (2 * half W)
  set ah := MachineWord.toNat a.big
  set al := MachineWord.toNat a.low
  set bh := MachineWord.toNat b.big
  set bl := MachineWord.toNat b.low
  have hcarry : MachineWord.toNat
      (if MachineWord.lt (a.low + b.low) a.low then (1 : W) else 0) = (al + bl) / M := by
    simp only [lt_iff, LawfulWord.toNat_add]
    rcases lt_or_ge (al + bl) M with h | h
    · rw [Nat.mod_eq_of_lt h, if_neg (by omega), toNat_zero, Nat.div_eq_of_lt h]
    · have hmod : (al + bl) % M = al + bl - M := by
        rw [Nat.mod_eq_sub_mod h, Nat.mod_eq_of_lt (by omega)]
      rw [hmod, if_pos (by omega), toNat_one,
        Nat.div_eq_of_lt_le (by omega : 1 * M ≤ al + bl) (by omega)]
  rw [hcarry, show ah * M + al + (bh * M + bl) = al + bl + M * (ah + bh) by ring, Nat.mod_mul,
    Nat.add_mul_mod_self_left, Nat.add_mul_div_left _ _ hM, Nat.mod_add_mod,
    Nat.add_comm ((al + bl) / M)]
  ring

theorem toNat_minus (a b : Wide W) :
    (minus a b).toNat = (2 ^ (2 * (2 * half W)) - b.toNat + a.toNat) % 2 ^ (2 * (2 * half W)) := by
  have hal := LawfulWord.toNat_lt a.low
  have hbl := LawfulWord.toNat_lt b.low
  have hbh := LawfulWord.toNat_lt b.big
  have hM := Nat.two_pow_pos (2 * half W)
  simp only [minus, toNat, LawfulWord.toNat_sub]
  rw [two_pow_double]
  set M := 2 ^ (2 * half W)
  set ah := MachineWord.toNat a.big
  set al := MachineWord.toNat a.low
  set bh := MachineWord.toNat b.big
  set bl := MachineWord.toNat b.low
  obtain ⟨k, hk⟩ : ∃ k, M = bh + (k + 1) := ⟨M - bh - 1, by omega⟩
  have hsquare : M * M = bh * M + (M + M * k) := by
    nth_rewrite 1 [hk]
    ring
  have hbig : M - bh = k + 1 := by omega
  rcases le_or_gt bl al with h | h
  · -- no borrow
    have hlow : (M - bl + al) % M = al - bl := by
      rw [show M - bl + al = al - bl + M by omega, Nat.add_mod_right, Nat.mod_eq_of_lt (by omega)]
    have hborrow : MachineWord.toNat
        (if MachineWord.lt a.low (a.low - b.low) then (1 : W) else 0) = 0 := by
      simp only [lt_iff, LawfulWord.toNat_sub]
      rw [hlow, if_neg (by omega), toNat_zero]
    have hdiff : M * M - (bh * M + bl) + (ah * M + al) = al - bl + M * (k + 1 + ah) := by
      have : M * (k + 1 + ah) = M * k + M + ah * M := by ring
      omega
    rw [hborrow, hlow, hbig, hdiff, Nat.mod_mul, Nat.add_mul_mod_self_left,
      Nat.mod_eq_of_lt (by omega : al - bl < M), Nat.add_mul_div_left _ _ hM,
      Nat.div_eq_of_lt (by omega : al - bl < M), Nat.sub_zero, Nat.add_mod_left, Nat.mod_mod,
      Nat.zero_add]
    ring
  · -- the low half takes one from the high half
    have hlow : (M - bl + al) % M = M - bl + al := Nat.mod_eq_of_lt (by omega)
    have hborrow : MachineWord.toNat
        (if MachineWord.lt a.low (a.low - b.low) then (1 : W) else 0) = 1 := by
      simp only [lt_iff, LawfulWord.toNat_sub]
      rw [hlow, if_pos (by omega), toNat_one]
    have hdiff : M * M - (bh * M + bl) + (ah * M + al) = M - bl + al + M * (k + ah) := by
      have : M * (k + ah) = M * k + ah * M := by ring
      omega
    rw [hborrow, hlow, hbig, hdiff, Nat.mod_mul, Nat.add_mul_mod_self_left, hlow,
      Nat.add_mul_div_left _ _ hM, Nat.div_eq_of_lt (by omega : M - bl + al < M), Nat.add_mod_mod,
      show M - 1 + (k + 1 + ah) = k + ah + M by omega, Nat.add_mod_right, Nat.zero_add]
    ring

/-! #### Products -/

theorem toNat_and_mask (p : W) : MachineWord.toNat (p &&& mask) =
    MachineWord.toNat p % 2 ^ half W := by
  rw [toNat_and, toNat_mask, Nat.and_two_pow_sub_one_eq_mod]

theorem toNat_shiftRight_half (p : W) : MachineWord.toNat (MachineWord.shiftRight p (half W)) =
    MachineWord.toNat p / 2 ^ half W := by
  have := le_half (W := W)
  exact toNat_shiftRight p (by omega)

theorem toNat_lt_mul_self (p : W) : MachineWord.toNat p < 2 ^ half W * 2 ^ half W := by
  rw [← pow_add, ← two_mul]
  exact LawfulWord.toNat_lt p

theorem toNat_digits {p q : W} {m n : ℕ} (hp : MachineWord.toNat p = m)
    (hq : MachineWord.toNat q = n) (hm : m < 2 ^ half W) (hn : n < 2 ^ half W) :
    MachineWord.toNat (MachineWord.shiftLeft p (half W) ||| q) = n + 2 ^ half W * m := by
  have hhalf := le_half (W := W)
  have hlt : m * 2 ^ half W < 2 ^ (2 * half W) := by
    rw [two_mul, pow_add]
    exact Nat.mul_lt_mul_of_pos_right hm (Nat.two_pow_pos _)
  rw [toNat_or, toNat_shiftLeft p (by omega), hp, hq, Nat.mod_eq_of_lt hlt, ← Nat.shiftLeft_eq,
    ← Nat.shiftLeft_add_eq_or_of_lt hn, Nat.shiftLeft_eq]
  ring

/-- The word `p` is `m`, a sum of at most `k` digits. -/
def IsSum (p : W) (m k : ℕ) : Prop := MachineWord.toNat p = m ∧ m < k * 2 ^ half W

theorem IsSum.add {p q : W} {m n j k : ℕ} (hp : IsSum p m j) (hq : IsSum q n k)
    (h : j + k ≤ 16) : IsSum (p + q) (m + n) (j + k) := by
  obtain ⟨rfl, hm⟩ := hp
  obtain ⟨rfl, hn⟩ := hq
  have hsum : MachineWord.toNat p + MachineWord.toNat q < (j + k) * 2 ^ half W := by
    rw [Nat.add_mul]
    omega
  have hle : (j + k) * 2 ^ half W ≤ 2 ^ (2 * half W) := by
    rw [two_mul, pow_add]
    exact Nat.mul_le_mul_right _ (h.trans (Nat.pow_le_pow_right two_pos le_half))
  exact ⟨by rw [LawfulWord.toNat_add, Nat.mod_eq_of_lt (by omega)], hsum⟩

theorem IsSum.high {p : W} {m k : ℕ} (hp : IsSum p m k) (h : k ≤ 16) :
    IsSum (MachineWord.shiftRight p (half W)) (m / 2 ^ half W) 1 := by
  obtain ⟨rfl, hm⟩ := hp
  refine ⟨toNat_shiftRight_half p, ?_⟩
  rw [Nat.one_mul]
  refine Nat.div_lt_of_lt_mul (hm.trans_le (Nat.mul_le_mul_right _ ?_))
  exact h.trans (Nat.pow_le_pow_right two_pos le_half)

theorem IsSum.low {p : W} {m k : ℕ} (hp : IsSum p m k) :
    IsSum (p &&& mask) (m % 2 ^ half W) 1 := by
  obtain ⟨rfl, -⟩ := hp
  refine ⟨toNat_and_mask p, ?_⟩
  rw [Nat.one_mul]
  exact Nat.mod_lt _ (Nat.two_pow_pos _)

theorem toNat_eq_digits (a : Wide W) : ∃ d : Fin 4 → ℕ,
    (∀ i, MachineWord.toNat (digits a i) = d i) ∧ (∀ i, d i < 2 ^ half W) ∧
      a.toNat = d 3 + 2 ^ half W * (d 2 + 2 ^ half W * (d 1 + 2 ^ half W * d 0)) := by
  have hB := Nat.two_pow_pos (half W)
  have hbig := toNat_lt_mul_self a.big
  have hlow := toNat_lt_mul_self a.low
  refine ⟨![MachineWord.toNat a.big / 2 ^ half W, MachineWord.toNat a.big % 2 ^ half W,
    MachineWord.toNat a.low / 2 ^ half W, MachineWord.toNat a.low % 2 ^ half W], ?_, ?_, ?_⟩
  · exact fun
      | 0 => toNat_shiftRight_half a.big
      | 1 => toNat_and_mask a.big
      | 2 => toNat_shiftRight_half a.low
      | 3 => toNat_and_mask a.low
  · exact fun
      | 0 => Nat.div_lt_of_lt_mul hbig
      | 1 => Nat.mod_lt _ hB
      | 2 => Nat.div_lt_of_lt_mul hlow
      | 3 => Nat.mod_lt _ hB
  · have hb := Nat.mod_add_div (MachineWord.toNat a.big) (2 ^ half W)
    have hl := Nat.mod_add_div (MachineWord.toNat a.low) (2 ^ half W)
    show MachineWord.toNat a.big * 2 ^ (2 * half W) + MachineWord.toNat a.low =
      MachineWord.toNat a.low % 2 ^ half W + 2 ^ half W * (MachineWord.toNat a.low / 2 ^ half W +
        2 ^ half W * (MachineWord.toNat a.big % 2 ^ half W +
          2 ^ half W * (MachineWord.toNat a.big / 2 ^ half W)))
    rw [hb, mul_add, ← add_assoc, hl, two_mul, pow_add]
    ring

theorem toNat_multi (a b : Wide W) :
    (multi a b).toNat = a.toNat * b.toNat % 2 ^ (2 * (2 * half W)) := by
  obtain ⟨c, hc, hc', ha⟩ := toNat_eq_digits a
  obtain ⟨d, hd, hd', hb⟩ := toNat_eq_digits b
  have hlt : ∀ x y, c x * d y < 2 ^ half W * 2 ^ half W := fun x y =>
    Nat.mul_lt_mul'' (hc' x) (hd' y)
  have hproduct : ∀ x y, IsSum (digits a x * digits b y) (c x * d y) (2 ^ half W) := fun x y => by
    refine ⟨?_, hlt x y⟩
    rw [toNat_mul, hc, hd, two_mul, pow_add, Nat.mod_eq_of_lt (hlt x y)]
  have hlow : ∀ x y, IsSum (digits a x * digits b y &&& mask) (c x * d y % 2 ^ half W) 1 :=
    fun x y => (hproduct x y).low
  have hhigh : ∀ x y, IsSum (MachineWord.shiftRight (digits a x * digits b y) (half W))
      (c x * d y / 2 ^ half W) 1 := fun x y => by
    refine ⟨by rw [toNat_shiftRight_half, (hproduct x y).1], ?_⟩
    rw [Nat.one_mul]
    exact Nat.div_lt_of_lt_mul (hlt x y)
  -- the sums by their places
  have hfourth := hlow 3 3
  have hthird := (((hlow 3 2).add (hhigh 3 3) (by decide)).add (hlow 2 3) (by decide)).add
    (hfourth.high (by decide)) (by decide)
  have hsecond := ((((hlow 3 1).add (hhigh 3 2) (by decide)).add
    ((hlow 2 2).add (hhigh 2 3) (by decide)) (by decide)).add (hlow 1 3) (by decide)).add
    (hthird.high (by decide)) (by decide)
  have hfirst := (((((hlow 3 0).add (hhigh 3 1) (by decide)).add
    ((hlow 2 1).add (hhigh 2 2) (by decide)) (by decide)).add
    ((hlow 1 2).add (hhigh 1 3) (by decide)) (by decide)).add (hlow 0 3) (by decide)).add
    (hsecond.high (by decide)) (by decide)
  have hlowlt : ∀ {p : W} {m : ℕ}, IsSum p m 1 → m < 2 ^ half W := fun h => by
    rw [← Nat.one_mul (2 ^ half W)]
    exact h.2
  have hbig := toNat_digits hfirst.low.1 hsecond.low.1 (hlowlt hfirst.low) (hlowlt hsecond.low)
  have hsmall := toNat_digits hthird.low.1 hfourth.low.1 (hlowlt hthird.low) (hlowlt hfourth.low)
  have htoNat : (multi a b).toNat = _ := congrArg₂ (fun x y => x * 2 ^ (2 * half W) + y) hbig hsmall
  have hassoc : ∀ B : ℕ, B * B * (B * B) = B * (B * (B * B)) := fun B => by ring
  rw [htoNat, two_pow_double, two_mul, pow_add, ha, hb, hassoc, ← Radix.schoolbook,
    ← Radix.carry (Nat.two_pow_pos _)]
  ring

/-! #### Bits -/

theorem toNat_bitAnd (a b : Wide W) : (bitAnd a b).toNat = a.toNat &&& b.toNat := by
  rw [← Nat.div_add_mod' (a.toNat &&& b.toNat) (2 ^ (2 * half W)), Nat.and_div_two_pow,
    Nat.and_mod_two_pow, ← toNat_big, ← toNat_big, ← toNat_low, ← toNat_low, ← toNat_and,
    ← toNat_and]
  rfl

theorem toNat_bitOr (a b : Wide W) : (bitOr a b).toNat = a.toNat ||| b.toNat := by
  rw [← Nat.div_add_mod' (a.toNat ||| b.toNat) (2 ^ (2 * half W)), Nat.or_div_two_pow,
    Nat.or_mod_two_pow, ← toNat_big, ← toNat_big, ← toNat_low, ← toNat_low, ← toNat_or,
    ← toNat_or]
  rfl

theorem toNat_shiftLeft (a : Wide W) {s : ℕ} (h : s < 2 * (2 * half W)) :
    (shiftLeft a s).toNat = a.toNat * 2 ^ s % 2 ^ (2 * (2 * half W)) := by
  have hM := Nat.two_pow_pos (2 * half W)
  have hlt := a.toNat_lt
  have hsquare := two_pow_double W
  unfold shiftLeft
  rw [if_neg (by omega)]
  split_ifs with hw h0 hs
  · subst hw
    rw [hsquare, Nat.mul_mod_mul_right, ← toNat_low, toNat, toNat_zero]
    ring
  · rw [h0, pow_zero, Nat.mul_one, Nat.mod_eq_of_lt hlt]
  · have hsplit : 2 ^ (2 * half W) = 2 ^ (2 * half W - s) * 2 ^ s := by
      rw [← pow_add, Nat.sub_add_cancel hs.le]
    have hcarry : MachineWord.toNat a.low * 2 ^ s / 2 ^ (2 * half W) =
        MachineWord.toNat a.low / 2 ^ (2 * half W - s) := by
      rw [hsplit, Nat.mul_div_mul_right _ _ (Nat.two_pow_pos s)]
    simp only [toNat, LawfulWord.toNat_add, LawfulWord.toNat_shiftLeft _ hs,
      LawfulWord.toNat_shiftRight _ (by omega : 2 * half W - s < 2 * half W)]
    rw [hsquare, Nat.mod_add_mod, ← hcarry, Nat.mod_mul,
      show (MachineWord.toNat a.big * 2 ^ (2 * half W) + MachineWord.toNat a.low) * 2 ^ s =
        MachineWord.toNat a.low * 2 ^ s + 2 ^ (2 * half W) * (MachineWord.toNat a.big * 2 ^ s) by
        ring,
      Nat.add_mul_mod_self_left, Nat.add_mul_div_left _ _ hM, Nat.add_comm (_ / _)]
    ring
  · -- the low half alone is left
    obtain ⟨t, rfl⟩ : ∃ t, s = 2 * half W + t := ⟨s - 2 * half W, by omega⟩
    simp only [toNat, Nat.add_sub_cancel_left, toNat_zero, Nat.add_zero,
      LawfulWord.toNat_shiftLeft _ (by omega : t < 2 * half W)]
    rw [hsquare, pow_add, show ∀ x y m t : ℕ, (x * m + y) * (m * t) = (y * t + m * (x * t)) * m from
      fun x y m t => by ring, Nat.mul_mod_mul_right, Nat.add_mul_mod_self_left]

theorem toNat_shiftRight (a : Wide W) {s : ℕ} (h : s < 2 * (2 * half W)) :
    (shiftRight a s).toNat = a.toNat / 2 ^ s := by
  have hM := Nat.two_pow_pos (2 * half W)
  have hlow := LawfulWord.toNat_lt a.low
  unfold shiftRight
  rw [if_neg (by omega)]
  split_ifs with hw h0 hs
  · subst hw
    rw [← toNat_big, toNat, toNat_zero]
    ring
  · rw [h0, pow_zero, Nat.div_one]
  · have hsplit : 2 ^ (2 * half W) = 2 ^ s * 2 ^ (2 * half W - s) := by
      rw [← pow_add, Nat.add_sub_cancel' hs.le]
    have hS := Nat.two_pow_pos s
    simp only [toNat, LawfulWord.toNat_add, LawfulWord.toNat_shiftRight _ hs,
      LawfulWord.toNat_shiftLeft _ (by omega : 2 * half W - s < 2 * half W)]
    rw [hsplit] at hlow ⊢
    set S := 2 ^ s
    set T := 2 ^ (2 * half W - s)
    set x := MachineWord.toNat a.big
    set y := MachineWord.toNat a.low
    have hy : y / S < T := Nat.div_lt_of_lt_mul hlow
    have hx := Nat.mod_lt x hS
    have hx' := Nat.div_add_mod x S
    have hsum : x % S * T + y / S < S * T := by
      calc x % S * T + y / S < (x % S + 1) * T := by rw [Nat.add_mul]; omega
        _ ≤ S * T := Nat.mul_le_mul_right _ hx
    rw [Nat.mul_mod_mul_right, Nat.mod_eq_of_lt hsum,
      show x * (S * T) + y = y + S * (x * T) by ring, Nat.add_mul_div_left _ _ hS]
    calc x / S * (S * T) + (x % S * T + y / S) = y / S + (S * (x / S) + x % S) * T := by ring
      _ = y / S + x * T := by rw [hx']
  · obtain ⟨t, rfl⟩ : ∃ t, s = 2 * half W + t := ⟨s - 2 * half W, by omega⟩
    simp only [toNat, Nat.add_sub_cancel_left, toNat_zero, Nat.zero_mul, Nat.zero_add,
      LawfulWord.toNat_shiftRight _ (by omega : t < 2 * half W)]
    rw [pow_add, ← Nat.div_div_eq_div_mul]
    exact congrArg (· / 2 ^ t) (toNat_big a)

theorem gt_iff {a b : Wide W} : gt a b = true ↔ b.toNat < a.toNat := by
  have hal := LawfulWord.toNat_lt a.low
  have hbl := LawfulWord.toNat_lt b.low
  have hstep : ∀ {x y : ℕ}, x < y → x * 2 ^ (2 * half W) + 2 ^ (2 * half W) ≤
      y * 2 ^ (2 * half W) := fun {x y} h => by
    rw [← Nat.succ_mul]
    exact Nat.mul_le_mul_right _ h
  unfold gt toNat
  split_ifs with heq
  · rw [lt_iff, heq]
    omega
  · rw [lt_iff]
    rcases Nat.lt_trichotomy (MachineWord.toNat a.big) (MachineWord.toNat b.big) with h | h | h
    · have := hstep h
      omega
    · exact absurd (LawfulWord.toNat_inj h) heq
    · have := hstep h
      omega

theorem toNat_mk_zero (n : W) : (⟨0, n⟩ : Wide W).toNat = MachineWord.toNat n := by
  rw [toNat, toNat_zero, Nat.zero_mul, Nat.zero_add]

theorem toNat_zero_one : (⟨0, 1⟩ : Wide W).toNat = 1 := by
  rw [toNat_mk_zero, toNat_one]

theorem toNat_zero_zero : (⟨0, 0⟩ : Wide W).toNat = 0 := by
  rw [toNat_mk_zero, toNat_zero]

instance : LawfulWord (Wide W) where
  le_half := by
    have := le_half (W := W)
    show 4 ≤ 2 * half W
    omega
  toNat_lt := toNat_lt
  toNat_inj := toNat_inj
  toNat_zero := toNat_zero_zero
  toNat_one := toNat_zero_one
  toNat_mask := by
    show toNat ⟨0, ones⟩ = 2 ^ (2 * half W) - 1
    rw [toNat_mk_zero, toNat_ones]
  toNat_ones := by
    show toNat ⟨ones, ones⟩ = 2 ^ (2 * (2 * half W)) - 1
    have := Nat.two_pow_pos (2 * half W)
    rw [toNat, toNat_ones, two_pow_double, Nat.sub_mul, Nat.one_mul]
    have := Nat.le_mul_of_pos_right (2 ^ (2 * half W)) this
    omega
  lt_iff := gt_iff
  toNat_add := toNat_add
  toNat_sub := toNat_minus
  toNat_mul := toNat_multi
  toNat_and := toNat_bitAnd
  toNat_or := toNat_bitOr
  toNat_shiftLeft := toNat_shiftLeft
  toNat_shiftRight := toNat_shiftRight

/-! ### Division -/

theorem isZero_iff {a : Wide W} : isZero a = true ↔ a.toNat = 0 := by
  have : isZero a = true ↔ a = ⟨0, 0⟩ := by
    obtain ⟨ah, al⟩ := a
    simp [isZero]
  rw [this, ← toNat_zero_zero (W := W)]
  exact ⟨congrArg _, toNat_inj⟩

theorem ge_iff {a b : Wide W} : ge a b = true ↔ b.toNat ≤ a.toNat := by
  rw [ge, Bool.or_eq_true, gt_iff, decide_eq_true_eq, le_iff_lt_or_eq]
  exact or_congr_right ⟨fun h => h ▸ rfl, fun h => toNat_inj h.symm⟩

/-- The count is the least number of bits that the word needs. -/
theorem countBits_spec {up : W} {fuel : ℕ} (h : MachineWord.toNat up < 2 ^ fuel) (out : UInt8) :
    ∃ n, countBits fuel up out = out + UInt8.ofNat n ∧ MachineWord.toNat up < 2 ^ n ∧
      ∀ k, MachineWord.toNat up < 2 ^ k → n ≤ k := by
  induction fuel generalizing up out with
  | zero => exact ⟨0, (UInt8.add_zero out).symm, h, fun k _ => k.zero_le⟩
  | succ fuel ih =>
    have hhalf := le_half (W := W)
    have hshift := LawfulWord.toNat_shiftRight up (by omega : 1 < 2 * half W)
    rw [countBits]
    split_ifs with hzero
    · exact ⟨0, (UInt8.add_zero out).symm, by rw [hzero, toNat_zero]; decide, fun k _ => k.zero_le⟩
    · have hpos : MachineWord.toNat up ≠ 0 := fun h0 => hzero (LawfulWord.toNat_inj (by
        rw [h0, toNat_zero]))
      have hless : MachineWord.toNat (MachineWord.shiftRight up 1) < 2 ^ fuel := by
        omega
      obtain ⟨n, hcount, hlt, hmin⟩ := ih hless (out + 1)
      refine ⟨n + 1, ?_, by rw [pow_succ]; omega, fun k hk => ?_⟩
      · rw [hcount, UInt8.add_assoc, Nat.add_comm n, UInt8.ofNat_add]
        rfl
      · cases k with
        | zero =>
          omega
        | succ k =>
          exact Nat.succ_le_succ (hmin k (by omega))

/-- **The number of bits**, for words that need at most 255 of them. -/
theorem toNat_lt_bits {a : Wide W} (h : a.toNat < 2 ^ 255) : a.toNat < 2 ^ (bits a).toNat := by
  have hbig := LawfulWord.toNat_lt a.big
  have hlow := LawfulWord.toNat_lt a.low
  unfold bits
  split_ifs with hzero
  · obtain ⟨n, hcount, hlt, hmin⟩ := countBits_spec hbig (UInt8.ofNat (2 * half W))
    have hpos : 0 < MachineWord.toNat a.big := by
      refine Nat.pos_of_ne_zero fun h0 => hzero (LawfulWord.toNat_inj ?_)
      rw [h0, toNat_zero]
    have hle : 2 * half W + n ≤ 255 := by
      rw [toNat] at h
      have hprod : MachineWord.toNat a.big * 2 ^ (2 * half W) < 2 ^ 255 := by omega
      have hwidth : 2 * half W ≤ 255 := by
        have := (Nat.le_mul_of_pos_left (2 ^ (2 * half W)) hpos).trans_lt hprod
        exact (Nat.pow_lt_pow_iff_right one_lt_two).mp this |>.le
      have hn : n ≤ 255 - 2 * half W := hmin _ <| by
        refine Nat.lt_of_mul_lt_mul_right (a := 2 ^ (2 * half W)) ?_
        rwa [← pow_add, Nat.sub_add_cancel hwidth]
      omega
    have htoNat : (UInt8.ofNat (2 * half W) + UInt8.ofNat n).toNat = 2 * half W + n := by
      rw [← UInt8.ofNat_add, UInt8.toNat_ofNat', Nat.mod_eq_of_lt (by omega)]
    rw [hcount, htoNat, Nat.add_comm, pow_add, toNat]
    calc _ < MachineWord.toNat a.big * 2 ^ (2 * half W) + 2 ^ (2 * half W) := by omega
      _ = (MachineWord.toNat a.big + 1) * 2 ^ (2 * half W) := by ring
      _ ≤ _ := Nat.mul_le_mul_right _ hlt
  · obtain ⟨n, hcount, hlt, hmin⟩ := countBits_spec hlow 0
    rw [not_not] at hzero
    have hvalue : a.toNat = MachineWord.toNat a.low := by
      rw [toNat, hzero, toNat_zero, Nat.zero_mul, Nat.zero_add]
    have hle : n ≤ 255 := hmin 255 (hvalue ▸ h)
    have htoNat : (0 + UInt8.ofNat n).toNat = n := by
      rw [UInt8.zero_add, UInt8.toNat_ofNat', Nat.mod_eq_of_lt (by omega)]
    rw [hcount, htoNat, hvalue]
    exact hlt

theorem toNat_shiftRight_all (a : Wide W) (s : ℕ) : (shiftRight a s).toNat = a.toNat / 2 ^ s := by
  rcases lt_or_ge s (2 * (2 * half W)) with h | h
  · exact toNat_shiftRight a h
  · rw [shiftRight, if_pos (by omega), toNat_zero_zero, Nat.div_eq_of_lt]
    exact a.toNat_lt.trans_le (Nat.pow_le_pow_right two_pos h)

section division

variable {minus : Wide W → Wide W → Wide W} {a b : Wide W} {x : ℕ} {s : DivResult W}

/-- The state of the division holds quotient and remainder of the number `n`. -/
def DivResult.Holds (s : DivResult W) (b : Wide W) (n : ℕ) : Prop :=
  s.divResult.toNat = n / b.toNat ∧ s.modResult.toNat = n % b.toNat

/-- The difference is right for what the division of `a` by `b` subtracts from. -/
def ExactFor (minus : Wide W → Wide W → Wide W) (a b : Wide W) : Prop :=
  ∀ (x : ℕ) (r : Wide W), r.toNat = Radix.partialRem a.toNat b.toNat x → b.toNat ≤ r.toNat →
    (minus r b).toNat = r.toNat - b.toNat

theorem toNat_shiftLeft_one (a : Wide W) :
    (shiftLeft a 1).toNat = 2 * a.toNat % 2 ^ (2 * (2 * half W)) := by
  have hhalf := le_half (W := W)
  rw [toNat_shiftLeft a (by omega), pow_one, Nat.mul_comm]

theorem toNat_shiftLeft_one_add (a : Wide W) :
    (add (shiftLeft a 1) ⟨0, 1⟩).toNat = 2 * a.toNat % 2 ^ (2 * (2 * half W)) + 1 := by
  have hhalf := le_half (W := W)
  -- twice a word is even, so there is room for one more
  have hwords : 2 ^ (2 * (2 * half W)) = 2 * 2 ^ (2 * (2 * half W) - 1) := by
    rw [← pow_succ', Nat.sub_add_cancel (by omega)]
  have hlt := Nat.mod_lt a.toNat (Nat.two_pow_pos (2 * (2 * half W) - 1))
  rw [toNat_add, toNat_shiftLeft_one, toNat_zero_one, hwords, Nat.mul_mod_mul_left]
  exact Nat.mod_eq_of_lt (by omega)

theorem toNat_takeBit (a r : Wide W) (x : ℕ) : (takeBit a x (shiftLeft r 1)).toNat =
    2 * r.toNat % 2 ^ (2 * (2 * half W)) + a.toNat / 2 ^ x % 2 := by
  simp only [takeBit, isZero_iff, toNat_bitAnd, toNat_shiftRight_all, toNat_zero_one,
    Nat.and_one_is_mod]
  split_ifs with h0
  · rw [toNat_shiftLeft_one, h0, Nat.add_zero]
  · rw [toNat_shiftLeft_one_add, (Nat.mod_two_eq_zero_or_one _).resolve_left h0]

theorem divResult_divStep : (divStep minus a b x s).divResult.toNat =
    2 * s.divResult.toNat % 2 ^ (2 * (2 * half W)) +
      if b.toNat ≤ (takeBit a x (shiftLeft s.modResult 1)).toNat then 1 else 0 := by
  simp only [divStep, ge_iff]
  split_ifs
  · exact toNat_shiftLeft_one_add _
  · exact toNat_shiftLeft_one _

theorem modResult_divStep : (divStep minus a b x s).modResult =
    if b.toNat ≤ (takeBit a x (shiftLeft s.modResult 1)).toNat then
      minus (takeBit a x (shiftLeft s.modResult 1)) b
    else takeBit a x (shiftLeft s.modResult 1) := by
  simp only [divStep, ge_iff]
  split_ifs <;> rfl

theorem divStep_spec (hb : 0 < b.toNat) (hminus : ExactFor minus a b)
    (hs : s.Holds b (a.toNat / 2 ^ (x + 1))) :
    (divStep minus a b x s).Holds b (a.toNat / 2 ^ x) := by
  obtain ⟨hq, hr⟩ := hs
  obtain ⟨hdiv, hmod⟩ := Radix.div_mod_step hb a.toNat x
  have halt := a.toNat_lt
  have hbegins : a.toNat / 2 ^ x ≤ a.toNat := Nat.div_le_self ..
  have hbits := Radix.div_two_pow a.toNat x
  have hquot := Nat.div_le_self (a.toNat / 2 ^ (x + 1)) b.toNat
  have hrem := Nat.mod_le (a.toNat / 2 ^ (x + 1)) b.toNat
  -- the remainder is at most the bits read so far, so one more of them fits
  have hr' : (takeBit a x (shiftLeft s.modResult 1)).toNat =
      Radix.partialRem a.toNat b.toNat x := by
    rw [toNat_takeBit, hr, Nat.mod_eq_of_lt (by omega), Radix.partialRem]
  rw [DivResult.Holds, divResult_divStep, modResult_divStep, hr', hq, Nat.mod_eq_of_lt (by omega),
    hdiv, hmod]
  refine ⟨rfl, ?_⟩
  split_ifs with hge
  · rw [hminus x _ hr' (hr' ▸ hge), hr']
  · exact hr'

theorem divLoop_spec (hb : 0 < b.toNat) (hminus : ExactFor minus a b)
    (hs : s.Holds b (a.toNat / 2 ^ x)) : (divLoop minus a b x s).Holds b a.toNat := by
  induction x generalizing s with
  | zero => rwa [pow_zero, Nat.div_one] at hs
  | succ x ih => exact ih (divStep_spec hb hminus hs)

theorem divResult_divLoop
    (h : (s.divResult.toNat + 1) * 2 ^ x ≤ 2 ^ (2 * (2 * half W))) :
    (divLoop minus a b x s).divResult.toNat / 2 ^ x = s.divResult.toNat := by
  induction x generalizing s with
  | zero => rw [pow_zero, Nat.div_one, divLoop]
  | succ x ih =>
    have hpos := Nat.two_pow_pos x
    rw [pow_succ', ← Nat.mul_assoc] at h
    have hfits := (Nat.le_mul_of_pos_right _ hpos).trans h
    have hstep : (divStep minus a b x s).divResult.toNat = _ := divResult_divStep
    rw [Nat.mod_eq_of_lt (by omega)] at hstep
    rw [divLoop, pow_succ, ← Nat.div_div_eq_div_mul, ih, hstep]
    · split_ifs <;> omega
    · refine (Nat.mul_le_mul_right _ ?_).trans h
      rw [hstep]
      split_ifs <;> omega

theorem divmod_of_le (minus : Wide W → Wide W → Wide W) (hb : 0 < b.toNat)
    (h : b.toNat = 1 ∨ a.toNat ≤ b.toNat) :
    ∃ s, divmod minus a b = .ok s ∧ s.Holds b a.toNat := by
  rw [divmod, if_neg (by rw [isZero_iff]; omega)]
  split_ifs with hone heq hlt
  · refine ⟨_, rfl, ?_, ?_⟩
    · rw [hone, toNat_zero_one, Nat.div_one]
    · rw [hone, toNat_zero_one, toNat_zero_zero, Nat.mod_one]
  · refine ⟨_, rfl, ?_, ?_⟩
    · rw [heq, toNat_zero_one, Nat.div_self hb]
    · rw [heq, toNat_zero_zero, Nat.mod_self]
  · rw [Bool.or_eq_true, isZero_iff, gt_iff] at hlt
    have hlt : a.toNat < b.toNat := by omega
    exact ⟨_, rfl, by rw [toNat_zero_zero, Nat.div_eq_of_lt hlt], (Nat.mod_eq_of_lt hlt).symm⟩
  · rw [Bool.or_eq_true, isZero_iff, gt_iff] at hlt
    have hne : b.toNat ≠ 1 := fun h1 => hone (toNat_inj (h1.trans toNat_zero_one.symm))
    have hne' : a.toNat ≠ b.toNat := fun h => heq (toNat_inj h)
    omega

theorem divmod_of_gt (minus : Wide W → Wide W → Wide W) (hb : 1 < b.toNat)
    (h : b.toNat < a.toNat) :
    divmod minus a b = .ok (divLoop minus a b (bits a).toNat ⟨⟨0, 0⟩, ⟨0, 0⟩⟩) := by
  rw [divmod, if_neg (by rw [isZero_iff]; omega), if_neg, if_neg, if_neg]
  · rw [Bool.or_eq_true, isZero_iff, gt_iff]
    omega
  · rintro rfl
    omega
  · rintro rfl
    rw [toNat_zero_one] at hb
    omega

/-- **Division**, of numbers whose bits can be counted. -/
theorem divmod_eq_ok (hb : 0 < b.toNat) (ha : a.toNat < 2 ^ 255) (hminus : ExactFor minus a b) :
    ∃ s, divmod minus a b = .ok s ∧ s.Holds b a.toNat := by
  by_cases h : b.toNat = 1 ∨ a.toNat ≤ b.toNat
  · exact divmod_of_le minus hb h
  · refine ⟨_, divmod_of_gt minus (by omega) (by omega), divLoop_spec hb hminus ⟨?_, ?_⟩⟩
    · rw [toNat_zero_zero, Nat.div_eq_of_lt (toNat_lt_bits ha), Nat.zero_div]
    · rw [toNat_zero_zero, Nat.div_eq_of_lt (toNat_lt_bits ha), Nat.zero_mod]

end division

end lawful

end Wide
