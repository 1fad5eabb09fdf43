import Whitecoin.Mining.Bonus

/-!
# Slots

Blocks are produced in slots of equal length. The slots are counted from the head block, whose time
is rounded down to a slot; after a maintenance and after a distribution of bonuses some are skipped,
and for the first block they are counted from the time of the genesis. `get_slot_time` says when a
slot begins, and `get_slot_at_time` in which one a time is. The first counts from the head and the
second from the beginning of the first slot.

Times and numbers of slots have 32 bits. `slotTime` is the time of a slot without this limit.

Which of the last 128 slots have a block is recorded in as many bits.
-/

namespace Whitecoin.Mining

/-- What the functions read from the chain. -/
structure SlotView where
  headBlockNum : ℕ
  /-- `head_block_time`, which is the time of the genesis before the first block. -/
  time : ℕ
  blockInterval : ℕ
  blockInterval_pos : 0 < blockInterval
  maintenanceFlag : Bool
  maintenanceSkipSlots : ℕ

variable (v : SlotView)

/-- `slot_num` after the two steps that skip slots. -/
def SlotView.skipped (slotNum : ℕ) : ℕ :=
  let slotNum := if v.maintenanceFlag then (slotNum + v.maintenanceSkipSlots) % 2 ^ 32 else slotNum
  if v.headBlockNum % bonusDistributeBlockNum = 0 ∧ 0 < v.headBlockNum then
    (slotNum + v.maintenanceSkipSlots) % 2 ^ 32
  else slotNum

/-- `database::get_slot_time`. -/
def getSlotTime (slotNum : ℕ) : ℕ :=
  if slotNum = 0 then 0
  else if v.headBlockNum = 0 then (v.time + slotNum * v.blockInterval % 2 ^ 32) % 2 ^ 32
  else
    let headBlockAbsSlot := v.time / v.blockInterval
    let headSlotTime := headBlockAbsSlot * v.blockInterval % 2 ^ 32
    (headSlotTime + v.skipped slotNum * v.blockInterval % 2 ^ 32) % 2 ^ 32

/-- `database::get_slot_at_time`. -/
def getSlotAtTime (time : ℕ) : ℕ :=
  let firstSlotTime := getSlotTime v 1
  if time < firstSlotTime then 0
  else ((time - firstSlotTime) / v.blockInterval + 1) % 2 ^ 32

namespace SlotView

/-- Where the slots are counted from. -/
def origin : ℕ :=
  if v.headBlockNum = 0 then v.time else v.time / v.blockInterval * v.blockInterval

/-- How many slots are skipped. -/
def skips : ℕ :=
  if v.headBlockNum = 0 then 0
  else (if v.maintenanceFlag then v.maintenanceSkipSlots else 0) +
    if v.headBlockNum % bonusDistributeBlockNum = 0 then v.maintenanceSkipSlots else 0

/-- The time of a slot, without a limit. -/
def slotTime (n : ℕ) : ℕ := v.origin + (n + v.skips) * v.blockInterval

end SlotView

variable {v}

theorem slotTime_lt {n m : ℕ} (h : n < m) : v.slotTime n < v.slotTime m :=
  Nat.add_lt_add_left (Nat.mul_lt_mul_of_pos_right (by omega) v.blockInterval_pos) _

theorem slotTime_add (n k : ℕ) : v.slotTime (n + k) = v.slotTime n + k * v.blockInterval := by
  rw [SlotView.slotTime, SlotView.slotTime, Nat.add_right_comm, Nat.add_mul]
  omega

theorem add_skips_lt {n : ℕ} (h : v.slotTime n < 2 ^ 32) : n + v.skips < 2 ^ 32 := by
  have hle : n + v.skips ≤ (n + v.skips) * v.blockInterval :=
    Nat.le_mul_of_pos_right _ v.blockInterval_pos
  rw [SlotView.slotTime] at h
  omega

theorem skipped_eq {n : ℕ} (hhead : v.headBlockNum ≠ 0) (h : n + v.skips < 2 ^ 32) :
    v.skipped n = n + v.skips := by
  rw [SlotView.skips, if_neg hhead] at h ⊢
  have hpos : 0 < v.headBlockNum := Nat.pos_of_ne_zero hhead
  rw [SlotView.skipped]
  by_cases hflag : v.maintenanceFlag = true
  · by_cases hbonus : v.headBlockNum % bonusDistributeBlockNum = 0
    · simp only [hflag, hbonus, if_true, hpos, and_self] at h ⊢
      rw [Nat.mod_eq_of_lt (show n + v.maintenanceSkipSlots < 2 ^ 32 by omega),
        Nat.mod_eq_of_lt (by omega)]
      omega
    · simp only [hflag, hbonus, if_true, false_and, if_false] at h ⊢
      rw [Nat.mod_eq_of_lt (by omega)]
      omega
  · by_cases hbonus : v.headBlockNum % bonusDistributeBlockNum = 0
    · simp only [hflag, hbonus, if_true, hpos, and_self, Bool.false_eq_true, if_false] at h ⊢
      rw [Nat.mod_eq_of_lt (by omega)]
      omega
    · simp [hflag, hbonus]

/-- **The time of a slot**, if it has 32 bits. -/
theorem getSlotTime_eq {n : ℕ} (hn : 1 ≤ n) (h : v.slotTime n < 2 ^ 32) :
    getSlotTime v n = v.slotTime n := by
  have hskips := add_skips_lt h
  rw [SlotView.slotTime] at h ⊢
  rw [getSlotTime, if_neg (by omega)]
  by_cases hhead : v.headBlockNum = 0
  · have hzero : v.skips = 0 := if_pos hhead
    have horigin : v.origin = v.time := if_pos hhead
    rw [hzero, Nat.add_zero, horigin] at h ⊢
    rw [if_pos hhead, Nat.mod_eq_of_lt (show n * v.blockInterval < 2 ^ 32 by omega),
      Nat.mod_eq_of_lt h]
  · have horigin : v.origin = v.time / v.blockInterval * v.blockInterval := if_neg hhead
    rw [horigin] at h ⊢
    simp only [if_neg hhead, skipped_eq hhead hskips]
    rw [Nat.mod_eq_of_lt (show v.time / v.blockInterval * v.blockInterval < 2 ^ 32 by omega),
      Nat.mod_eq_of_lt (show (n + v.skips) * v.blockInterval < 2 ^ 32 by omega), Nat.mod_eq_of_lt h]

theorem getSlotAtTime_eq {t : ℕ} (hfirst : v.slotTime 1 < 2 ^ 32) (ht : v.slotTime 1 ≤ t)
    (hbits : (t - v.slotTime 1) / v.blockInterval + 1 < 2 ^ 32) :
    getSlotAtTime v t = (t - v.slotTime 1) / v.blockInterval + 1 := by
  rw [getSlotAtTime, getSlotTime_eq (Nat.le_refl 1) hfirst]
  simp only [if_neg (Nat.not_lt.mpr ht)]
  exact Nat.mod_eq_of_lt hbits

theorem getSlotAtTime_slotTime {n : ℕ} (hn : 1 ≤ n) (h : v.slotTime n < 2 ^ 32) :
    getSlotAtTime v (getSlotTime v n) = n := by
  obtain ⟨k, rfl⟩ := Nat.exists_eq_add_of_le hn
  have hle : v.slotTime 1 ≤ v.slotTime (1 + k) := by
    rw [slotTime_add]
    omega
  have hdiv : (v.slotTime (1 + k) - v.slotTime 1) / v.blockInterval = k := by
    rw [slotTime_add, Nat.add_sub_cancel_left, Nat.mul_div_cancel _ v.blockInterval_pos]
  have hskips := add_skips_lt h
  rw [getSlotTime_eq hn h, getSlotAtTime_eq (by omega) hle (by omega), hdiv, Nat.add_comm]

theorem getSlotTime_getSlotAtTime {t : ℕ} (hbits : t < 2 ^ 32) (ht : getSlotTime v 1 ≤ t)
    (h : v.slotTime (getSlotAtTime v t + 1) < 2 ^ 32) :
    getSlotTime v (getSlotAtTime v t) ≤ t ∧ t < getSlotTime v (getSlotAtTime v t + 1) := by
  have hfirst : v.slotTime 1 < 2 ^ 32 := by
    rw [Nat.add_comm, slotTime_add] at h
    omega
  have hpos : 0 < v.slotTime 1 := Nat.lt_of_le_of_lt (Nat.zero_le _) (slotTime_lt (n := 0) (by decide))
  rw [getSlotTime_eq (Nat.le_refl 1) hfirst] at ht
  have hdiv : (t - v.slotTime 1) / v.blockInterval ≤ t - v.slotTime 1 := Nat.div_le_self _ _
  have hslot := getSlotAtTime_eq hfirst ht (by omega)
  rw [hslot] at h ⊢
  have hle := Nat.div_mul_le_self (t - v.slotTime 1) v.blockInterval
  have hlt := Nat.lt_div_mul_add v.blockInterval_pos (a := t - v.slotTime 1)
  generalize (t - v.slotTime 1) / v.blockInterval = q at *
  have htime : v.slotTime (q + 1) = v.slotTime 1 + q * v.blockInterval := by
    rw [Nat.add_comm, slotTime_add]
  have hnext : v.slotTime (q + 1 + 1) = v.slotTime 1 + q * v.blockInterval + v.blockInterval := by
    rw [slotTime_add, htime, Nat.one_mul]
  rw [getSlotTime_eq (by omega) (by omega), getSlotTime_eq (by omega) h]
  omega

/-- **The slots of times and the times of slots agree**, at every head, as long as the times have 32
bits. -/
theorem slots_consistent (v : SlotView) :
    (∀ n, 1 ≤ n → v.slotTime n < 2 ^ 32 → getSlotAtTime v (getSlotTime v n) = n) ∧
    (∀ n m, 1 ≤ n → n < m → v.slotTime m < 2 ^ 32 → getSlotTime v n < getSlotTime v m) ∧
    (∀ t, t < 2 ^ 32 → getSlotTime v 1 ≤ t → v.slotTime (getSlotAtTime v t + 1) < 2 ^ 32 →
      getSlotTime v (getSlotAtTime v t) ≤ t ∧ t < getSlotTime v (getSlotAtTime v t + 1)) ∧
    (∀ t, t < getSlotTime v 1 → getSlotAtTime v t = 0) := by
  refine ⟨fun n hn h => getSlotAtTime_slotTime hn h, fun n m hn hnm h => ?_,
    fun t hbits ht h => getSlotTime_getSlotAtTime hbits ht h, fun t ht => if_pos ht⟩
  have hlt := slotTime_lt (v := v) hnm
  rw [getSlotTime_eq hn (by omega), getSlotTime_eq (by omega) h]
  exact hlt

/-- A head with both reasons to skip slots. -/
def bonusHead : SlotView := ⟨200000, 1003, 5, Nat.succ_pos 4, true, 3⟩

theorem slots_consistent_bonusHead :
    getSlotTime bonusHead 1 = 1035 ∧ getSlotAtTime bonusHead (getSlotTime bonusHead 4) = 4 ∧
      getSlotTime bonusHead (getSlotAtTime bonusHead 1052) ≤ 1052 :=
  ⟨by decide, (slots_consistent bonusHead).1 4 (by decide) (by decide),
    ((slots_consistent bonusHead).2.2.1 1052 (by decide) (by decide) (by decide)).1⟩

/-! ### Participation -/

/-- `recent_slots_filled` after a block before which some were missed: the bit of the block is set
before the bits of the missed ones are appended. -/
def fillSlots (filled missedBlocks : ℕ) : ℕ := (2 * filled + 1) * 2 ^ missedBlocks % 2 ^ 128

/-- `popcount` of the `n` lowest bits, one after the other. -/
def popcount : ℕ → ℕ → ℕ
  | 0, _ => 0
  | n + 1, filled => filled % 2 + popcount n (filled / 2)

/-- `database::miner_participation_rate`. -/
def minerParticipationRate (filled : ℕ) : ℕ := 10000 * popcount 128 filled / 128

/-- `recent_slots_filled` after blocks that are given by how many were missed before them, the last
one first. All bits are set in the genesis. -/
def recentSlotsFilled (missed : List ℕ) : ℕ :=
  missed.foldr (fun missedBlocks filled => fillSlots filled missedBlocks) (2 ^ 128 - 1)

/-- How many of the last `n` slots have a block. Those before the first block count. -/
def blocksIn : ℕ → List ℕ → ℕ
  | n, [] => n
  | n, missedBlocks :: missed =>
    if missedBlocks < n then blocksIn (n - (missedBlocks + 1)) missed + 1 else min n 1

theorem popcount_mod {n k : ℕ} (h : n ≤ k) (filled : ℕ) :
    popcount n (filled % 2 ^ k) = popcount n filled := by
  induction n generalizing k filled with
  | zero => rfl
  | succ n ih =>
    obtain ⟨k, rfl⟩ := Nat.exists_eq_add_of_le' (n.succ_pos.trans_le h)
    have hbit : filled % 2 ^ (k + 1) % 2 = filled % 2 := Nat.mod_mod_of_dvd _ (Dvd.intro_left _ rfl)
    rw [popcount, popcount, hbit, pow_succ', Nat.mod_mul_right_div_self, ih (by omega)]

theorem popcount_ones {n k : ℕ} (h : n ≤ k) : popcount n (2 ^ k - 1) = n := by
  induction n generalizing k with
  | zero => rfl
  | succ n ih =>
    obtain ⟨k, rfl⟩ := Nat.exists_eq_add_of_le' (n.succ_pos.trans_le h)
    have hpos := Nat.two_pow_pos k
    rw [popcount, pow_succ', show (2 * 2 ^ k - 1) / 2 = 2 ^ k - 1 by omega, ih (by omega)]
    omega

theorem popcount_fillSlots {n : ℕ} (hn : n ≤ 128) (filled missed : ℕ) :
    popcount n (fillSlots filled missed) =
      if missed < n then popcount (n - (missed + 1)) filled + 1 else 0 := by
  rw [fillSlots, popcount_mod hn]
  clear hn
  induction missed generalizing n with
  | zero =>
    cases n with
    | zero => rfl
    | succ n =>
      rw [popcount, if_pos n.succ_pos, Nat.add_sub_cancel,
        show (2 * filled + 1) * 2 ^ 0 / 2 = filled by omega]
      omega
  | succ missed ih =>
    cases n with
    | zero => rfl
    | succ n =>
      rw [popcount, pow_succ, ← Nat.mul_assoc, Nat.mul_mod_left, Nat.mul_div_cancel _ Nat.two_pos, ih]
      simp

/-- **The participation rate** is that of the last 128 slots, or one block too low. -/
theorem participation_rate_within_one (missed : List ℕ) :
    minerParticipationRate (recentSlotsFilled missed) ≤ 10000 * blocksIn 128 missed / 128 ∧
      10000 * (blocksIn 128 missed - 1) / 128 ≤
        minerParticipationRate (recentSlotsFilled missed) := by
  suffices ∀ n ≤ 128, popcount n (recentSlotsFilled missed) ≤ blocksIn n missed ∧
      blocksIn n missed ≤ popcount n (recentSlotsFilled missed) + 1 by
    have := this 128 le_rfl
    rw [minerParticipationRate]
    omega
  -- a block leaves a smaller window for the ones before it
  induction missed with
  | nil => exact fun n hn => (popcount_ones hn).symm ▸ ⟨le_rfl, n.le_succ⟩
  | cons m missed ih =>
    intro n hn
    rw [recentSlotsFilled, List.foldr_cons, popcount_fillSlots hn, blocksIn]
    split_ifs with hm
    · have := ih (n - (m + 1)) (by omega)
      rw [recentSlotsFilled] at this
      omega
    · omega

end Whitecoin.Mining
