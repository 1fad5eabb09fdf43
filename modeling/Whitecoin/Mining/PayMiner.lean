import Whitecoin.Mining.Schedule

/-!
# The reward of a block

The reward of a block is cut by three ratios: for the wallfacers, for the team and for the miner,
who also gets the fees of the block. The wallfacers share their part equally, and the last one gets
what is left over. The miner shares its part with those who locked balances in its favour, in
proportion to the values of their locks and to the weight of the miner, both as of the beginning of
the round; what is left over is its own.

All amounts are computed with the operators of the built-in types. They are written here as the
results that these operators have in 64, 128 or 256 bits.
-/

namespace Whitecoin.Mining

open Check Ledger Fees

/-! ### Arithmetic -/

/-- An integer, as a signed integer with 64 bits. -/
def int64 (n : ℤ) : ℤ := n.bmod (2 ^ 64)

/-- `GRAPHENE_MAX_SHARE_SUPPLY`. -/
def maxShareSupply : ℤ := 10 ^ 17

/-- `GRAPHENE_GUARD_PAY_RATIO`. -/
def guardPayRatio : ℤ := 20

/-- `GRAPHENE_ALL_MINER_PAY_RATIO`. -/
def allMinerPayRatio : ℤ := 50

/-- `XWC_DEVELOP_TEAM_PAY_TATIO`. -/
def developTeamPayRatio : ℤ := 30

/-- `GRAPHENE_MINER_PLEDGE_PAY_RATIO`. -/
def minerPledgePayRatio : ℤ := 100

/-- `GRAPHENE_MINER_PAY_BACK_RATIO`. -/
def minerPayBackRatio : ℕ := 50

/-- A part of the reward. -/
def percent (reward ratio : ℤ) : ℤ := (int64 (reward * ratio)).tdiv 100

def allCommitteePaid (reward : ℤ) : ℤ := percent reward guardPayRatio

def developTeamPaid (reward : ℤ) : ℕ := wide 64 (percent reward developTeamPayRatio)

/-- What the miner gets and shares. -/
def allPaid (reward trxfee : ℤ) : ℤ := int64 (percent reward allMinerPayRatio + trxfee)

def pledgePayAmount (reward trxfee : ℤ) (minerPledgePayBack : ℕ) : ℕ :=
  wide 64 (allPaid reward trxfee) * wide 64 (minerPledgePayRatio - minerPledgePayBack) % 2 ^ 64 / 100

/-! ### The function -/

/-- What `pay_miner` reads from the rest of the chain. -/
structure PayView where
  headBlockNumber : ℕ
  /-- Rewards, with the last block for which each is paid. -/
  unorderBlocksMatch : List (ℕ × ℤ)
  /-- The accounts of `get_wallfacer_members`. -/
  wallfacerMembers : List AccountId
  addr : AccountId → Address
  minerPledgePayBack : AccountId → ℕ
  /-- `contract_register_operation::get_first_contract_id`. -/
  firstContract : Address
  firstContract_ne : firstContract ≠ 0

/-- `database::get_miner_pay_per_block`. -/
def getMinerPayPerBlock (v : PayView) : ℤ :=
  ((v.unorderBlocksMatch.find? fun item => v.headBlockNumber ≤ item.1).map (·.2)).getD 0

abbrev PayBacks := Book (Address × MinerId)

/-- `database::adjust_pay_back_balance`. -/
def adjustPayBackBalance (b : PayBacks) (owner : Address) (m : MinerId) (amount : ℤ) :
    Except String PayBacks :=
  if amount = 0 then .ok b else
    match b.lookup (owner, m) with
    | none => do
      require (0 < amount) "lock balance error"
      return b.insert (owner, m) amount
    | some balance => do return b.insert (owner, m) (← Safe.add balance amount)

/-- One iteration over the wallfacers, with `committee_pay`. -/
def payWallfacer (v : PayView) (m : MinerId) (endValue : ℤ) (r : PayBacks × ℤ)
    (account : AccountId) : Except String (PayBacks × ℤ) := do
  return (← adjustPayBackBalance r.1 (v.addr account) m endValue, int64 (r.2 + endValue))

/-- The loop over all wallfacers but the last. -/
def payCommittee (v : PayView) (m : MinerId) (reward : ℤ) (b : PayBacks) :
    Except String (PayBacks × ℤ) := do
  let count := v.wallfacerMembers.length
  require (count ≠ 0) "Division by zero."
  let endValue := int64 (wide 64 (allCommitteePaid reward) / count : ℕ)
  (v.wallfacerMembers.take (count - 1)).foldlM (payWallfacer v m endValue) (b, 0)

/-- The value of a lock, or none if its asset has no price in the core asset. -/
def pledgeValue (s : MiningState) (lock : LockbalanceObject) : Except String (Option ℕ) := do
  let price ← found (s.currentPriceFeed lock.key.lockAssetId) "map::at"
  if lock.key.lockAssetId = 0 then return some (wide 256 lock.lockAssetAmount)
  else if ¬ price.IsNull ∧ price.quote.assetId = 0 then
    return some (← worth 256 price lock.lockAssetAmount)
  else return none

/-- The local variables of the loop over the locks, and the objects it writes. -/
structure PledgeRun where
  payBacks : PayBacks
  allPledgePaid : ℕ
  calCurPledge : ℕ

/-- One iteration of this loop, with `all_pledge` and `pledge_pay_amount`. -/
def payPledge (v : PayView) (s : MiningState) (m : MinerId) (allPledge pay : ℕ) (r : PledgeRun)
    (lock : LockbalanceObject) : Except String PledgeRun := do
  match ← pledgeValue s lock with
  | none => return r
  | some value => do
    let calCurPledge := (r.calCurPledge + value) % 2 ^ 256
    require (allPledge ≠ 0) "Division by zero."
    let endValue := pay * value % 2 ^ 256 / allPledge % 2 ^ 64
    let allPledgePaid := (r.allPledgePaid + endValue) % 2 ^ 64
    if lock.lockBalanceContractAddr ≠ 0 then return ⟨r.payBacks, allPledgePaid, calCurPledge⟩
    else
      let payBacks ← adjustPayBackBalance r.payBacks (v.addr lock.key.lockBalanceAccount) m
        (int64 endValue)
      return ⟨payBacks, allPledgePaid, calCurPledge⟩

def pledgeAssertion : String :=
  "cal_cur_pledge is $\x7bcal_cur_pledge\x7d and  all_pledge is $\x7ball_pledge\x7d"

/-- The loop over the locks. -/
def payPledges (v : PayView) (s : MiningState) (m : MinerId) (pay : ℕ)
    (locks : List LockbalanceObject) (b : PayBacks) : Except String PledgeRun :=
  locks.foldlM (payPledge v s m (s.miners m).pledgeWeight pay) ⟨b, 0, 0⟩

/-- What the miner shares and keeps, if there are locks in its favour. -/
def shareReward (v : PayView) (s : MiningState) (m : MinerId) (allPaid pay : ℕ)
    (locks : List LockbalanceObject) (b : PayBacks) : Except String PayBacks := do
  let r ← payPledges v s m pay locks b
  require (r.calCurPledge ≤ (s.miners m).pledgeWeight) pledgeAssertion
  adjustPayBackBalance r.payBacks (v.addr (s.miners m).minerAccount) m
    (int64 (wide 64 (allPaid - r.allPledgePaid : ℤ)))

/-- `database::pay_miner`. -/
def payMiner (v : PayView) (m : MinerId) (trxfee : ℤ) (s : MiningState) :
    Except String MiningState := do
  let reward := getMinerPayPerBlock v
  let account := (s.miners m).minerAccount
  let (payBacks, committeePay) ← payCommittee v m reward s.payBacks
  let last ← found v.wallfacerMembers.getLast? "vector::at"
  let payBacks ← adjustPayBackBalance payBacks (v.addr last) m
    (int64 (allCommitteePaid reward - committeePay))
  let accounts ← s.accounts.adjustBalance v.firstContract 0 (int64 (developTeamPaid reward)) false
  let payBacks ← (match s.currentRoundLockbalanceCache m with
    | some locks => shareReward v s m (wide 64 (allPaid reward trxfee))
        (pledgePayAmount reward trxfee (v.minerPledgePayBack account)) locks payBacks
    | none => adjustPayBackBalance payBacks (v.addr account) m (allPaid reward trxfee))
  return { s with payBacks, accounts := ← accounts.raiseSupply 0 reward }

/-! ### Ratios -/

variable {n : ℤ}

theorem int64_of_fits (h : Safe.Fits n) : int64 n = n := by
  obtain ⟨hmin, hmax⟩ := h
  unfold Safe.min at hmin
  unfold Safe.max at hmax
  exact Int.bmod_eq_of_le (by omega) (by omega)

theorem fits_of_le (h0 : 0 ≤ n) (h : n ≤ maxShareSupply * 50) : Safe.Fits n := by
  unfold Safe.Fits Safe.min Safe.max
  unfold maxShareSupply at h
  omega

theorem int64_natCast {n : ℕ} (h : n < 2 ^ 63) : int64 n = n := by
  refine int64_of_fits ⟨?_, ?_⟩
  · unfold Safe.min
    omega
  · unfold Safe.max
    omega

section Ratios

variable {reward trxfee : ℤ}

theorem percent_eq {ratio : ℤ} (h0 : 0 ≤ reward) (h : reward ≤ maxShareSupply) (hr0 : 0 ≤ ratio)
    (hr : ratio ≤ 50) : percent reward ratio = reward * ratio / 100 := by
  have hproduct : 0 ≤ reward * ratio := Int.mul_nonneg h0 hr0
  have hle : reward * ratio ≤ maxShareSupply * 50 := Int.mul_le_mul h hr hr0 (by decide)
  rw [percent, int64_of_fits (fits_of_le hproduct hle), Int.tdiv_eq_ediv_of_nonneg hproduct]

theorem allCommitteePaid_eq (h0 : 0 ≤ reward) (h : reward ≤ maxShareSupply) :
    allCommitteePaid reward = reward * 20 / 100 :=
  percent_eq h0 h (by decide) (by decide)

theorem developTeamPaid_eq (h0 : 0 ≤ reward) (h : reward ≤ maxShareSupply) :
    (developTeamPaid reward : ℤ) = reward * 30 / 100 := by
  have hpercent : percent reward developTeamPayRatio = reward * 30 / 100 :=
    percent_eq h0 h (by decide) (by decide)
  unfold maxShareSupply at h
  rw [developTeamPaid, hpercent, wide_of_nonneg (by omega) (by omega)]
  omega

theorem allPaid_eq (h0 : 0 ≤ reward) (hfee : 0 ≤ trxfee) (h : reward + trxfee ≤ maxShareSupply) :
    allPaid reward trxfee = reward * 50 / 100 + trxfee := by
  have hpercent : percent reward allMinerPayRatio = reward * 50 / 100 :=
    percent_eq h0 (by omega) (by decide) (by decide)
  rw [allPaid, hpercent, int64_of_fits (fits_of_le (by omega) (by omega))]

theorem pledgePayAmount_le {back : ℕ} (h0 : 0 ≤ reward) (hfee : 0 ≤ trxfee)
    (h : reward + trxfee ≤ maxShareSupply) (hback : back ≤ minerPayBackRatio) :
    (pledgePayAmount reward trxfee back : ℤ) ≤ allPaid reward trxfee := by
  have hpaid := allPaid_eq h0 hfee h
  have hratio : wide 64 (minerPledgePayRatio - back) = 100 - back := by
    unfold minerPayBackRatio at hback
    unfold minerPledgePayRatio
    rw [wide_of_nonneg (by omega) (by omega)]
    omega
  unfold maxShareSupply at h
  rw [pledgePayAmount, hratio, wide_of_nonneg (n := allPaid reward trxfee) (by omega) (by omega)]
  have hmul : (allPaid reward trxfee).toNat * (100 - back) ≤ (allPaid reward trxfee).toNat * 100 :=
    Nat.mul_le_mul_left _ (by omega)
  omega

end Ratios

/-! ### Credits -/

section Credits

variable {b b' : PayBacks} {owner : Address} {m : MinerId} {amount : ℤ}

theorem adjustPayBackBalance_eq_ok (h : adjustPayBackBalance b owner m amount = .ok b')
    (j : Address × MinerId) :
    b'.amount j = b.amount j + if j = (owner, m) then amount else 0 := by
  unfold adjustPayBackBalance at h
  split at h
  next hzero =>
    obtain rfl := Except.ok.inj h
    rw [hzero, ite_self, Int.add_zero]
  next =>
    split at h
    next hnone =>
      simp only [bind_eq_ok, require_eq_ok, exists_const, pure_eq_ok] at h
      obtain ⟨-, rfl⟩ := h
      have hamount : b.amount (owner, m) = 0 := by rw [Book.amount, hnone]; rfl
      rw [Book.amount_insert]
      split
      next hj => rw [hj, hamount, Int.zero_add]
      next => rw [Int.add_zero]
    next balance hsome =>
      simp only [bind_eq_ok, pure_eq_ok] at h
      obtain ⟨sum, hsum, rfl⟩ := h
      rw [Book.amount_insert]
      split
      next hj => rw [hj, Book.amount_of_lookup hsome, Safe.add_eq_ok hsum]
      next => rw [Int.add_zero]

theorem total_adjustPayBackBalance (h : adjustPayBackBalance b owner m amount = .ok b') :
    b'.total = b.total + amount :=
  Book.total_of_amount (adjustPayBackBalance_eq_ok h)

/-- An amount can be credited to anyone. -/
def HasRoom (b : PayBacks) (n : ℤ) : Prop := ∀ k, b.amount k + n ≤ Safe.max

theorem HasRoom.exists_adjustPayBackBalance {n : ℤ} (hroom : HasRoom b n) (owner : Address)
    (m : MinerId) (amount : ℤ) (h0 : 0 ≤ amount) (hn : amount ≤ n) :
    ∃ b', adjustPayBackBalance b owner m amount = .ok b' ∧ HasRoom b' (n - amount) := by
  have hreturns : ∃ b', adjustPayBackBalance b owner m amount = .ok b' := by
    unfold adjustPayBackBalance
    split
    next => exact ⟨b, rfl⟩
    next hne =>
      split
      next => exact ⟨_, bind_eq_ok.mpr ⟨(), require_eq_ok.mpr (by omega), rfl⟩⟩
      next balance hsome =>
        have hbalance := hroom (owner, m)
        rw [Book.amount_of_lookup hsome] at hbalance
        exact ⟨_, bind_eq_ok.mpr ⟨_, Safe.add_of_le h0 (by omega), rfl⟩⟩
  obtain ⟨b', hb'⟩ := hreturns
  refine ⟨b', hb', fun k => ?_⟩
  have hk := hroom k
  rw [adjustPayBackBalance_eq_ok hb']
  split <;> omega

end Credits

/-! ### The wallfacers -/

section Committee

variable {v : PayView} {m : MinerId} {endValue : ℤ}

variable {l : List AccountId} {n : ℤ}

theorem foldlM_payWallfacer_eq_ok (h0 : 0 ≤ endValue) {r r' : PayBacks × ℤ} (hr : 0 ≤ r.2)
    (hsum : r.2 + l.length * endValue ≤ Safe.max)
    (h : l.foldlM (payWallfacer v m endValue) r = .ok r') :
    r'.2 = r.2 + l.length * endValue ∧ r'.1.total = r.1.total + l.length * endValue := by
  induction l generalizing r with
  | nil =>
    obtain rfl := pure_eq_ok.mp h
    simp
  | cons account l ih =>
    rw [List.foldlM_cons, bind_eq_ok] at h
    obtain ⟨r₁, h₁, h⟩ := h
    simp only [payWallfacer, bind_eq_ok, pure_eq_ok] at h₁
    obtain ⟨b, hb, rfl⟩ := h₁
    have htotal := total_adjustPayBackBalance hb
    have hrest : 0 ≤ (l.length : ℤ) * endValue := Int.mul_nonneg (Int.natCast_nonneg _) h0
    rw [List.length_cons, Nat.cast_succ, Int.add_mul, Int.one_mul] at hsum ⊢
    have hint : int64 (r.2 + endValue) = r.2 + endValue :=
      int64_of_fits ⟨by unfold Safe.min; omega, by omega⟩
    rw [hint] at h
    obtain ⟨hpay, hb'⟩ := ih (show 0 ≤ r.2 + endValue by omega)
      (show r.2 + endValue + _ ≤ _ by omega) h
    simp only at hpay hb'
    constructor <;> omega

theorem HasRoom.foldlM_payWallfacer (h0 : 0 ≤ endValue) {r : PayBacks × ℤ} (hroom : HasRoom r.1 n)
    (hn : l.length * endValue ≤ n) :
    ∃ r', l.foldlM (payWallfacer v m endValue) r = .ok r' ∧
      HasRoom r'.1 (n - l.length * endValue) := by
  induction l generalizing r n with
  | nil => exact ⟨r, rfl, by simpa using hroom⟩
  | cons account l ih =>
    have hrest : 0 ≤ (l.length : ℤ) * endValue := Int.mul_nonneg (Int.natCast_nonneg _) h0
    rw [List.length_cons, Nat.cast_succ, Int.add_mul, Int.one_mul] at hn ⊢
    obtain ⟨b, hb, hroom₁⟩ := hroom.exists_adjustPayBackBalance (v.addr account) m endValue h0
      (by omega)
    obtain ⟨r', hr', hroom'⟩ := ih (r := (b, int64 (r.2 + endValue))) hroom₁ (by omega)
    refine ⟨r', ?_, ?_⟩
    · rw [List.foldlM_cons]
      exact bind_eq_ok.mpr ⟨_, bind_eq_ok.mpr ⟨b, hb, rfl⟩, hr'⟩
    · rwa [Int.sub_sub, Int.add_comm endValue] at hroom'

variable {reward : ℤ} {b : PayBacks} {r : PayBacks × ℤ}

theorem wallfacerShare (h0 : 0 ≤ reward) (h : reward ≤ maxShareSupply) (count : ℕ) :
    ∃ share : ℤ, int64 (wide 64 (allCommitteePaid reward) / count : ℕ) = share ∧ 0 ≤ share ∧
      (count - 1 : ℕ) * share ≤ allCommitteePaid reward := by
  have hpaid := allCommitteePaid_eq h0 h
  unfold maxShareSupply at h
  rw [wide_of_nonneg (by omega) (by omega)]
  have hle : count * ((allCommitteePaid reward).toNat / count) ≤ (allCommitteePaid reward).toNat :=
    Nat.mul_div_le _ _
  have hone : (allCommitteePaid reward).toNat / count ≤ (allCommitteePaid reward).toNat :=
    Nat.div_le_self _ _
  refine ⟨((allCommitteePaid reward).toNat / count : ℕ), int64_natCast (by omega),
    Int.natCast_nonneg _, ?_⟩
  · have hrest : (count - 1) * ((allCommitteePaid reward).toNat / count) ≤
        count * ((allCommitteePaid reward).toNat / count) := Nat.mul_le_mul_right _ (Nat.sub_le ..)
    omega

/-- **All wallfacers but the last get no more than the part of the reward for all of them.** -/
theorem payCommittee_eq_ok (h0 : 0 ≤ reward) (h : reward ≤ maxShareSupply)
    (hr : payCommittee v m reward b = .ok r) :
    0 ≤ r.2 ∧ r.2 ≤ allCommitteePaid reward ∧ r.1.total = b.total + r.2 := by
  simp only [payCommittee, bind_eq_ok, require_eq_ok, exists_const] at hr
  obtain ⟨hcount, hr⟩ := hr
  obtain ⟨share, hshare, hshare0, hle⟩ := wallfacerShare h0 h v.wallfacerMembers.length
  have hlength : (v.wallfacerMembers.take (v.wallfacerMembers.length - 1)).length =
      v.wallfacerMembers.length - 1 := by
    rw [List.length_take]
    omega
  have hpaid := allCommitteePaid_eq h0 h
  unfold maxShareSupply at h
  rw [hshare] at hr
  obtain ⟨hpay, htotal⟩ := foldlM_payWallfacer_eq_ok hshare0 (Int.le_refl _)
    (by rw [hlength]; unfold Safe.max; omega) hr
  rw [hlength, Int.zero_add] at hpay
  rw [hlength] at htotal
  exact ⟨hpay ▸ Int.mul_nonneg (Int.natCast_nonneg _) hshare0, hpay ▸ hle, hpay ▸ htotal⟩

theorem HasRoom.payCommittee (h0 : 0 ≤ reward) (h : reward ≤ maxShareSupply)
    (hcount : v.wallfacerMembers ≠ []) (hroom : HasRoom b n) (hn : allCommitteePaid reward ≤ n) :
    ∃ r, payCommittee v m reward b = .ok r ∧ HasRoom r.1 (n - r.2) := by
  have hcount : v.wallfacerMembers.length ≠ 0 := mt List.length_eq_zero_iff.mp hcount
  obtain ⟨share, hshare, hshare0, hle⟩ := wallfacerShare h0 h v.wallfacerMembers.length
  have hlength : (v.wallfacerMembers.take (v.wallfacerMembers.length - 1)).length =
      v.wallfacerMembers.length - 1 := by
    rw [List.length_take]
    omega
  obtain ⟨r, hr, hroom'⟩ := HasRoom.foldlM_payWallfacer (v := v) (m := m) (r := (b, 0)) hshare0
    (l := v.wallfacerMembers.take (v.wallfacerMembers.length - 1)) hroom (by rw [hlength]; omega)
  have hreturns : Mining.payCommittee v m reward b = .ok r := by
    rw [Mining.payCommittee, hshare]
    exact bind_eq_ok.mpr ⟨(), require_eq_ok.mpr hcount, hr⟩
  have hpaid := allCommitteePaid_eq h0 h
  unfold maxShareSupply at h
  obtain ⟨hpay, -⟩ := foldlM_payWallfacer_eq_ok hshare0 (Int.le_refl _)
    (by rw [hlength]; unfold Safe.max; omega) hr
  rw [Int.zero_add] at hpay
  exact ⟨r, hreturns, hpay ▸ hroom'⟩

end Committee

/-! ### The locks -/

section Pledges

variable {v : PayView} {s : MiningState} {m : MinerId} {weight pay : ℕ}

/-- The weighted sum of a cache: the sum of the values of its locks. -/
def weightedSum (s : MiningState) : List LockbalanceObject → Except String ℕ
  | [] => .ok 0
  | lock :: locks => do return (← pledgeValue s lock).getD 0 + (← weightedSum s locks)

/-- What was paid for locks is at most their part of the weight. -/
def PledgeRun.Bounded (weight pay : ℕ) (r : PledgeRun) : Prop :=
  r.allPledgePaid * weight ≤ pay * r.calCurPledge

variable {r : PledgeRun} {locks : List LockbalanceObject} {w : ℕ}

theorem PledgeRun.Bounded.le (h : r.Bounded weight pay) (hweight : 0 < weight)
    (hle : r.calCurPledge ≤ weight) : r.allPledgePaid ≤ pay :=
  Nat.le_of_mul_le_mul_right (h.trans (Nat.mul_le_mul_left _ hle)) hweight

theorem PledgeRun.Bounded.next (h : r.Bounded weight pay) (value : ℕ) (b : PayBacks) :
    PledgeRun.Bounded weight pay
      ⟨b, r.allPledgePaid + pay * value / weight, r.calCurPledge + value⟩ := by
  have hshare : pay * value / weight * weight ≤ pay * value := Nat.div_mul_le_self _ _
  show (r.allPledgePaid + pay * value / weight) * weight ≤ pay * (r.calCurPledge + value)
  rw [Nat.add_mul, Nat.mul_add]
  exact Nat.add_le_add h hshare

/-- As long as the values do not exceed the weight, no bits are lost: an iteration credits the share
of a lock, and counts it. -/
theorem payPledge_eq {lock : LockbalanceObject} {value : Option ℕ}
    (hvalue : pledgeValue s lock = .ok value) (hcontract : lock.lockBalanceContractAddr = 0)
    (hweight : 0 < weight) (hbits : weight < 2 ^ 128) (hpay : pay < 2 ^ 63)
    (hr : r.Bounded weight pay) (hle : r.calCurPledge + value.getD 0 ≤ weight) :
    payPledge v s m weight pay r lock = (do
      let b ← adjustPayBackBalance r.payBacks (v.addr lock.key.lockBalanceAccount) m
        (pay * value.getD 0 / weight : ℕ)
      return ⟨b, r.allPledgePaid + pay * value.getD 0 / weight,
        r.calCurPledge + value.getD 0⟩) := by
  rw [payPledge, hvalue, ok_bind]
  cases value with
  | none =>
    simp only [Option.getD_none, Nat.mul_zero, Nat.zero_div, Nat.add_zero, Nat.cast_zero]
    rfl
  | some value =>
    rw [Option.getD_some] at hle ⊢
    have hproduct : pay * value < 2 ^ 256 := by
      calc pay * value ≤ 2 ^ 63 * 2 ^ 128 := Nat.mul_le_mul hpay.le (by omega)
        _ < 2 ^ 256 := by decide
    have hsum := (hr.next value r.payBacks).le hweight hle
    simp only at hsum
    simp only [Nat.mod_eq_of_lt hproduct,
      Nat.mod_eq_of_lt (show pay * value / weight < 2 ^ 64 by omega),
      Nat.mod_eq_of_lt (show r.allPledgePaid + pay * value / weight < 2 ^ 64 by omega),
      Nat.mod_eq_of_lt (show r.calCurPledge + value < 2 ^ 256 by omega), hcontract, ne_eq,
      not_true_eq_false, if_false]
    rw [show require (¬ weight = 0) "Division by zero." = .ok () from require_eq_ok.mpr hweight.ne',
      int64_natCast (by omega)]
    rfl

theorem foldlM_payPledge_eq_ok (hweight : 0 < weight) (hbits : weight < 2 ^ 128)
    (hpay : pay < 2 ^ 63) (hsum : weightedSum s locks = .ok w)
    (hcontract : ∀ lock ∈ locks, lock.lockBalanceContractAddr = 0) {r' : PledgeRun}
    (hr : r.Bounded weight pay) (hle : r.calCurPledge + w ≤ weight)
    (h : locks.foldlM (payPledge v s m weight pay) r = .ok r') :
    r'.Bounded weight pay ∧ r'.calCurPledge = r.calCurPledge + w ∧
      r'.payBacks.total = r.payBacks.total + (r'.allPledgePaid - r.allPledgePaid) := by
  -- the sum of the rest still fits after every lock
  induction locks generalizing r w with
  | nil =>
    obtain rfl := pure_eq_ok.mp h
    obtain rfl := Except.ok.inj hsum
    exact ⟨hr, rfl, by omega⟩
  | cons lock locks ih =>
    simp only [weightedSum, bind_eq_ok, pure_eq_ok] at hsum
    obtain ⟨value, hvalue, rest, hrest, rfl⟩ := hsum
    rw [List.foldlM_cons, payPledge_eq hvalue (hcontract lock (List.mem_cons_self ..)) hweight hbits
      hpay hr (by omega), bind_eq_ok] at h
    obtain ⟨r₁, h₁, h⟩ := h
    simp only [bind_eq_ok, pure_eq_ok] at h₁
    obtain ⟨b, hb, rfl⟩ := h₁
    obtain ⟨hbounded, hcal, htotal⟩ := ih hrest
      (fun lock hlock => hcontract lock (List.mem_cons_of_mem _ hlock)) (hr.next _ b)
      (by simp only; omega) h
    have hpaid := total_adjustPayBackBalance hb
    simp only at hcal htotal
    exact ⟨hbounded, by omega, by omega⟩

theorem HasRoom.foldlM_payPledge (hweight : 0 < weight) (hbits : weight < 2 ^ 128)
    (hpay : pay < 2 ^ 63) (hsum : weightedSum s locks = .ok w)
    (hcontract : ∀ lock ∈ locks, lock.lockBalanceContractAddr = 0) {n : ℤ}
    (hr : r.Bounded weight pay) (hle : r.calCurPledge + w ≤ weight)
    (hroom : HasRoom r.payBacks (n - r.allPledgePaid)) (hn : pay ≤ n) :
    ∃ r', locks.foldlM (payPledge v s m weight pay) r = .ok r' ∧
      HasRoom r'.payBacks (n - r'.allPledgePaid) := by
  induction locks generalizing r w with
  | nil => exact ⟨r, rfl, hroom⟩
  | cons lock locks ih =>
    simp only [weightedSum, bind_eq_ok, pure_eq_ok] at hsum
    obtain ⟨value, hvalue, rest, hrest, rfl⟩ := hsum
    have hnext := (hr.next (value.getD 0) r.payBacks).le hweight (show _ + _ ≤ _ by omega)
    simp only at hnext
    obtain ⟨b, hb, hroom₁⟩ := hroom.exists_adjustPayBackBalance
      (v.addr lock.key.lockBalanceAccount) m (pay * value.getD 0 / weight : ℕ)
      (Int.natCast_nonneg _) (by omega)
    obtain ⟨r', hr', hroom'⟩ := ih
      (r := ⟨b, r.allPledgePaid + pay * value.getD 0 / weight, r.calCurPledge + value.getD 0⟩) hrest
      (fun lock hlock => hcontract lock (List.mem_cons_of_mem _ hlock)) (hr.next _ b)
      (by simp only; omega) (by rwa [Int.sub_sub, ← Nat.cast_add] at hroom₁)
    refine ⟨r', ?_, hroom'⟩
    rw [List.foldlM_cons, payPledge_eq hvalue (hcontract lock (List.mem_cons_self ..)) hweight hbits
      hpay hr (by omega)]
    exact bind_eq_ok.mpr ⟨_, bind_eq_ok.mpr ⟨b, hb, rfl⟩, hr'⟩

end Pledges

/-! ### The whole function -/

section PayMiner

variable {v : PayView} {s : MiningState} {m : MinerId} {trxfee : ℤ}

/-- A block whose reward can be paid. The weighted sum of the cache can be computed, and is at most
the weight of the miner; no lock is owned by a contract. -/
structure Payable (v : PayView) (m : MinerId) (trxfee : ℤ) (s : MiningState) : Prop where
  reward : 0 ≤ getMinerPayPerBlock v
  fee : 0 ≤ trxfee
  supply : getMinerPayPerBlock v + trxfee ≤ maxShareSupply
  wallfacers : v.wallfacerMembers ≠ []
  payBack : v.minerPledgePayBack (s.miners m).minerAccount ≤ minerPayBackRatio
  weight : (s.miners m).pledgeWeight < 2 ^ 128
  cache : ∀ locks, s.currentRoundLockbalanceCache m = some locks →
    (∃ w, weightedSum s locks = .ok w ∧ w ≤ (s.miners m).pledgeWeight) ∧
      ∀ lock ∈ locks, lock.lockBalanceContractAddr = 0

/-- What was credited: to those who can claim it, and to the first contract. -/
def credited (v : PayView) (s s' : MiningState) : ℤ :=
  (s'.payBacks.total - s.payBacks.total) +
    (s'.accounts.balance v.firstContract 0 - s.accounts.balance v.firstContract 0)

/-- There is room for the whole reward wherever a part of it goes. -/
structure Roomy (v : PayView) (trxfee : ℤ) (s : MiningState) : Prop where
  payBacks : HasRoom s.payBacks (getMinerPayPerBlock v + trxfee)
  contract : s.accounts.balance v.firstContract 0 + getMinerPayPerBlock v ≤ Safe.max
  supply : s.accounts.currentSupply 0 + getMinerPayPerBlock v ≤ Safe.max

variable {locks : List LockbalanceObject} {b : PayBacks}

theorem Payable.allPledgePaid_le (hp : Payable v m trxfee s)
    (hweight : 0 < (s.miners m).pledgeWeight)
    (hlocks : s.currentRoundLockbalanceCache m = some locks) {r : PledgeRun}
    (hr : payPledges v s m (pledgePayAmount (getMinerPayPerBlock v) trxfee
      (v.minerPledgePayBack (s.miners m).minerAccount)) locks b = .ok r)
    :
    (r.allPledgePaid : ℤ) ≤ allPaid (getMinerPayPerBlock v) trxfee ∧
      r.calCurPledge ≤ (s.miners m).pledgeWeight ∧
      r.payBacks.total = b.total + r.allPledgePaid := by
  obtain ⟨⟨w, hsum, hle⟩, hcontract⟩ := hp.cache locks hlocks
  have hpay := pledgePayAmount_le hp.reward hp.fee hp.supply hp.payBack
  have hpaid := allPaid_eq hp.reward hp.fee hp.supply
  have hsupply := hp.supply
  have hreward := hp.reward
  unfold maxShareSupply at hsupply
  obtain ⟨hbounded, hcal, htotal⟩ := foldlM_payPledge_eq_ok hweight hp.weight (by omega) hsum hcontract
    (r := ⟨b, 0, 0⟩) (Nat.le_of_eq (Nat.zero_mul _)) (by simpa using hle) hr
  simp only [Nat.zero_add] at hcal
  have := hbounded.le hweight (hcal ▸ hle)
  exact ⟨by omega, hcal ▸ hle, htotal⟩

theorem Payable.total_shareReward (hp : Payable v m trxfee s)
    (hweight : 0 < (s.miners m).pledgeWeight)
    (hlocks : s.currentRoundLockbalanceCache m = some locks) {b' : PayBacks}
    (h : shareReward v s m (wide 64 (allPaid (getMinerPayPerBlock v) trxfee))
      (pledgePayAmount (getMinerPayPerBlock v) trxfee (v.minerPledgePayBack
        (s.miners m).minerAccount)) locks b = .ok b')
    :
    b'.total = b.total + allPaid (getMinerPayPerBlock v) trxfee := by
  simp only [shareReward, bind_eq_ok, require_eq_ok, exists_and_left, exists_const] at h
  obtain ⟨r, hr, -, h⟩ := h
  obtain ⟨hle, -, htotal⟩ := hp.allPledgePaid_le hweight hlocks hr
  have hpaid := allPaid_eq hp.reward hp.fee hp.supply
  have hsupply := hp.supply
  have hreward := hp.reward
  unfold maxShareSupply at hsupply
  rw [wide_of_nonneg (n := allPaid (getMinerPayPerBlock v) trxfee) (by omega) (by omega),
    wide_of_nonneg (by omega) (by omega), int64_natCast (by omega)] at h
  have := total_adjustPayBackBalance h
  omega

theorem Payable.exists_shareReward (hp : Payable v m trxfee s)
    (hweight : 0 < (s.miners m).pledgeWeight)
    (hlocks : s.currentRoundLockbalanceCache m = some locks)
    (hroom : HasRoom b (allPaid (getMinerPayPerBlock v) trxfee)) :
    ∃ b', shareReward v s m (wide 64 (allPaid (getMinerPayPerBlock v) trxfee))
      (pledgePayAmount (getMinerPayPerBlock v) trxfee
        (v.minerPledgePayBack (s.miners m).minerAccount)) locks b = .ok b' := by
  obtain ⟨⟨w, hsum, hle⟩, hcontract⟩ := hp.cache locks hlocks
  have hpay := pledgePayAmount_le hp.reward hp.fee hp.supply hp.payBack
  have hpaid := allPaid_eq hp.reward hp.fee hp.supply
  have hsupply := hp.supply
  have hreward := hp.reward
  unfold maxShareSupply at hsupply
  obtain ⟨r, hr, hroom'⟩ := HasRoom.foldlM_payPledge (v := v) (m := m)
    (n := allPaid (getMinerPayPerBlock v) trxfee) hweight hp.weight (by omega) hsum hcontract
    (r := ⟨b, 0, 0⟩) (Nat.le_of_eq (Nat.zero_mul _)) (by simpa using hle) (by simpa using hroom) hpay
  obtain ⟨hpledges, hcal, -⟩ := hp.allPledgePaid_le hweight hlocks hr
  obtain ⟨b', hb', -⟩ := hroom'.exists_adjustPayBackBalance
    (v.addr (s.miners m).minerAccount) m
    (allPaid (getMinerPayPerBlock v) trxfee - r.allPledgePaid) (by omega) (Int.le_refl _)
  refine ⟨b', bind_eq_ok.mpr ⟨r, hr, bind_eq_ok.mpr ⟨(), require_eq_ok.mpr hcal, ?_⟩⟩⟩
  rw [wide_of_nonneg (n := allPaid (getMinerPayPerBlock v) trxfee) (by omega) (by omega),
    wide_of_nonneg (by omega) (by omega), int64_natCast (by omega)]
  rwa [show (((allPaid (getMinerPayPerBlock v) trxfee).toNat - r.allPledgePaid : ℤ).toNat : ℤ) =
    allPaid (getMinerPayPerBlock v) trxfee - r.allPledgePaid by omega]

theorem Payable.total_payMiner (hp : Payable v m trxfee s)
    (hweight : 0 < (s.miners m).pledgeWeight) {s' : MiningState}
    (h : payMiner v m trxfee s = .ok s') :
    s'.accounts.currentSupply 0 = s.accounts.currentSupply 0 + getMinerPayPerBlock v ∧
      credited v s s' = allCommitteePaid (getMinerPayPerBlock v) +
        developTeamPaid (getMinerPayPerBlock v) + allPaid (getMinerPayPerBlock v) trxfee := by
  have hsupply := hp.supply
  have hreward := hp.reward
  have hfee := hp.fee
  have hcommittee := allCommitteePaid_eq hreward (by omega)
  have hteam := developTeamPaid_eq hreward (by omega)
  simp only [payMiner, bind_eq_ok, found_eq_ok, pure_eq_ok, Prod.exists] at h
  obtain ⟨b₁, committeePay, h₁, last, -, b₂, h₂, accounts, haccounts, b₃, h₃, accounts', hraise,
    rfl⟩ := h
  obtain ⟨hpay0, hpay, htotal₁⟩ := payCommittee_eq_ok hreward (by omega) h₁
  simp only at hpay0 hpay htotal₁
  unfold maxShareSupply at hsupply
  rw [int64_of_fits ⟨by unfold Safe.min; omega, by unfold Safe.max; omega⟩] at h₂
  rw [int64_natCast (by omega)] at haccounts
  have htotal₂ := total_adjustPayBackBalance h₂
  have htotal₃ : b₃.total = b₂.total + allPaid (getMinerPayPerBlock v) trxfee := by
    cases hlocks : s.currentRoundLockbalanceCache m with
    | none =>
      rw [hlocks] at h₃
      exact total_adjustPayBackBalance h₃
    | some locks =>
      rw [hlocks] at h₃
      exact hp.total_shareReward hweight hlocks h₃
  have hbalance := Accounts.balance_adjustBalance haccounts v.firstContract 0
  have hsame := Accounts.currentSupply_adjustBalance haccounts
  rw [if_pos ⟨rfl, rfl⟩] at hbalance
  obtain rfl := Accounts.raiseSupply_eq_ok hraise
  refine ⟨?_, ?_⟩
  · simp only [Function.update_self, hsame]
  · simp only [credited]
    have hraised : Accounts.balance { accounts with
        currentSupply := Function.update accounts.currentSupply 0
          (accounts.currentSupply 0 + getMinerPayPerBlock v) } v.firstContract 0 =
        accounts.balance v.firstContract 0 := rfl
    omega

theorem Payable.exists_payMiner (hp : Payable v m trxfee s)
    (hweight : 0 < (s.miners m).pledgeWeight) (hroom : Roomy v trxfee s) :
    ∃ s', payMiner v m trxfee s = .ok s' := by
  have hsupply := hp.supply
  have hreward := hp.reward
  have hfee := hp.fee
  have hcommittee := allCommitteePaid_eq hreward (by omega)
  have hteam := developTeamPaid_eq hreward (by omega)
  have hpaid := allPaid_eq hreward hfee hsupply
  obtain ⟨⟨b₁, committeePay⟩, h₁, hroom₁⟩ := hroom.payBacks.payCommittee (m := m) hreward (by omega)
    hp.wallfacers (by omega)
  obtain ⟨hpay0, hpay, -⟩ := payCommittee_eq_ok hreward (by omega) h₁
  obtain ⟨last, hlast⟩ : ∃ last, v.wallfacerMembers.getLast? = some last :=
    ⟨_, List.getLast?_eq_some_getLast hp.wallfacers⟩
  obtain ⟨b₂, h₂, hroom₂⟩ := hroom₁.exists_adjustPayBackBalance (v.addr last) m
    (allCommitteePaid (getMinerPayPerBlock v) - committeePay) (by omega) (by omega)
  have hroom₂' : HasRoom b₂ (allPaid (getMinerPayPerBlock v) trxfee) := by
    intro k
    have := hroom₂ k
    omega
  have hcontract := hroom.contract
  have hmin : Safe.min < developTeamPaid (getMinerPayPerBlock v) := by
    unfold Safe.min
    omega
  obtain ⟨accounts, haccounts⟩ := s.accounts.exists_adjustBalance 0 v.firstContract_ne hmin
    (.inr (Int.natCast_nonneg _)) fun _ => by omega
  have hsame := Accounts.currentSupply_adjustBalance haccounts
  obtain ⟨accounts', hraise⟩ : ∃ l, accounts.raiseSupply 0 (getMinerPayPerBlock v) = .ok l :=
    ⟨_, bind_eq_ok.mpr ⟨_, Safe.add_of_le hreward (hsame ▸ hroom.supply), rfl⟩⟩
  unfold maxShareSupply at hsupply
  have hint : int64 (allCommitteePaid (getMinerPayPerBlock v) - committeePay) =
      allCommitteePaid (getMinerPayPerBlock v) - committeePay :=
    int64_of_fits ⟨by unfold Safe.min; omega, by unfold Safe.max; omega⟩
  have hint' : int64 (developTeamPaid (getMinerPayPerBlock v)) =
      developTeamPaid (getMinerPayPerBlock v) := int64_natCast (by omega)
  simp only [payMiner, h₁, ok_bind, hlast, found, hint, h₂, hint', haccounts]
  cases hlocks : s.currentRoundLockbalanceCache m with
  | none =>
    obtain ⟨b₃, h₃, -⟩ := hroom₂'.exists_adjustPayBackBalance
      (v.addr (s.miners m).minerAccount) m (allPaid (getMinerPayPerBlock v) trxfee) (by omega)
        (Int.le_refl _)
    exact ⟨_, bind_eq_ok.mpr ⟨b₃, h₃, bind_eq_ok.mpr ⟨accounts', hraise, rfl⟩⟩⟩
  | some locks =>
    obtain ⟨b₃, h₃⟩ := hp.exists_shareReward hweight hlocks hroom₂'
    exact ⟨_, bind_eq_ok.mpr ⟨b₃, h₃, bind_eq_ok.mpr ⟨accounts', hraise, rfl⟩⟩⟩

/-- **The reward of a block is paid, except for two units.** The two running sums that are
subtracted from their total never exceed it. Whoever has a part in it, what is credited comes to the
reward and the fees, less at most two; the supply grows by the reward. With room for the reward in
all balances, `pay_miner` returns. -/
theorem block_reward_accounting (hp : Payable v m trxfee s)
    (hweight : 0 < (s.miners m).pledgeWeight) :
    (∀ b r, payCommittee v m (getMinerPayPerBlock v) b = .ok r →
      r.2 ≤ allCommitteePaid (getMinerPayPerBlock v)) ∧
    (∀ locks b r, s.currentRoundLockbalanceCache m = some locks →
      payPledges v s m (pledgePayAmount (getMinerPayPerBlock v) trxfee
        (v.minerPledgePayBack (s.miners m).minerAccount)) locks b = .ok r →
      (r.allPledgePaid : ℤ) ≤ allPaid (getMinerPayPerBlock v) trxfee) ∧
    (∀ s', payMiner v m trxfee s = .ok s' →
      getMinerPayPerBlock v + trxfee - 2 ≤ credited v s s' ∧
      credited v s s' ≤ getMinerPayPerBlock v + trxfee ∧
      s'.accounts.currentSupply 0 = s.accounts.currentSupply 0 + getMinerPayPerBlock v) ∧
    (Roomy v trxfee s → ∃ s', payMiner v m trxfee s = .ok s') := by
  have hsupply := hp.supply
  have hreward := hp.reward
  have hfee := hp.fee
  refine ⟨fun b r hr => (payCommittee_eq_ok hreward (by omega) hr).2.1,
    fun locks b r hlocks hr => (hp.allPledgePaid_le hweight hlocks hr).1, fun s' h => ?_,
    hp.exists_payMiner hweight⟩
  obtain ⟨hraised, htotal⟩ := hp.total_payMiner hweight h
  have hcommittee := allCommitteePaid_eq hreward (by omega)
  have hteam := developTeamPaid_eq hreward (by omega)
  have hpaid := allPaid_eq hreward hfee hsupply
  exact ⟨by omega, by omega, hraised⟩

/-- Two wallfacers, and a reward of 1001. -/
def twoWallfacers : PayView where
  headBlockNumber := 5
  unorderBlocksMatch := [(3, 2000), (100, 1001)]
  wallfacerMembers := [11, 12]
  addr account := account
  minerPledgePayBack _ := 10
  firstContract := 99
  firstContract_ne := Nat.succ_ne_zero 98

/-- Somebody locked an amount of the core asset in favour of the miner 0. -/
def oneLock (amount : ℤ) (weight : ℕ) : MiningState :=
  { blankMining with
    miners _ := ⟨21, 0, ∅, weight, 100⟩
    currentRoundLockbalanceCache _ := some [⟨⟨0, 31, 0⟩, 0, amount⟩]
    currentPriceFeed _ := some .null }

theorem payable_oneLock (amount weight : ℕ) (hle : amount ≤ weight) (hbits : weight < 2 ^ 128) :
    Payable twoWallfacers 0 9 (oneLock amount weight) where
  reward := by decide
  fee := by decide
  supply := by decide
  wallfacers := List.cons_ne_nil _ _
  payBack := show 10 ≤ 50 by decide
  weight := hbits
  cache locks hlocks := by
    obtain rfl := Option.some.inj hlocks
    refine ⟨⟨amount, ?_, hle⟩, fun lock hlock => by rw [List.mem_singleton.mp hlock]⟩
    have hwide : wide 256 (amount : ℤ) = amount := by
      rw [wide_of_nonneg (Int.natCast_nonneg _) (by omega), Int.toNat_natCast]
    show Except.ok (wide 256 (amount : ℤ) + 0) = _
    rw [hwide, Nat.add_zero]

theorem block_reward_accounting_oneLock :
    ∃ s', payMiner twoWallfacers 0 9 (oneLock 150 250) = .ok s' ∧
      1001 + 9 - 2 ≤ credited twoWallfacers (oneLock 150 250) s' ∧
      credited twoWallfacers (oneLock 150 250) s' ≤ 1001 + 9 := by
  obtain ⟨-, -, hpaid, hreturns⟩ := block_reward_accounting
    (payable_oneLock 150 250 (by decide) (by decide)) (by decide)
  have hroom : Roomy twoWallfacers 9 (oneLock 150 250) :=
    ⟨fun k => by rw [show (oneLock 150 250).payBacks = ∅ from rfl, Book.amount_empty]; decide,
      by decide, by decide⟩
  obtain ⟨s', hs'⟩ := hreturns hroom
  exact ⟨s', hs', (hpaid s' hs').1, (hpaid s' hs').2.1⟩

/-- Without any weight, a lock of nothing is divided by it. -/
theorem payMiner_zero_weight :
    Payable twoWallfacers 0 9 (oneLock 0 0) ∧ Roomy twoWallfacers 9 (oneLock 0 0) ∧
      (payMiner twoWallfacers 0 9 (oneLock 0 0)).map (fun _ => ()) =
        .error "Division by zero." := by
  refine ⟨payable_oneLock 0 0 (Nat.le_refl _) (by decide), ⟨fun k => ?_, by decide, by decide⟩,
    by decide +kernel⟩
  rw [show (oneLock 0 0).payBacks = ∅ from rfl, Book.amount_empty]
  decide

end PayMiner

end Whitecoin.Mining
