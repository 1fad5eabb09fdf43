import Whitecoin.Mining.State
import Mathlib.Data.List.Infix

/-!
# The distribution of fees

Fees in other assets than the core asset are collected in pools, one for each asset. At certain
heights `process_bonus` distributes them. For some assets the permanent wallfacers get a part first;
of what is left every wallfacer gets a share, and the rest goes to the holders of the core asset who
have enough of it. The working copy of the pools and the bonus objects are updated separately.

The shares are computed in floating point. What matters here is only that each of them is computed
once and is the same number on both sides, so that they are arbitrary.

The wallfacers are fifteen, and the code subtracts fifteen shares from the pool, however many there
are. If there are more or fewer of them, the pools and the bonuses do not agree.
-/

namespace Whitecoin.Mining

open Check Ledger

/-! ### The function -/

structure BonusState where
  /-- `fees_pool` of the `total_fees_object`. -/
  pools : Book AssetId
  /-- The `bonus_object`s, by owner and asset. -/
  bonus : Book (Address × AssetId)

/-- What `process_bonus` reads from the rest of the chain, with the shares that it computes. -/
structure BonusView where
  headBlockNum : ℕ
  symbol : AssetId → String
  /-- `get_wallfacer_members(true)`: the account of each, and whether it is a permanent one. -/
  wallfacers : List (AccountId × Bool)
  /-- The addresses of the accounts that exist. -/
  addr : AccountId → Option Address
  /-- The holders whose balance and locks reach the limit. -/
  waitingList : List Address
  permanentShare : AssetId → ℕ
  wallfacerShare : AssetId → ℕ
  holderShare : Address → AssetId → ℕ

/-- `GRAPHENE_BONUS_DISTRIBUTE_BLOCK_NUM`. -/
def bonusDistributeBlockNum : ℕ := 100000

/-- The number of wallfacers that is written in the code. -/
def wallfacerCount : ℕ := 15

/-- The assets of which the permanent wallfacers get a part. -/
def SharedFirst (symbol : String) : Prop :=
  symbol = "ETH" ∨ "ERC".toList <:+: symbol.toList ∨ symbol = "USDT"

instance (symbol : String) : Decidable (SharedFirst symbol) :=
  inferInstanceAs (Decidable (_ ∨ _ ∨ _))

def BonusView.permanentWallfacers (v : BonusView) : List Address :=
  v.wallfacers.filterMap fun w => if w.2 then v.addr w.1 else none

/-- `database::adjust_bonus_balance`. -/
def adjustBonusBalance (b : Book (Address × AssetId)) (owner : Address) (asset : AssetId)
    (amount : ℤ) : Except String (Book (Address × AssetId)) :=
  if asset = 0 ∨ amount = 0 then .ok b else
    match b.lookup (owner, asset) with
    | none => do
      require (0 < amount) "bonus.amount > 0"
      return b.insert (owner, asset) amount
    | some balance => do
      require ((← Safe.neg amount) ≤ balance) "itr->bonus.at(bonus.asset_id) >= -bonus.amount"
      return b.insert (owner, asset) (← Safe.add balance amount)

namespace BonusState

/-- `_total_fees_pool[asset] -= amount`. -/
def takeFrom (s : BonusState) (asset : AssetId) (amount : ℤ) : Except String BonusState := do
  return { s with pools := s.pools.insert asset (← Safe.sub (s.pools.amount asset) amount) }

def adjustBonus (s : BonusState) (owner : Address) (asset : AssetId) (amount : ℤ) :
    Except String BonusState := do
  return { s with bonus := ← adjustBonusBalance s.bonus owner asset amount }

end BonusState

/-- A bonus is paid from a pool. -/
def payBonus (asset : AssetId) (amount : ℤ) (s : BonusState) (owner : Address) :
    Except String BonusState := do
  (← s.takeFrom asset amount).adjustBonus owner asset amount

variable (v : BonusView)

/-- The part of the permanent wallfacers. -/
def payPermanent (asset : AssetId) (s : BonusState) : Except String BonusState :=
  if SharedFirst (v.symbol asset) ∧ v.permanentWallfacers ≠ [] ∧ 0 < v.permanentShare asset then
    v.permanentWallfacers.foldlM (payBonus asset (v.permanentShare asset)) s
  else .ok s

/-- A wallfacer gets a share. -/
def payFormal (asset : AssetId) (amount : ℤ) (s : BonusState) (w : AccountId × Bool) :
    Except String BonusState := do
  s.adjustBonus (← found (v.addr w.1) "Unable to find Object") asset amount

/-- The shares of all wallfacers, with what is left of the pool. -/
def payWallfacers (asset : AssetId) (s : BonusState) : Except String (BonusState × ℤ) := do
  let real := s.pools.amount asset
  let temp : ℤ := v.wallfacerShare asset
  if 0 < temp then
    let s ← v.wallfacers.foldlM (payFormal v asset temp) s
    let all ← Safe.mul temp wallfacerCount
    let real ← Safe.sub real all
    return (← s.takeFrom asset all, real)
  else return (s, real)

/-- One iteration over the pools, with the assets that have a rate. -/
def distributePool (r : BonusState × List AssetId) (asset : AssetId) :
    Except String (BonusState × List AssetId) :=
  if asset = 0 then .ok r else do
    let s ← payPermanent v asset r.1
    let (s, real) ← payWallfacers v asset s
    return (s, if real ≤ 0 then r.2 else r.2 ++ [asset])

/-- One iteration over the rates. -/
def payHolder (holder : Address) (s : BonusState) (asset : AssetId) : Except String BonusState :=
  if v.holderShare holder asset = 0 then .ok s
  else payBonus asset (v.holderShare holder asset) s holder

/-- `database::process_bonus`, above the fork heights. -/
def processBonus (s : BonusState) : Except String BonusState :=
  if v.headBlockNum = 0 ∨ v.headBlockNum % bonusDistributeBlockNum ≠ 0 then .ok s else do
    let (s, rates) ← s.pools.keys.foldlM (distributePool v) (s, [])
    v.waitingList.foldlM (fun s holder => rates.foldlM (payHolder v holder) s) s

/-! ### What is in a pool and in the bonuses from it -/

namespace BonusState

/-- All bonuses in an asset. -/
def bonuses (s : BonusState) (a : AssetId) : ℤ := s.bonus.sumBy fun k => k.2 = a

/-- A pool and the bonuses in its asset. -/
def gap (s : BonusState) (a : AssetId) : ℤ := s.pools.amount a + s.bonuses a

end BonusState

variable {v} {s s' : BonusState} {asset : AssetId} {amount : ℤ} {owner : Address}

theorem adjustBonusBalance_eq_ok {b b' : Book (Address × AssetId)} (hasset : asset ≠ 0)
    (h : adjustBonusBalance b owner asset amount = .ok b') (j : Address × AssetId) :
    b'.amount j = b.amount j + if j = (owner, asset) then amount else 0 := by
  unfold adjustBonusBalance at h
  split at h
  next hzero =>
    obtain rfl := Except.ok.inj h
    rw [hzero.resolve_left hasset, ite_self, Int.add_zero]
  next =>
    split at h
    next hnone =>
      simp only [bind_eq_ok, require_eq_ok, exists_const, pure_eq_ok] at h
      obtain ⟨-, rfl⟩ := h
      have hamount : b.amount (owner, asset) = 0 := by rw [Book.amount, hnone]; rfl
      rw [Book.amount_insert]
      split
      next hj => rw [hj, hamount, Int.zero_add]
      next => rw [Int.add_zero]
    next balance hsome =>
      simp only [bind_eq_ok, require_eq_ok, exists_and_left, exists_const, pure_eq_ok] at h
      obtain ⟨_, -, -, sum, hsum, rfl⟩ := h
      rw [Book.amount_insert]
      split
      next hj => rw [hj, Book.amount_of_lookup hsome, Safe.add_eq_ok hsum]
      next => rw [Int.add_zero]

theorem gap_adjustBonus (hasset : asset ≠ 0) (h : s.adjustBonus owner asset amount = .ok s')
    (a : AssetId) : s'.gap a = s.gap a + if a = asset then amount else 0 := by
  simp only [BonusState.adjustBonus, bind_eq_ok, pure_eq_ok] at h
  obtain ⟨b, hb, rfl⟩ := h
  have hsum := Book.sumBy_of_amount (fun k : Address × AssetId => k.2 = a)
    (adjustBonusBalance_eq_ok hasset hb)
  simp only [BonusState.gap, BonusState.bonuses, eq_comm (a := a)] at hsum ⊢
  omega

theorem gap_takeFrom (h : s.takeFrom asset amount = .ok s') (a : AssetId) :
    s'.gap a = s.gap a - if a = asset then amount else 0 := by
  simp only [BonusState.takeFrom, bind_eq_ok, pure_eq_ok] at h
  obtain ⟨rest, hrest, rfl⟩ := h
  have hrest := Safe.sub_eq_ok hrest
  simp only [BonusState.gap, BonusState.bonuses, Book.amount_insert]
  split
  next ha =>
    subst ha
    omega
  next => omega

/-- **A bonus that is paid from a pool changes nothing.** -/
theorem gap_payBonus (hasset : asset ≠ 0) (h : payBonus asset amount s owner = .ok s')
    (a : AssetId) : s'.gap a = s.gap a := by
  obtain ⟨s₁, h₁, h⟩ := bind_eq_ok.mp h
  rw [gap_adjustBonus hasset h, gap_takeFrom h₁]
  omega

theorem gap_payPermanent (hasset : asset ≠ 0) (h : payPermanent v asset s = .ok s') (a : AssetId) :
    s'.gap a = s.gap a := by
  unfold payPermanent at h
  split at h
  next =>
    exact foldlM_induction (P := fun t : BonusState => t.gap a = s.gap a) rfl
      (fun _ _ _ _ ht h => (gap_payBonus hasset h a).trans ht) h
  next => rw [Except.ok.inj h]

theorem gap_payFormal (hasset : asset ≠ 0) {l : List (AccountId × Bool)}
    (h : l.foldlM (payFormal v asset amount) s = .ok s') (a : AssetId) :
    s'.gap a = s.gap a + if a = asset then l.length * amount else 0 := by
  induction l generalizing s with
  | nil =>
    obtain rfl := pure_eq_ok.mp h
    simp
  | cons w l ih =>
    rw [List.foldlM_cons, bind_eq_ok] at h
    obtain ⟨s₁, h₁, h⟩ := h
    obtain ⟨_, -, h₁⟩ := bind_eq_ok.mp h₁
    rw [ih h, gap_adjustBonus hasset h₁]
    split
    next =>
      rw [List.length_cons, Nat.cast_succ, Int.add_mul, Int.one_mul]
      omega
    next => omega

/-- **The wallfacers get a share each, and the pool loses fifteen.** -/
theorem gap_payWallfacers (hasset : asset ≠ 0) {real : ℤ}
    (h : payWallfacers v asset s = .ok (s', real)) (a : AssetId) :
    s'.gap a = s.gap a + if a = asset then
      (v.wallfacers.length - wallfacerCount : ℤ) * v.wallfacerShare asset else 0 := by
  simp only [payWallfacers] at h
  split at h
  next =>
    simp only [bind_eq_ok, pure_eq_ok, Prod.mk.injEq] at h
    obtain ⟨s₁, h₁, all, hall, _, -, s₂, h₂, rfl, -⟩ := h
    rw [gap_takeFrom h₂, gap_payFormal hasset h₁, Safe.mul_eq_ok hall]
    split
    next =>
      rw [Int.sub_mul, Int.mul_comm (wallfacerCount : ℤ)]
      omega
    next => omega
  next hshare =>
    obtain ⟨rfl, -⟩ := Prod.mk.inj (pure_eq_ok.mp h)
    have hzero : (v.wallfacerShare asset : ℤ) = 0 := by omega
    rw [hzero, Int.mul_zero, ite_self, Int.add_zero]

variable {r r' : BonusState × List AssetId} {l : List AssetId}

theorem gap_distributePool (h : distributePool v r asset = .ok r') (a : AssetId) :
    r'.1.gap a = r.1.gap a + (if a = asset ∧ a ≠ 0 then
      (v.wallfacers.length - wallfacerCount : ℤ) * v.wallfacerShare a else 0) := by
  unfold distributePool at h
  split at h
  next hzero =>
    rw [Except.ok.inj h, if_neg (by rintro ⟨rfl, ha⟩; exact ha hzero), Int.add_zero]
  next hasset =>
    simp only [bind_eq_ok, pure_eq_ok, Prod.exists] at h
    obtain ⟨s₁, h₁, s₂, real, h₂, rfl⟩ := h
    show s₂.gap a = _
    rw [gap_payWallfacers hasset h₂, gap_payPermanent hasset h₁]
    by_cases ha : a = asset
    · rw [if_pos ha, if_pos ⟨ha, ha ▸ hasset⟩, ha]
    · rw [if_neg ha, if_neg fun h => ha h.1]

theorem gap_foldlM_distributePool (hl : l.Nodup) (h : l.foldlM (distributePool v) r = .ok r')
    (a : AssetId) :
    r'.1.gap a = r.1.gap a + (if a ∈ l ∧ a ≠ 0 then
      (v.wallfacers.length - wallfacerCount : ℤ) * v.wallfacerShare a else 0) := by
  induction l generalizing r with
  | nil =>
    obtain rfl := pure_eq_ok.mp h
    simp
  | cons asset l ih =>
    rw [List.foldlM_cons, bind_eq_ok] at h
    obtain ⟨r₁, h₁, h⟩ := h
    obtain ⟨hnot, hl⟩ := List.nodup_cons.mp hl
    rw [ih hl h, gap_distributePool h₁]
    by_cases ha : a = asset
    · subst ha
      simp [hnot]
    · simp [ha]

theorem rates_foldlM_distributePool (hr : 0 ∉ r.2) (h : l.foldlM (distributePool v) r = .ok r') :
    0 ∉ r'.2 := by
  refine foldlM_induction (P := fun r : BonusState × List AssetId => 0 ∉ r.2) hr
    (fun r r' asset _ hr h => ?_) h
  unfold distributePool at h
  split at h
  next => exact Except.ok.inj h ▸ hr
  next hasset =>
    simp only [bind_eq_ok, pure_eq_ok, Prod.exists] at h
    obtain ⟨s₁, -, s₂, real, -, rfl⟩ := h
    show 0 ∉ (if real ≤ 0 then r.2 else r.2 ++ [asset])
    split
    next => exact hr
    next => simpa [hr] using Ne.symm hasset

theorem gap_payHolder {holder : Address} (hasset : asset ≠ 0)
    (h : payHolder v holder s asset = .ok s') (a : AssetId) : s'.gap a = s.gap a := by
  unfold payHolder at h
  split at h
  next => rw [Except.ok.inj h]
  next => exact gap_payBonus hasset h a

theorem gap_holders {holders : List Address} {rates : List AssetId} (hrates : 0 ∉ rates)
    (h : holders.foldlM (fun s holder => rates.foldlM (payHolder v holder) s) s = .ok s')
    (a : AssetId) : s'.gap a = s.gap a := by
  refine foldlM_induction (P := fun t : BonusState => t.gap a = s.gap a) rfl
    (fun t t' holder _ ht h => ?_) h
  refine foldlM_induction (P := fun u : BonusState => u.gap a = s.gap a) ht
    (fun u u' asset hmem hu h => ?_) h
  exact (gap_payHolder (fun h0 => hrates (h0 ▸ hmem)) h a).trans hu

theorem gap_processBonus (h0 : v.headBlockNum ≠ 0)
    (hheight : v.headBlockNum % bonusDistributeBlockNum = 0) (h : processBonus v s = .ok s')
    (a : AssetId) :
    s'.gap a = s.gap a + (if a ∈ s.pools.keys ∧ a ≠ 0 then
      (v.wallfacers.length - wallfacerCount : ℤ) * v.wallfacerShare a else 0) := by
  rw [processBonus, if_neg (by rintro (h | h); exacts [h0 h, h hheight])] at h
  simp only [bind_eq_ok, Prod.exists] at h
  obtain ⟨s₁, rates, h₁, h⟩ := h
  have hrates := rates_foldlM_distributePool (r := (s, [])) List.not_mem_nil h₁
  rw [gap_holders hrates h]
  exact gap_foldlM_distributePool s.pools.keys_nodup h₁ a

/-- **The pools lose what the bonuses gain, exactly if there are fifteen wallfacers or none of them
gets a share.** -/
theorem bonus_conserved_iff (h0 : v.headBlockNum ≠ 0)
    (hheight : v.headBlockNum % bonusDistributeBlockNum = 0) (h : processBonus v s = .ok s') :
    (∀ a, a ≠ 0 → s.pools.amount a - s'.pools.amount a = s'.bonuses a - s.bonuses a) ↔
      v.wallfacers.length = wallfacerCount ∨
        ∀ a ∈ s.pools.keys, a ≠ 0 → v.wallfacerShare a = 0 := by
  have hgap := gap_processBonus h0 hheight h
  simp only [BonusState.gap] at hgap
  constructor
  · intro hall
    refine or_iff_not_imp_left.mpr fun hcount a hmem ha => ?_
    have hsum := hgap a
    have hsame := hall a ha
    rw [if_pos ⟨hmem, ha⟩] at hsum
    have hzero : (v.wallfacers.length - wallfacerCount : ℤ) * v.wallfacerShare a = 0 := by omega
    rcases Int.mul_eq_zero.mp hzero with hdiff | hshare
    · exact absurd (by omega) hcount
    · exact Int.natCast_eq_zero.mp hshare
  · intro hcond a ha
    have hsum := hgap a
    have hzero : (if a ∈ s.pools.keys ∧ a ≠ 0 then
        (v.wallfacers.length - wallfacerCount : ℤ) * v.wallfacerShare a else 0) = 0 := by
      split
      next hmem =>
        rcases hcond with hcount | hshare
        · rw [hcount, Int.sub_self, Int.zero_mul]
        · rw [hshare a hmem.1 ha, Nat.cast_zero, Int.mul_zero]
      next => rfl
    omega

/-- A pool of a thousand units, of which the wallfacers and one holder get something. -/
def onePool (wallfacers : ℕ) : BonusView where
  headBlockNum := 200000
  symbol _ := "BTC"
  wallfacers := List.replicate wallfacers (1, false)
  addr account := some account
  waitingList := [7]
  permanentShare _ := 0
  wallfacerShare _ := 13
  holderShare _ _ := 500

def thousand : BonusState := ⟨(∅ : Book AssetId).insert 3 1000, ∅⟩

theorem bonus_conserved_iff_fifteen :
    ∃ s', processBonus (onePool 15) thousand = .ok s' ∧
      ∀ a, a ≠ 0 → thousand.pools.amount a - s'.pools.amount a =
        s'.bonuses a - thousand.bonuses a := by
  obtain ⟨s', hs'⟩ := exists_eq_ok (x := processBonus (onePool 15) thousand) (by decide +kernel)
  exact ⟨s', hs', (bonus_conserved_iff (v := onePool 15) (by decide) (by decide) hs').mpr
    (.inl (by decide))⟩

/-- **One wallfacer gets thirteen units, and the pool loses fifteen times as many.** -/
theorem bonus_lost :
    (processBonus (onePool 1) thousand).map (fun s => (s.pools.amount 3, s.bonuses 3)) =
        .ok (305, 513) ∧
      thousand.pools.amount 3 - 305 ≠ 513 - thousand.bonuses 3 := by
  decide +kernel

end Whitecoin.Mining
