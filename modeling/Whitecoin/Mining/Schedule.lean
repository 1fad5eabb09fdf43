import Whitecoin.Lib.Draw
import Whitecoin.Mining.State

/-!
# The schedule of a round

At the beginning of every round the weights of the active miners are computed from their totals, and
25 of those that are not blocked are drawn, by weight and without replacement. The candidates and
their weights are in two arrays. A number below the sum of the weights that are left is computed
from a hash; the miner that it points at is scheduled and changes places with the last one that is
left.

The locks in favour of the scheduled miners and the prices of their assets are kept for the round.
-/

namespace Whitecoin.Mining

open Check Ledger Fees

/-! ### Weights -/

/-- An integer, as an unsigned integer with `w` bits. -/
def wide (w : ℕ) (n : ℤ) : ℕ := (n % 2 ^ w).toNat

/-- An amount at a price, in unsigned integers with `w` bits. -/
def worth (w : ℕ) (p : Price) (amount : ℤ) : Except String ℕ := do
  require (wide w p.base.amount ≠ 0) "Division by zero."
  return wide w amount * wide w p.quote.amount % 2 ^ w / wide w p.base.amount

/-- One iteration over the totals of a miner. -/
def addPledge (feed : AssetId → Price) (weight : ℕ) (t : Asset) : Except String ℕ :=
  if t.assetId = 0 then
    .ok (if 0 < t.amount then (weight + wide 128 t.amount) % 2 ^ 128 else weight)
  else if (feed t.assetId).IsNull then .ok weight
  else do return (weight + (← worth 128 (feed t.assetId) t.amount)) % 2 ^ 128

/-- The new weight of a miner. -/
def pledgeWeight (feed : AssetId → Price) (miner : MinerObject) : Except String ℕ :=
  miner.lockbalanceTotal.entries.foldlM (fun weight e => addPledge feed weight e.2)
    (100 * (miner.totalProduced + 1))

def MiningState.feed (s : MiningState) (a : AssetId) : Price := (s.feeds a).currentFeed

/-- The first loop of `update_miner_schedule`. -/
def updateWeights (active : List MinerId) (s : MiningState) : Except String MiningState :=
  active.foldlM (fun s m => do
    return s.setMiner m { s.miners m with pledgeWeight := ← pledgeWeight s.feed (s.miners m) }) s

/-- What a miner is drawn by. -/
def MinerObject.drawWeight (miner : MinerObject) : ℕ :=
  miner.pledgeWeight * miner.participationRate / 100

/-! ### Draws -/

/-- The local function `caluate_slot`. -/
def caluateSlot (vec : List ℕ) (count : ℤ) (value : ℕ) : Except String ℤ :=
  loop count.toNat 0 0
where
  loop : ℕ → ℕ → ℕ → Except String ℤ
  | 0, _, _ => .ok (count - 1)
  | n + 1, i, init => do
    let w ← found vec[i]? "out of range"
    if value < init + w then return i else loop n (i + 1) (init + w)

/-- An element of an array. -/
def elementAt {α : Type} (l : List α) (i : ℤ) : Except String α :=
  if 0 ≤ i then found l[i.toNat]? "out of range" else .error "out of range"

/-- The local variables of the loop that draws. -/
structure DrawState where
  miners : List MinerId
  weights : List ℕ
  totalWeight : ℕ
  currentShuffledMiners : List MinerId

/-- One iteration. -/
def drawOne (r i : ℕ) (d : DrawState) : Except String DrawState := do
  require (d.totalWeight ≠ 0) "Division by zero."
  let j := r % d.totalWeight
  let slot ← caluateSlot d.weights (d.weights.length - i) j
  let miner ← elementAt d.miners slot
  let weight ← elementAt d.weights slot
  let last : ℤ := d.miners.length - 1 - i
  let _ ← elementAt d.miners last
  let _ ← elementAt d.weights last
  return {
    miners := Draw.swapAt d.miners slot.toNat last.toNat
    weights := Draw.swapAt d.weights slot.toNat last.toNat
    totalWeight := d.totalWeight - weight
    currentShuffledMiners := d.currentShuffledMiners ++ [miner] }

/-- The loop, from the iteration `i` on. Each iteration hashes the seed of the next. -/
def drawRounds (hash : ℕ → ℕ) : ℕ → ℕ → ℕ → DrawState → Except String DrawState
  | 0, _, _, d => .ok d
  | n + 1, i, r, d => do drawRounds hash n (i + 1) (hash r) (← drawOne r i d)

/-- `GRAPHENE_PRODUCT_PER_ROUND`. -/
def productPerRound : ℕ := 25

/-- What `update_miner_schedule` reads from the rest of the chain. -/
structure RoundView where
  headBlockNum : ℕ
  activeWitnesses : List MinerId
  /-- The active miners are a set. -/
  active_nodup : activeWitnesses.Nodup
  isBlocked : Address → Bool
  addr : AccountId → Address
  /-- The hash function and the first seed, which are numbers of 256 bits. -/
  hash : ℕ → ℕ
  randSeed : ℕ

variable (v : RoundView)

def RoundView.blocked (s : MiningState) (m : MinerId) : Bool :=
  v.isBlocked (v.addr (s.miners m).minerAccount)

/-- The arrays before the first draw. -/
def candidates (s : MiningState) : DrawState :=
  let miners := v.activeWitnesses.filter fun m => !v.blocked s m
  let weights := miners.map fun m => (s.miners m).drawWeight
  ⟨miners, weights, weights.sum, []⟩

/-! ### The round -/

/-- The locks in favour of a miner. -/
def locksOfMiner (s : MiningState) (m : MinerId) : List LockbalanceObject :=
  (s.locks.entries.filter fun e => e.1.locktoMinerAccount = m).map fun e => ⟨e.1, 0, e.2⟩

/-- The cache of locks, to which every scheduled miner adds its own. -/
def lockbalanceCache (s : MiningState) : MinerId → Option (List LockbalanceObject) :=
  s.currentShuffledMiners.foldl (fun cache m =>
    (locksOfMiner s m).foldl (fun cache lock =>
      Function.update cache m (some ((cache m).getD [] ++ [lock]))) cache) fun _ => none

/-- The prices of the assets in the cache. -/
def roundPrices (s : MiningState) (a : AssetId) : Option Price :=
  if s.currentShuffledMiners.any fun m => (locksOfMiner s m).any fun l => l.key.lockAssetId = a then
    some (s.feed a)
  else none

/-- `database::update_miner_schedule`. -/
def updateMinerSchedule (s : MiningState) : Except String MiningState :=
  if v.headBlockNum % productPerRound = 0 then do
    let s ← updateWeights v.activeWitnesses s
    let d ← drawRounds v.hash productPerRound 0 v.randSeed (candidates v s)
    let s := { s with currentShuffledMiners := d.currentShuffledMiners }
    return { s with
      currentPriceFeed := roundPrices s
      currentRoundLockbalanceCache := lockbalanceCache s }
  else .ok s

/-! ### The slot -/

theorem caluateSlot_loop (vec : List ℕ) (count : ℤ) (value : ℕ) {n i : ℕ}
    (hlength : i + n ≤ vec.length) (hbefore : (vec.take i).sum ≤ value)
    (hvalue : value < (vec.take (i + n)).sum) :
    ∃ k : ℕ, caluateSlot.loop vec count value n i (vec.take i).sum = .ok k ∧ k < i + n ∧
      Draw.Pointed vec value k := by
  -- on the iterations that are left; the value is not reached before
  induction n generalizing i with
  | zero => exact absurd (Nat.lt_of_le_of_lt hbefore hvalue) (Nat.lt_irrefl _)
  | succ n ih =>
    have hi : i < vec.length := by omega
    rw [caluateSlot.loop, List.getElem?_eq_getElem hi]
    show ∃ k : ℕ, (if value < (vec.take i).sum + vec[i] then _ else _) = _ ∧ _
    rw [← List.sum_take_succ vec i hi]
    split
    next hreached => exact ⟨i, rfl, by omega, hi, hbefore, hreached⟩
    next hreached =>
      obtain ⟨k, hk, hlt, hpointed⟩ := ih (i := i + 1) (by omega) (Nat.not_lt.mp hreached)
        (by rwa [Nat.add_right_comm] )
      exact ⟨k, hk, by omega, hpointed⟩

theorem caluateSlot_spec (vec : List ℕ) (count value : ℕ) (hlength : count ≤ vec.length)
    (hvalue : value < (vec.take count).sum) :
    ∃ k : ℕ, caluateSlot vec count value = .ok k ∧ k < count ∧ Draw.Pointed vec value k := by
  have hloop := caluateSlot_loop vec count value (n := count) (i := 0) (by omega) (Nat.zero_le _)
    (by rwa [Nat.zero_add])
  rwa [Nat.zero_add] at hloop

theorem elementAt_natCast {α : Type} (l : List α) (i : ℕ) :
    elementAt l i = found l[i]? "out of range" := by
  rw [elementAt, if_pos (Int.natCast_nonneg i), Int.toNat_natCast]

/-! ### What the arrays hold -/

theorem drawOne_eq {d : DrawState} {r i k last : ℕ} (hpos : d.totalWeight ≠ 0)
    (hslot : caluateSlot d.weights (d.weights.length - i) (r % d.totalWeight) = .ok k)
    (hm : k < d.miners.length) (hw : k < d.weights.length)
    (hlength : d.miners.length = d.weights.length) (hlast : last + i + 1 = d.miners.length) :
    drawOne r i d = .ok {
      miners := Draw.swapAt d.miners k last
      weights := Draw.swapAt d.weights k last
      totalWeight := d.totalWeight - d.weights[k]
      currentShuffledMiners := d.currentShuffledMiners ++ [d.miners[k]] } := by
  have hcast : (d.miners.length : ℤ) - 1 - i = last := by omega
  have hlm : last < d.miners.length := by omega
  have hlw : last < d.weights.length := by omega
  unfold drawOne
  simp only [ok_bind, hslot, hcast, elementAt_natCast, List.getElem?_eq_getElem, hm, hw, hlm, hlw,
    found, Int.toNat_natCast]
  exact bind_eq_ok.mpr ⟨(), require_eq_ok.mpr hpos, rfl⟩

/-- After `i` draws from the candidates `P`: the arrays hold the candidates in some order, those
that were drawn at the end and all of them with a weight, and `total_weight` is the weight of the
rest. -/
structure Drawn (P : List (MinerId × ℕ)) (i : ℕ) (d : DrawState) : Prop where
  length : d.miners.length = d.weights.length
  perm : (d.miners.zip d.weights).Perm P
  total : d.totalWeight = (d.weights.take (d.weights.length - i)).sum
  schedule : d.currentShuffledMiners = (d.miners.drop (d.miners.length - i)).reverse
  positive : ∀ w ∈ d.weights.drop (d.weights.length - i), 0 < w

namespace Drawn

variable {P : List (MinerId × ℕ)} {d : DrawState} {i : ℕ}

theorem weights_perm (h : Drawn P i d) : d.weights.Perm (P.map (·.2)) := by
  have hmap := h.perm.map (·.2)
  rwa [List.map_snd_zip h.length.ge] at hmap

theorem miners_perm (h : Drawn P i d) : d.miners.Perm (P.map (·.1)) := by
  have hmap := h.perm.map (·.1)
  rwa [List.map_fst_zip h.length.le] at hmap

/-- As long as there were more candidates with a weight than were drawn, there is a weight left. -/
theorem total_pos (h : Drawn P i d) (hi : i < (P.map (·.2)).countP (0 < ·)) :
    0 < d.totalWeight := by
  rw [← h.weights_perm.countP_eq, ← List.take_append_drop (d.weights.length - i) d.weights,
    List.countP_append] at hi
  have hdrop := List.countP_le_length (p := (0 < ·)) (l := d.weights.drop (d.weights.length - i))
  rw [List.length_drop] at hdrop
  have hcount : 0 < (d.weights.take (d.weights.length - i)).countP (0 < ·) := by omega
  obtain ⟨w, hw, hpos⟩ := List.countP_pos_iff.mp hcount
  rw [h.total]
  exact List.sum_pos_iff_exists_pos_nat.mpr ⟨w, hw, of_decide_eq_true hpos⟩

theorem swap (h : Drawn P i d) {k last : ℕ} (hk : k ≤ last)
    (hlast : last + i + 1 = d.weights.length) (hpos : ∀ w ∈ d.weights[k]?, 0 < w) :
    ∀ m w, d.miners[k]? = some m → d.weights[k]? = some w → Drawn P (i + 1) {
      miners := Draw.swapAt d.miners k last
      weights := Draw.swapAt d.weights k last
      totalWeight := d.totalWeight - w
      currentShuffledMiners := d.currentShuffledMiners ++ [m] } := by
  intro m w hm hw
  obtain ⟨hkm, rfl⟩ := List.getElem?_eq_some_iff.mp hm
  obtain ⟨hkw, rfl⟩ := List.getElem?_eq_some_iff.mp hw
  have hlength := h.length
  have hlm : last < d.miners.length := by omega
  have hlw : last < d.weights.length := by omega
  have hswapm := Draw.length_swapAt hkm hlm
  have hswapw := Draw.length_swapAt hkw hlw
  -- before and after the draw, the part that is left ends here
  have hold : d.weights.length - i = last + 1 := by omega
  have holdm : d.miners.length - i = last + 1 := by omega
  have hnew : d.weights.length - (i + 1) = last := by omega
  have hnewm : d.miners.length - (i + 1) = last := by omega
  refine ⟨by rw [hswapm, hswapw, hlength], ?_, ?_, ?_, ?_⟩
  · have hkz : k < (d.miners.zip d.weights).length := by rw [List.length_zip]; omega
    have hlz : last < (d.miners.zip d.weights).length := by rw [List.length_zip]; omega
    rw [Draw.zip_swapAt hlength hkm hlm]
    exact (Draw.swapAt_perm hkz hlz).trans h.perm
  · have hsum := (Draw.take_swapAt_perm hk hlw).sum_eq
    rw [List.sum_append, List.sum_singleton] at hsum
    have htotal := h.total
    rw [hold] at htotal
    simp only [hswapw, hnew]
    omega
  · have hschedule := h.schedule
    rw [holdm] at hschedule
    simp only [hswapm, hnewm, Draw.drop_swapAt hk hlm, List.reverse_cons, hschedule]
  · have hpositive := h.positive
    rw [hold] at hpositive
    simp only [hswapw, hnew, Draw.drop_swapAt hk hlw, List.mem_cons]
    rintro w (rfl | hw')
    · exact hpos _ hw
    · exact hpositive w hw'

/-- **One draw**, as long as there is a weight left. -/
theorem drawOne (h : Drawn P i d) (hpos : 0 < d.totalWeight) (r : ℕ) :
    ∃ d', drawOne r i d = .ok d' ∧ Drawn P (i + 1) d' := by
  have hlength : i < d.weights.length := by
    by_contra hi
    rw [h.total, Nat.sub_eq_zero_of_le (Nat.not_lt.mp hi)] at hpos
    exact Nat.lt_irrefl 0 hpos
  -- the slot is one of those that are left
  obtain ⟨k, hslot, hk, hpointed⟩ := caluateSlot_spec d.weights
    (d.weights.length - i) (r % d.totalWeight) (by omega)
    (h.total ▸ Nat.mod_lt r hpos)
  rw [Nat.cast_sub hlength.le] at hslot
  obtain ⟨w, hw, hwpos⟩ := hpointed.pos
  have hkm : k < d.miners.length := h.length ▸ hpointed.below
  obtain ⟨last, hlast⟩ : ∃ last, last + i + 1 = d.weights.length := ⟨_, Nat.sub_add_cancel hlength⟩
  refine ⟨_, drawOne_eq hpos.ne' hslot hkm hpointed.below h.length (h.length ▸ hlast),
    h.swap (by omega) hlast ?_ _ _ (List.getElem?_eq_getElem hkm)
      (List.getElem?_eq_getElem hpointed.below)⟩
  rintro w' hw'
  rw [hw] at hw'
  exact Option.some.inj hw' ▸ hwpos

theorem drawRounds (h : Drawn P i d) (hash : ℕ → ℕ) {n : ℕ}
    (hn : i + n ≤ (P.map (·.2)).countP (0 < ·)) (r : ℕ) :
    ∃ d', drawRounds hash n i r d = .ok d' ∧ Drawn P (i + n) d' := by
  induction n generalizing i r d with
  | zero => exact ⟨d, rfl, h⟩
  | succ n ih =>
    obtain ⟨d₁, hd₁, h₁⟩ := h.drawOne (h.total_pos (by omega)) r
    obtain ⟨d', hd', h'⟩ := ih h₁ (by omega) (hash r)
    refine ⟨d', ?_, by rwa [Nat.add_right_comm] at h'⟩
    rw [Mining.drawRounds, hd₁]
    exact hd'

theorem exists_weight (h : Drawn P i d) {m : MinerId} (hm : m ∈ d.currentShuffledMiners) :
    ∃ w, 0 < w ∧ (m, w) ∈ P := by
  rw [h.schedule, List.mem_reverse] at hm
  obtain ⟨j, hj, rfl⟩ := List.getElem_of_mem hm
  rw [List.getElem_drop]
  have hlength := h.length
  rw [List.length_drop] at hj
  have hjw : d.miners.length - i + j < d.weights.length := by omega
  refine ⟨d.weights[d.miners.length - i + j], h.positive _ ?_, h.perm.mem_iff.mp ?_⟩
  · refine List.mem_iff_getElem.mpr ⟨j, by rw [List.length_drop]; omega, ?_⟩
    simp only [List.getElem_drop, hlength]
  · exact List.mem_iff_getElem.mpr
      ⟨d.miners.length - i + j, by rw [List.length_zip]; omega, List.getElem_zip⟩

theorem length_schedule (h : Drawn P i d) (hi : i ≤ P.length) :
    d.currentShuffledMiners.length = i := by
  have hlength := h.miners_perm.length_eq
  rw [List.length_map] at hlength
  rw [h.schedule, List.length_reverse, List.length_drop]
  omega

theorem nodup_schedule (h : Drawn P i d) (hP : (P.map (·.1)).Nodup) :
    d.currentShuffledMiners.Nodup := by
  rw [h.schedule, List.nodup_reverse]
  exact (h.miners_perm.nodup_iff.mpr hP).sublist (List.drop_sublist ..)

end Drawn

/-! ### The whole function -/

variable {v} {s s' : MiningState}

theorem drawn_candidates :
    Drawn ((candidates v s).miners.map fun m => (m, (s.miners m).drawWeight)) 0
      (candidates v s) where
  length := by simp [candidates]
  perm := by
    rw [List.map_prod_left_eq_zip]
    exact .refl _
  total := by
    rw [Nat.sub_zero, List.take_length]
    rfl
  schedule := by simp [candidates]
  positive := by
    rw [Nat.sub_zero, List.drop_length]
    exact fun w hw => absurd hw List.not_mem_nil

/-- The miners that can be drawn. -/
def drawable (v : RoundView) (s : MiningState) : List MinerId :=
  v.activeWitnesses.filter fun m => !v.blocked s m && decide (0 < (s.miners m).drawWeight)

theorem countP_candidates :
    (((candidates v s).miners.map fun m => (m, (s.miners m).drawWeight)).map (·.2)).countP (0 < ·) =
      (drawable v s).length := by
  rw [List.map_map, List.countP_map, List.countP_eq_length_filter, candidates, drawable,
    List.filter_filter]
  congr 2
  funext m
  exact Bool.and_comm ..

theorem nodup_candidates :
    (((candidates v s).miners.map fun m => (m, (s.miners m).drawWeight)).map (·.1)).Nodup := by
  rw [List.map_map]
  exact (List.map_id _).symm ▸ v.active_nodup.filter _

/-- **The draws of a round.** -/
theorem exists_drawRounds (h : productPerRound ≤ (drawable v s).length) :
    ∃ d, drawRounds v.hash productPerRound 0 v.randSeed (candidates v s) = .ok d ∧
      d.currentShuffledMiners.length = productPerRound ∧ d.currentShuffledMiners.Nodup ∧
      ∀ m ∈ d.currentShuffledMiners, m ∈ drawable v s := by
  obtain ⟨d, hd, hdrawn⟩ := drawn_candidates.drawRounds v.hash (n := productPerRound)
    (by rw [countP_candidates, Nat.zero_add]; exact h) v.randSeed
  rw [Nat.zero_add] at hdrawn
  have hlength : productPerRound ≤
      ((candidates v s).miners.map fun m => (m, (s.miners m).drawWeight)).length := by
    rw [← countP_candidates] at h
    exact h.trans (List.countP_le_length.trans (by rw [List.length_map]))
  refine ⟨d, hd, hdrawn.length_schedule hlength, hdrawn.nodup_schedule nodup_candidates,
    fun m hm => ?_⟩
  obtain ⟨w, hw, hmem⟩ := hdrawn.exists_weight hm
  obtain ⟨m', hm', heq⟩ := List.mem_map.mp hmem
  obtain ⟨rfl, rfl⟩ := Prod.mk.inj heq
  obtain ⟨hactive, hblocked⟩ := List.mem_filter.mp hm'
  exact List.mem_filter.mpr ⟨hactive, Bool.and_eq_true_iff.mpr ⟨hblocked, decide_eq_true hw⟩⟩

/-! ### The weights -/

theorem wide_of_nonneg {w : ℕ} {n : ℤ} (hn : 0 ≤ n) (hw : n < 2 ^ w) : wide w n = n.toNat := by
  rw [wide, Int.emod_eq_of_lt hn hw]

theorem wide_amount {w : ℕ} (hw : 128 ≤ w) {a : Asset} (ha : 0 ≤ a.amount) :
    wide w a.amount = a.amount.toNat := by
  refine wide_of_nonneg ha (Int.lt_of_le_of_lt a.fits.2 ?_)
  have : (2 : ℤ) ^ 128 ≤ 2 ^ w := pow_le_pow_right₀ (by decide) hw
  unfold Safe.max
  omega

theorem exists_pledgeWeight (hp : Priced s) (miner : MinerObject) :
    ∃ w, pledgeWeight s.feed miner = .ok w := by
  have hstep : ∀ weight, ∀ t : Asset, ∃ w, addPledge s.feed weight t = .ok w := by
    intro weight t
    unfold addPledge
    split
    next => exact ⟨_, rfl⟩
    split
    next => exact ⟨_, rfl⟩
    next hnull =>
      obtain hcurrent | ⟨hbase, -⟩ := hp.current t.assetId
      · exact absurd (by rw [MiningState.feed, hcurrent]; exact ⟨rfl, rfl⟩) hnull
      · have hpos : 0 < (s.feed t.assetId).base.amount := hbase
        have hwide : wide 128 (s.feed t.assetId).base.amount ≠ 0 := by
          rw [wide_amount (Nat.le_refl _) hpos.le]
          omega
        exact ⟨_, bind_eq_ok.mpr ⟨_, bind_eq_ok.mpr ⟨(), require_eq_ok.mpr hwide, rfl⟩, rfl⟩⟩
  obtain ⟨w, hw, -⟩ := exists_foldlM_eq_ok (P := fun _ => True) (l := miner.lockbalanceTotal.entries)
    (fun weight e _ _ => (hstep weight e.2).imp fun _ h => ⟨h, trivial⟩) trivial
  exact ⟨w, hw⟩

theorem exists_updateWeights (hp : Priced s) (active : List MinerId) :
    ∃ s', updateWeights active s = .ok s' := by
  refine (exists_foldlM_eq_ok (P := Priced) (fun s' m _ hp' => ?_) hp).imp fun _ h => h.1
  obtain ⟨w, hw⟩ := exists_pledgeWeight hp' (s'.miners m)
  exact ⟨_, bind_eq_ok.mpr ⟨w, hw, rfl⟩, hp'.published, hp'.current⟩

/-- **A round has 25 different producers.** With prices that were published, the weights of the
active miners are computed. If 25 of the active miners are not blocked and have a weight, the update
returns, and the schedule has 25 different miners, each of them active, not blocked and with a
weight. -/
theorem schedule_distinct (hround : v.headBlockNum % productPerRound = 0) :
    (Priced s → ∃ s₁, updateWeights v.activeWitnesses s = .ok s₁) ∧
    ∀ s₁, updateWeights v.activeWitnesses s = .ok s₁ →
      productPerRound ≤ (drawable v s₁).length →
      ∃ s', updateMinerSchedule v s = .ok s' ∧ s'.miners = s₁.miners ∧
        s'.currentShuffledMiners.length = productPerRound ∧ s'.currentShuffledMiners.Nodup ∧
        ∀ m ∈ s'.currentShuffledMiners, m ∈ v.activeWitnesses ∧ v.blocked s' m = false ∧
          0 < (s'.miners m).drawWeight := by
  refine ⟨fun hp => exists_updateWeights hp v.activeWitnesses, fun s₁ hs₁ h => ?_⟩
  obtain ⟨d, hd, hlength, hnodup, hmem⟩ := exists_drawRounds h
  obtain ⟨s', hs', hminers, hschedule⟩ : ∃ s', updateMinerSchedule v s = .ok s' ∧
      s'.miners = s₁.miners ∧ s'.currentShuffledMiners = d.currentShuffledMiners := by
    rw [updateMinerSchedule, if_pos hround, hs₁, ok_bind, hd, ok_bind]
    exact ⟨_, rfl, rfl, rfl⟩
  refine ⟨s', hs', hminers, by rw [hschedule, hlength], hschedule ▸ hnodup, fun m hm => ?_⟩
  obtain ⟨hactive, hm⟩ := List.mem_filter.mp (hmem m (hschedule ▸ hm))
  obtain ⟨hblocked, hweight⟩ := Bool.and_eq_true_iff.mp hm
  rw [RoundView.blocked, hminers]
  exact ⟨hactive, (Bool.not_eq_true' _).mp hblocked, of_decide_eq_true hweight⟩

/-- As many letters as the number of the asset. -/
def unarySymbol (a : AssetId) : String := String.ofList (List.replicate a 'A')

theorem unarySymbol_injective : Function.Injective unarySymbol := by
  intro a b h
  have hlength := congrArg (fun s : String => s.toList.length) h
  simpa [unarySymbol] using hlength

/-- A chain with miners that produced nothing, without locks and prices. -/
def blankMining : MiningState where
  accounts := ⟨fun _ _ => none, fun _ => 0⟩
  miners m := ⟨m, 0, ∅, 100, 100⟩
  locks := ∅
  records _ _ := 0
  symbol := unarySymbol
  symbol_injective := unarySymbol_injective
  feeds _ := ⟨∅, .null⟩
  currentShuffledMiners := []
  currentRoundLockbalanceCache _ := none
  currentPriceFeed _ := none
  payBacks := ∅

/-- The first 30 miners are active, and one of them is blocked. -/
def thirtyMiners : RoundView where
  headBlockNum := 50
  activeWitnesses := List.range 30
  active_nodup := List.nodup_range
  isBlocked addr := addr = 7
  addr account := account
  hash r := (r * 7 + 3) % 1000
  randSeed := 11

theorem schedule_distinct_thirty :
    thirtyMiners.headBlockNum % productPerRound = 0 ∧ Priced blankMining ∧
    ∃ s', updateMinerSchedule thirtyMiners blankMining = .ok s' ∧
      s'.currentShuffledMiners.length = 25 ∧ s'.currentShuffledMiners.Nodup := by
  have hp : Priced blankMining := ⟨fun a e he => absurd he List.not_mem_nil, fun _ => .inl rfl⟩
  obtain ⟨hweights, hschedule⟩ := schedule_distinct (v := thirtyMiners) (s := blankMining) rfl
  obtain ⟨s₁, hs₁⟩ := hweights hp
  have hdrawable : productPerRound ≤ (drawable thirtyMiners s₁).length := by
    have hrun : (updateWeights thirtyMiners.activeWitnesses blankMining).map
        (fun s => decide (productPerRound ≤ (drawable thirtyMiners s).length)) = .ok true := by
      decide +kernel
    rw [hs₁] at hrun
    exact of_decide_eq_true (Except.ok.inj hrun)
  obtain ⟨s', hs', -, hlength, hnodup, -⟩ := hschedule s₁ hs₁ hdrawable
  exact ⟨rfl, hp, s', hs', hlength, hnodup⟩

end Whitecoin.Mining
