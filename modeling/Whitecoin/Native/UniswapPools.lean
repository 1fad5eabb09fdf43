import Whitecoin.Lib.LiquidityPool
import Whitecoin.Native.UniswapAmounts
import Whitecoin.Native.UniswapCalls

/-!
# Pools and liquidity tokens

A swap does not lower the product of the pools, whatever the storage holds. Adding and removing
liquidity keeps the claim of a token on both pools, and keeps the supply, the pools and the tokens
of the users coherent, as long as the share of the second asset is converted correctly and sums stay
in range.

The share of the second asset is a quotient that `to_int64` cuts to 63 bits: from `2 ^ 62` on it can
become negative or small. A deposit that is 4096 times the first pool suffices if the second pool
has `2 ^ 50` units.
-/

namespace Whitecoin.Native

open Check Cbor

namespace Uniswap

variable {numerals : Numerals} {caller : Address} {o o' : Overlay} {p : Pools} {a b : Amounts}

/-! ### Swaps -/

/-- **The product of the pools does not shrink.** -/
theorem Sold.product {amount get p1 p2 q1 q2 : Int64} (h : Sold amount get p1 p2 q1 q2) :
    q1.toInt = p1.toInt + amount.toInt ∧ q2.toInt = p2.toInt - get.toInt ∧
      p1.toInt * p2.toInt ≤ q1.toInt * q2.toInt := by
  obtain ⟨⟨hp1, hp2⟩, ⟨fee, hfee, hlt, hprice⟩, hget, rfl, rfl, ⟨hq1, hq2⟩⟩ := h
  have hamount := amount.toInt_lt
  have hlt1 := p1.toInt_lt
  have hlt2 := p2.toInt_lt
  have hinput : (amount - fee).toInt = amount.toInt - fee.toInt :=
    Word.toInt_sub_of_le (by omega) (by omega)
  obtain ⟨x, hx⟩ := Int.eq_ofNat_of_zero_le (show 0 ≤ (amount - fee).toInt by omega)
  obtain ⟨m, hm⟩ := Int.eq_ofNat_of_zero_le hp1.le
  obtain ⟨n, hn⟩ := Int.eq_ofNat_of_zero_le hp2.le
  obtain ⟨hbound, hle⟩ := getInputPrice_eq_ok hx hm hn (by omega) hprice hget
  rw [← hm, ← hn, ← hx] at hbound
  rw [← hn] at hle
  -- a sum that wraps around is negative, and was refused
  have hsum : (p1 + amount).toInt = p1.toInt + amount.toInt := by
    rw [Int64.toInt_add, Int.bmod_def] at hq1 ⊢
    omega
  have hdiff : (p2 - get).toInt = p2.toInt - get.toInt := Word.toInt_sub_of_le (by omega) (by omega)
  refine ⟨hsum, hdiff, ?_⟩
  rw [hsum, hdiff]
  exact LiquidityPool.mul_le_mul_of_swap (by omega) hle hbound

/-- **Swaps never lose pool value.** -/
theorem product_kept {s s' : Storage} {call : Invocation} {r : Receipt} {amount : Int64}
    {symbol param : Text} (hapi : call.api = .onDepositAsset amount symbol param)
    (hparam : param ≠ []) (hcall : invoke numerals call s = .ok (r, s')) :
    pool1 s.view * pool2 s.view ≤ pool1 s'.view * pool2 s'.view ∧
      0 < pool1 s'.view ∧ 0 < pool2 s'.view := by
  obtain ⟨o', ho', rfl⟩ := invoke_eq_ok hcall
  rw [execute, hapi] at ho'
  obtain ⟨-, -, ⟨hnil, -⟩ | ⟨-, want, get, p1, p2, q1, q2, -, h⟩⟩ := onDepositAsset_eq_ok ho'
  · exact absurd hnil hparam
  obtain ⟨hq1, hq2⟩ := h.pools_after
  have hafter := h.after
  have heq1 : pool1 o'.current.view = q1.toInt := by rw [← Token.orZero, ← hq1]; rfl
  have heq2 : pool2 o'.current.view = q2.toInt := by rw [← Token.orZero, ← hq2]; rfl
  rw [pool1, pool2, h.pool1, h.pool2, heq1, heq2]
  refine ⟨?_, hafter⟩
  rcases h.sold with ⟨-, -, hsold⟩ | ⟨-, -, hsold⟩
  · exact hsold.product.2.2
  · have hproduct := hsold.product.2.2
    rwa [mul_comm, mul_comm q2.toInt] at hproduct

/-! ### Coherence -/

/-- The pools and the supply are all zero or all positive. -/
def Pools.Unified (p : Pools) : Prop :=
  (p.pool1.toInt = 0 ∧ p.pool2.toInt = 0 ∧ p.supply.toInt = 0) ∨
    (0 < p.pool1.toInt ∧ 0 < p.pool2.toInt ∧ 0 < p.supply.toInt)

/-- The supply is the sum of the tokens, which are not negative, and the pools fit to it. -/
structure Coherent (o : Overlay) : Prop where
  users : Token.UsersOk o
  allowed : Token.AllowedOk o
  backed : Token.Backed o
  pools : ∃ p, Reads o p ∧ p.Unified

/-- **The condition on calls that add liquidity**: the new pools and the new supply are in range,
and the share of the second asset is below a limit. -/
def Fits (limit : ℤ) (st : Step) : Prop :=
  match st.receipt with
  | .added x c t =>
    pool1 st.before.view + x.toInt < 2 ^ 63 ∧ pool2 st.before.view + c.toInt < 2 ^ 63 ∧
      supply st.before.view + t.toInt < 2 ^ 63 ∧
      (pool1 st.before.view ≠ 0 → x.toInt * pool2 st.before.view < limit * pool1 st.before.view)
  | _ => True

instance (limit : ℤ) : DecidablePred (Fits limit) := fun ⟨_, _, r, _⟩ =>
  match r with
  | .added .. => inferInstanceAs (Decidable (_ ∧ _ ∧ _ ∧ _))
  | .none | .removed .. | .deposited .. | .swapped .. | .withdrawn .. =>
    inferInstanceAs (Decidable True)

theorem Added.nonneg2 (h : Added caller p a b o o') (hp : p.Unified)
    (hlt : p.pool1.toInt ≠ 0 → a.asset1.toInt * p.pool2.toInt < 2 ^ 62 * p.pool1.toInt) :
    0 ≤ a.asset2.toInt ∧ (p.pool2.toInt = 0 → 0 < a.asset2.toInt) := by
  obtain ⟨max2, hmax2, hc⟩ := h.amount2
  have hzero : ∀ {n : Int64}, n ≠ 0 ↔ n.toInt ≠ 0 := fun {n} => by
    rw [ne_eq, ne_eq, ← Int64.toInt_inj, Int64.toInt_zero]
  unfold addedAsset2 at hc
  split_ifs at hc with hne
  · rw [hzero, hzero] at hne
    rcases hp with ⟨h0, -, -⟩ | ⟨hp1, hp2, -⟩
    · exact absurd h0 hne.1
    simp only [bind_eq_ok, require_eq_ok, exists_const, pure_eq_ok] at hc
    obtain ⟨c, hc, -, heq⟩ := hc
    rw [heq] at hc
    obtain ⟨x, hx⟩ := Int.eq_ofNat_of_zero_le h.pos.le
    obtain ⟨m, hm⟩ := Int.eq_ofNat_of_zero_le hp1.le
    obtain ⟨n, hn⟩ := Int.eq_ofNat_of_zero_le hp2.le
    have hlt := hlt hne.1
    rw [hx, hm, hn] at hlt
    obtain ⟨hle, -⟩ := caculateAsset2_eq_ok hx hm hn (by omega) (by exact_mod_cast hlt) hc
    exact ⟨(Int.natCast_nonneg _).trans hle, fun h0 => absurd h0 hne.2⟩
  · obtain heq := pure_eq_ok.mp hc
    rw [← heq]
    exact ⟨hmax2.le, fun _ => hmax2⟩

/-- **Tokens are minted for at least their share** of both pools. -/
theorem Added.share (h : Added caller p a b o o') (hp1 : 0 < p.pool1.toInt)
    (hp2 : 0 < p.pool2.toInt) (hs : 0 < p.supply.toInt)
    (hsum : p.pool1.toInt + a.asset1.toInt < 2 ^ 63)
    (hlt : a.asset1.toInt * p.pool2.toInt < 10 ^ 16 * p.pool1.toInt) :
    a.token.toInt * p.pool1.toInt ≤ a.asset1.toInt * p.supply.toInt ∧
      a.token.toInt * p.pool2.toInt ≤ a.asset2.toInt * p.supply.toInt := by
  obtain ⟨max2, -, hc⟩ := h.amount2
  have hpos := h.pos
  have hmax := h.max
  rw [Word.toInt_add_of_lt (by omega) hsum, show maxAssetAmount.toInt = 4000000000000000 from rfl]
    at hmax
  have hne : p.pool1 ≠ 0 ∧ p.pool2 ≠ 0 := by
    constructor
    · intro h0
      rw [h0] at hp1
      exact absurd hp1 (by decide)
    · intro h0
      rw [h0] at hp2
      exact absurd hp2 (by decide)
  rw [addedAsset2, if_pos hne] at hc
  simp only [bind_eq_ok, require_eq_ok, exists_const, pure_eq_ok] at hc
  obtain ⟨c, hc, -, heq⟩ := hc
  rw [heq] at hc
  obtain ⟨x, hx⟩ := Int.eq_ofNat_of_zero_le hpos.le
  obtain ⟨m, hm⟩ := Int.eq_ofNat_of_zero_le hp1.le
  obtain ⟨n, hn⟩ := Int.eq_ofNat_of_zero_le hp2.le
  obtain ⟨k, hk⟩ := Int.eq_ofNat_of_zero_le hs.le
  rw [hx, hm, hn] at hlt
  have hlt16 : x * n < 10 ^ 16 * m := by exact_mod_cast hlt
  obtain ⟨-, hbound⟩ := caculateAsset2_eq_ok hx hm hn (by omega) (by omega) hc
  have htoken := mintedToken_eq_ok hx hm hk (by omega) h.token h.token_pos
  have hshare := hbound (by omega) hlt16
  push_cast at hshare
  rw [← hx, ← hm, ← hk] at htoken
  rw [← hx, ← hm, ← hn] at hshare
  refine ⟨htoken, le_of_mul_le_mul_right ?_ hp1⟩
  calc a.token.toInt * p.pool2.toInt * p.pool1.toInt
      = a.token.toInt * p.pool1.toInt * p.pool2.toInt := by ring
    _ ≤ a.asset1.toInt * p.supply.toInt * p.pool2.toInt := mul_le_mul_of_nonneg_right htoken hp2.le
    _ = a.asset1.toInt * p.pool2.toInt * p.supply.toInt := by ring
    _ ≤ a.asset2.toInt * p.pool1.toInt * p.supply.toInt := mul_le_mul_of_nonneg_right hshare hs.le
    _ = a.asset2.toInt * p.supply.toInt * p.pool1.toInt := by ring

/-- The pools and the supply after liquidity was added. -/
structure Grown (p : Pools) (a : Amounts) : Prop where
  pool1 : (p.pool1 + a.asset1).toInt = p.pool1.toInt + a.asset1.toInt
  pool2 : (p.pool2 + a.asset2).toInt = p.pool2.toInt + a.asset2.toInt
  supply : (p.supply + a.token).toInt = p.supply.toInt + a.token.toInt
  pos : 0 < (p.pool1 + a.asset1).toInt ∧ 0 < (p.pool2 + a.asset2).toInt ∧
    0 < (p.supply + a.token).toInt

theorem Added.grown (h : Added caller p a b o o') (hp : p.Unified)
    (hpool1 : p.pool1.toInt + a.asset1.toInt < 2 ^ 63)
    (hpool2 : p.pool2.toInt + a.asset2.toInt < 2 ^ 63)
    (hsupply : p.supply.toInt + a.token.toInt < 2 ^ 63)
    (hlt : p.pool1.toInt ≠ 0 → a.asset1.toInt * p.pool2.toInt < 2 ^ 62 * p.pool1.toInt) :
    Grown p a := by
  obtain ⟨hnonneg, hpos⟩ := h.nonneg2 hp hlt
  have hx := h.pos
  have ht := h.token_pos
  have hle : 0 ≤ p.pool1.toInt ∧ 0 ≤ p.pool2.toInt ∧ 0 ≤ p.supply.toInt := by
    rcases hp with ⟨h1, h2, h3⟩ | ⟨h1, h2, h3⟩ <;> omega
  have hpos2 : 0 < p.pool2.toInt + a.asset2.toInt := by
    rcases hle.2.1.eq_or_lt with h0 | h0
    · have := hpos h0.symm
      omega
    · omega
  have hsum1 := Word.toInt_add_of_lt (by omega) hpool1
  have hsum2 := Word.toInt_add_of_lt (by omega) hpool2
  have hsum := Word.toInt_add_of_lt (by omega) hsupply
  exact ⟨hsum1, hsum2, hsum, by omega, by omega, by omega⟩

theorem Removed.bounds (h : Removed caller p a b o o') (hu : Token.UsersOk o)
    (htotal : HasTotal (Token.balance o) p.supply.toInt) :
    a.token.toInt ≤ p.supply.toInt ∧
      (a.asset1.toInt * p.supply.toInt ≤ a.token.toInt * p.pool1.toInt ∧
        a.asset1.toInt ≤ p.pool1.toInt) ∧
      a.asset2.toInt * p.supply.toInt ≤ a.token.toInt * p.pool2.toInt ∧
        a.asset2.toInt ≤ p.pool2.toInt := by
  have hle := htotal.le hu.nonneg caller
  rw [Token.balance_of_eq h.balance] at hle
  have hts := h.enough.trans hle
  obtain ⟨t, ht⟩ := Int.eq_ofNat_of_zero_le h.token_pos.le
  obtain ⟨k, hk⟩ := Int.eq_ofNat_of_zero_le h.supply_pos.le
  obtain ⟨m, hm⟩ := Int.eq_ofNat_of_zero_le h.pool1_pos.le
  obtain ⟨n, hn⟩ := Int.eq_ofNat_of_zero_le h.pool2_pos.le
  have hspos := h.supply_pos
  have hbounds := removedAmounts_eq_ok ht hk hm hn (by omega) (by omega) h.amounts h.nonneg1 h.nonneg2
  rw [← ht, ← hk, ← hm, ← hn] at hbounds
  exact ⟨hts, hbounds⟩

/-- The pools and the supply after liquidity was removed. -/
structure Shrunk (p : Pools) (a : Amounts) : Prop where
  pool1 : (p.pool1 - a.asset1).toInt = p.pool1.toInt - a.asset1.toInt
  pool2 : (p.pool2 - a.asset2).toInt = p.pool2.toInt - a.asset2.toInt
  supply : (p.supply - a.token).toInt = p.supply.toInt - a.token.toInt
  nonneg : 0 ≤ (p.pool1 - a.asset1).toInt ∧ 0 ≤ (p.pool2 - a.asset2).toInt ∧
    0 ≤ (p.supply - a.token).toInt

theorem Removed.shrunk (h : Removed caller p a b o o') (hu : Token.UsersOk o)
    (htotal : HasTotal (Token.balance o) p.supply.toInt) : Shrunk p a := by
  obtain ⟨hts, ⟨-, hle1⟩, -, hle2⟩ := h.bounds hu htotal
  have h1 := h.nonneg1
  have h2 := h.nonneg2
  have ht := h.token_pos
  have hlt1 := p.pool1.toInt_lt
  have hlt2 := p.pool2.toInt_lt
  have hlt := p.supply.toInt_lt
  have hdiff1 : (p.pool1 - a.asset1).toInt = p.pool1.toInt - a.asset1.toInt :=
    Word.toInt_sub_of_le (by omega) (by omega)
  have hdiff2 : (p.pool2 - a.asset2).toInt = p.pool2.toInt - a.asset2.toInt :=
    Word.toInt_sub_of_le (by omega) (by omega)
  have hdiff : (p.supply - a.token).toInt = p.supply.toInt - a.token.toInt :=
    Word.toInt_sub_of_le (by omega) (by omega)
  exact ⟨hdiff1, hdiff2, hdiff, by omega, by omega, by omega⟩

theorem Coherent.total (h : Coherent o) (hreads : Reads o p) :
    HasTotal (Token.balance o) p.supply.toInt := by
  obtain ⟨supply, hsupply, htotal⟩ := h.backed
  obtain rfl := Except.ok.inj (hsupply.symm.trans hreads.supply)
  exact htotal

theorem Coherent.unified (h : Coherent o) (hreads : Reads o p) : p.Unified := by
  obtain ⟨q, hq, hunified⟩ := h.pools
  exact hreads.unique hq ▸ hunified

variable {q : Pools} {Meets : Step → Prop} {reached : List Step × Storage}

theorem Coherent.writes (h : Coherent o) {b' : Amounts} {token : ℤ} (hreads : Reads o p)
    (hbalance : Token.balanceOf o caller = .ok b.token) (hwrites : Writes caller q b' o o')
    (hq : Reads o' q) (hunified : q.Unified) (hsupply : q.supply.toInt = p.supply.toInt + token)
    (htoken : b'.token.toInt = b.token.toInt + token) (hnonneg : 0 ≤ b'.token.toInt) :
    Coherent o' := by
  obtain ⟨hu, hbal, hallowed⟩ := hwrites.tokens h.users hnonneg
  refine ⟨hu, fun owner => ?_, ⟨q.supply, hq.supply, ?_⟩, q, hq, hunified⟩
  · rw [hallowed]
    exact h.allowed owner
  · have htotal := (h.total hreads).update (caller : Text) b'.token.toInt
    rw [Token.balance_of_eq hbalance,
      show p.supply.toInt - b.token.toInt + b'.token.toInt = q.supply.toInt by omega] at htotal
    rwa [hbal]

theorem Coherent.balance_le (h : Coherent o) (hreads : Reads o p)
    (hbalance : Token.balanceOf o caller = .ok b.token) :
    0 ≤ b.token.toInt ∧ b.token.toInt ≤ p.supply.toInt := by
  have hnonneg := h.users.nonneg caller
  have hle := (h.total hreads).le h.users.nonneg caller
  rw [Token.balance_of_eq hbalance] at hnonneg hle
  exact ⟨hnonneg, hle⟩

theorem Coherent.added (h : Coherent o) (hadded : Added caller p a b o o') (hgrown : Grown p a) :
    Coherent o' ∧ Reads o' { p with
      pool1 := p.pool1 + a.asset1, pool2 := p.pool2 + a.asset2, supply := p.supply + a.token } := by
  obtain ⟨-, -, hsupply, hpos1, hpos2, hpos⟩ := hgrown
  have hreads := hadded.writes.reads hadded.reads.asset1 hadded.reads.asset2 hpos1.le hpos2.le hpos.le
  obtain ⟨hnonneg, hle⟩ := h.balance_le hadded.reads hadded.balance
  have hlt := (p.supply + a.token).toInt_lt
  have htoken := hadded.token_pos
  have hsum : (b.token + a.token).toInt = b.token.toInt + a.token.toInt :=
    Word.toInt_add_of_lt (by omega) (by omega)
  refine ⟨h.writes hadded.reads hadded.balance hadded.writes hreads (.inr ⟨hpos1, hpos2, hpos⟩)
    hsupply hsum ?_, hreads⟩
  show 0 ≤ (b.token + a.token).toInt
  omega

theorem Coherent.removed (h : Coherent o) (hremoved : Removed caller p a b o o') :
    Coherent o' ∧ Reads o' { p with
      pool1 := p.pool1 - a.asset1, pool2 := p.pool2 - a.asset2, supply := p.supply - a.token } := by
  obtain ⟨-, -, hsupply, hnonneg1, hnonneg2, hnonneg⟩ :=
    hremoved.shrunk h.users (h.total hremoved.reads)
  have hreads := hremoved.writes.reads hremoved.reads.asset1 hremoved.reads.asset2 hnonneg1 hnonneg2
    hnonneg
  have henough := hremoved.enough
  have htoken := hremoved.token_pos
  have hlt := b.token.toInt_lt
  have hdiff : (b.token - a.token).toInt = b.token.toInt - a.token.toInt :=
    Word.toInt_sub_of_le (by omega) (by omega)
  have hzero : ∀ {n : Int64}, n = 0 ↔ n.toInt = 0 := fun {n} => by
    rw [← Int64.toInt_inj, Int64.toInt_zero]
  have hunified := hremoved.unified
  simp only [ne_eq, hzero] at hunified
  refine ⟨h.writes hremoved.reads hremoved.balance hremoved.writes hreads ?_
    (hsupply.trans (sub_eq_add_neg ..)) (hdiff.trans (sub_eq_add_neg ..)) ?_, hreads⟩
  · rcases hunified with hunified | ⟨h1, h2, h3⟩
    · exact .inl hunified
    · exact .inr ⟨hnonneg1.lt_of_ne' h1, hnonneg2.lt_of_ne' h2, hnonneg.lt_of_ne' h3⟩
  · show 0 ≤ (b.token - a.token).toInt
    omega

theorem Coherent.sameTokens (h : Coherent o) (hsame : o.SameTokens o') (hreads : Reads o p)
    (hq : Reads o' q) (hsupply : q.supply = p.supply) (hunified : q.Unified) : Coherent o' := by
  refine ⟨hsame.usersOk h.users, fun owner => ?_, ⟨q.supply, hq.supply, ?_⟩, q, hq, hunified⟩
  · rw [hsame.allowedOf]
    exact h.allowed owner
  · rw [hsame.balance, hsupply]
    exact h.total hreads

theorem Coherent.tokensOnly (h : Coherent o) (hsound : Token.Inited o') (honly : TokensOnly o o') :
    Coherent o' := by
  obtain ⟨p, hreads, hunified⟩ := h.pools
  exact ⟨hsound.users, hsound.allowed, hsound.backed hsound.state, p, hreads.frame honly.1, hunified⟩

theorem Coherent.sound (h : Coherent o) (hstate : o.getString (text "state") = .ok Token.common) :
    Token.Sound o :=
  ⟨h.users, h.allowed, .inr ⟨hstate, h.backed⟩⟩

/-! ### Runs -/

section runs

variable {limit : ℤ} {s s' : Storage} {call : Invocation} {x c t : Int64}

theorem Fits.grown (hfits : Fits limit ⟨s, call, .added x c t, s'⟩) (hlimit : limit ≤ 2 ^ 62)
    (hp : p.Unified) (h : Added caller p ⟨x, c, t⟩ b s.view o') :
    Grown p ⟨x, c, t⟩ ∧ (p.pool1.toInt ≠ 0 → x.toInt * p.pool2.toInt < limit * p.pool1.toInt) := by
  obtain ⟨hpool1, hpool2, hsupply, hlt⟩ := hfits
  rw [h.reads.pool1_eq] at hpool1 hlt
  rw [h.reads.pool2_eq] at hpool2 hlt
  rw [h.reads.supply_eq] at hsupply
  refine ⟨h.grown hp hpool1 hpool2 hsupply fun hne => (hlt hne).trans_le ?_, hlt⟩
  refine mul_le_mul_of_nonneg_right hlimit ?_
  rcases hp with ⟨h0, -, -⟩ | ⟨hpos, -, -⟩
  · exact h0.ge
  · exact hpos.le

/-- **Coherence after a call.** -/
theorem Coherent.execute {r : Receipt} (h : Coherent s.view)
    (hcall : execute numerals call s.view = .ok (r, o'))
    (hfits : Fits limit ⟨s, call, r, s'⟩) (hlimit : limit ≤ 2 ^ 62) : Coherent o' := by
  obtain ⟨p, hreads, hunified⟩ := h.pools
  obtain ⟨api, caller, head, pays⟩ := call
  cases api
  all_goals simp only [Uniswap.execute, bind_eq_ok, pure_eq_ok, Prod.exists, Prod.mk.injEq] at hcall
  case initConfig =>
    obtain ⟨o₁, hconfig, rfl, rfl⟩ := hcall
    obtain ⟨-, -, hsame, _, _, -, hreads'⟩ := initConfig_eq_ok hconfig hreads
    exact h.sameTokens hsame.tokens hreads hreads' rfl hunified
  case setMinAddAmount =>
    obtain ⟨o₁, hmin, rfl, rfl⟩ := hcall
    obtain ⟨hsame, hreads', -⟩ := setMinAddAmount_eq_ok hmin
    exact h.sameTokens hsame.tokens hreads (hreads' p hreads) rfl hunified
  case addLiquidity =>
    obtain ⟨x, c, t, o₁, hadd, rfl, rfl⟩ := hcall
    obtain ⟨q, b, hadded⟩ := addLiquidity_eq_ok hadd
    obtain ⟨hgrown, -⟩ := hfits.grown hlimit (h.unified hadded.reads) hadded
    exact (h.added hadded hgrown).1
  case removeLiquidity =>
    obtain ⟨x, c, t, o₁, hremove, rfl, rfl⟩ := hcall
    obtain ⟨q, b, hremoved⟩ := removeLiquidity_eq_ok hremove
    exact (h.removed hremoved).1
  case onDepositAsset =>
    obtain ⟨-, -, ⟨-, rfl, hcredit⟩ | ⟨-, want, get, p1, p2, q1, q2, rfl, hswap⟩⟩ :=
      onDepositAsset_eq_ok hcall
    · obtain ⟨_, -, hset⟩ := Overlay.credit_eq_ok hcredit
      exact h.sameTokens (Overlay.sameTokens_setEntry hset) hreads
        (hreads.frame (Overlay.frame_setEntry hset)) rfl hunified
    · have hsame := Overlay.sameEntries_setAll hswap.writes (by decide : ∀ name ∈ poolNames.take 2, _)
      refine h.sameTokens hsame.tokens hreads (hswap.reads hreads) rfl
        (.inr ⟨hswap.after.1, hswap.after.2, ?_⟩)
      obtain rfl := Except.ok.inj (hswap.pool1.symm.trans hreads.pool1)
      rcases hunified with ⟨h0, -, -⟩ | ⟨-, -, hpos⟩
      · exact absurd h0 hswap.before.1.ne'
      · exact hpos
  case withdraw =>
    obtain ⟨_, -, symbol, amount, o₁, hwithdraw, rfl, rfl⟩ := hcall
    obtain ⟨_, -, -, -, hset⟩ := withdraw_eq_ok hwithdraw
    exact h.sameTokens (Overlay.sameTokens_setEntry hset) hreads
      (hreads.frame (Overlay.frame_setEntry hset)) rfl hunified
  case transfer =>
    obtain ⟨o₁, ht, rfl, rfl⟩ := hcall
    have hsound := h.sound (Token.transfer_eq_ok ht).1
    exact h.tokensOnly (hsound.transfer ht) (tokensOnly_transfer ht)
  case approve =>
    obtain ⟨o₁, ht, rfl, rfl⟩ := hcall
    have hsound := h.sound (Token.approve_eq_ok ht).1
    exact h.tokensOnly (hsound.approve ht) (tokensOnly_approve ht)
  case transferFrom =>
    obtain ⟨o₁, ht, rfl, rfl⟩ := hcall
    have hsound := h.sound (Token.transferFrom_eq_ok ht).1
    exact h.tokensOnly (hsound.transferFrom ht).1 (tokensOnly_transferFrom ht)

theorem coherent_init (h : init caller (Storage.view .empty) = .ok o) : Coherent o := by
  obtain ⟨hreads, -, hnull⟩ := reads_init h
  have hbalance : ∀ owner, Token.balanceOf o owner = .ok 0 := fun owner => by
    rw [Token.balanceOf, Overlay.fastMapGet, fastMapKey_eq_entryKey, hnull]
    rfl
  refine ⟨fun owner => ⟨0, hbalance owner, le_rfl⟩, fun owner => ⟨[], ?_, List.Pairwise.nil, by simp⟩,
    ⟨0, hreads.supply, ?_⟩, _, hreads, .inl ⟨rfl, rfl, rfl⟩⟩
  · rw [Token.allowedOf, Overlay.fastMapGet, fastMapKey_eq_entryKey, hnull]
    rfl
  · rw [show Token.balance o = fun _ => 0 from
      funext fun owner => (Token.balance_of_eq (hbalance owner)).trans Int64.toInt_zero]
    exact .zero

theorem Coherent.view (h : Coherent o) : Coherent o.current.view := by
  obtain ⟨p, hreads, hunified⟩ := h.pools
  exact ⟨h.users, h.allowed, h.backed, p, ⟨hreads.1, hreads.2, hreads.3, hreads.4, hreads.5⟩, hunified⟩

theorem Runs.coherent {steps : List Step} (h : Runs numerals (Fits limit) s steps)
    (hlimit : limit ≤ 2 ^ 62) : Coherent s.view := by
  induction h with
  | init h =>
    obtain ⟨o, ho, rfl⟩ := perform_eq_ok.mp h
    exact (coherent_init ho).view
  | call _ hcall hfits ih =>
    obtain ⟨o, ho, rfl⟩ := invoke_eq_ok hcall
    exact (ih.execute ho hfits hlimit).view

/-- **The bookkeeping stays coherent** in a run whose calls fit. -/
theorem bookkeeping_coherent {steps : List Step} (h : Runs numerals (Fits (2 ^ 62)) s steps) :
    HasTotal (Token.balance s.view) (supply s.view) ∧
      (∀ owner, 0 ≤ Token.balance s.view owner) ∧
      ((pool1 s.view = 0 ∧ pool2 s.view = 0 ∧ supply s.view = 0) ∨
        (0 < pool1 s.view ∧ 0 < pool2 s.view ∧ 0 < supply s.view)) := by
  have hcoherent := h.coherent le_rfl
  obtain ⟨p, hreads, hunified⟩ := hcoherent.pools
  rw [hreads.pool1_eq, hreads.pool2_eq, hreads.supply_eq]
  exact ⟨hcoherent.total hreads, hcoherent.users.nonneg, hunified⟩

/-- The claim of a token on both pools does not shrink in a step. -/
def Step.KeepsClaims (st : Step) : Prop :=
  LiquidityPool.KeepsShare (pool1 st.before.view) (supply st.before.view) (pool1 st.after.view)
    (supply st.after.view) ∧
  LiquidityPool.KeepsShare (pool2 st.before.view) (supply st.before.view) (pool2 st.after.view)
    (supply st.after.view)

theorem Coherent.keepsClaims_added (h : Coherent s.view) (hpos : 0 < supply s.view)
    (hadded : Added caller p ⟨x, c, t⟩ b s.view o')
    (hfits : Fits (10 ^ 16) ⟨s, call, .added x c t, o'.current⟩) :
    Step.KeepsClaims ⟨s, call, .added x c t, o'.current⟩ := by
  have hunified := h.unified hadded.reads
  obtain ⟨hgrown, hlt⟩ := hfits.grown (by decide) hunified hadded
  obtain ⟨-, hreads⟩ := h.added hadded hgrown
  rw [hadded.reads.supply_eq] at hpos
  obtain ⟨hp1, hp2, hs⟩ : 0 < p.pool1.toInt ∧ 0 < p.pool2.toInt ∧ 0 < p.supply.toInt :=
    hunified.resolve_left fun h0 => hpos.ne' h0.2.2
  have hsum : p.pool1.toInt + x.toInt < 2 ^ 63 := by
    have := (p.pool1 + x).toInt_lt
    rwa [hgrown.pool1] at this
  obtain ⟨hshare1, hshare2⟩ := hadded.share hp1 hp2 hs hsum (hlt hp1.ne')
  constructor
  · show LiquidityPool.KeepsShare (pool1 s.view) (supply s.view) (pool1 o') (supply o')
    rw [hadded.reads.pool1_eq, hadded.reads.supply_eq, hreads.pool1_eq, hreads.supply_eq,
      hgrown.pool1, hgrown.supply]
    exact .mint hshare1
  · show LiquidityPool.KeepsShare (pool2 s.view) (supply s.view) (pool2 o') (supply o')
    rw [hadded.reads.pool2_eq, hadded.reads.supply_eq, hreads.pool2_eq, hreads.supply_eq,
      hgrown.pool2, hgrown.supply]
    exact .mint hshare2

theorem Coherent.keepsClaims_removed (h : Coherent s.view)
    (hremoved : Removed caller p ⟨x, c, t⟩ b s.view o') :
    Step.KeepsClaims ⟨s, call, .removed x c t, o'.current⟩ := by
  have htotal := h.total hremoved.reads
  obtain ⟨-, ⟨hshare1, -⟩, hshare2, -⟩ := hremoved.bounds h.users htotal
  have hshrunk := hremoved.shrunk h.users htotal
  obtain ⟨-, hreads⟩ := h.removed hremoved
  constructor
  · show LiquidityPool.KeepsShare (pool1 s.view) (supply s.view) (pool1 o') (supply o')
    rw [hremoved.reads.pool1_eq, hremoved.reads.supply_eq, hreads.pool1_eq, hreads.supply_eq,
      hshrunk.pool1, hshrunk.supply]
    exact .burn hshare1
  · show LiquidityPool.KeepsShare (pool2 s.view) (supply s.view) (pool2 o') (supply o')
    rw [hremoved.reads.pool2_eq, hremoved.reads.supply_eq, hreads.pool2_eq, hreads.supply_eq,
      hshrunk.pool2, hshrunk.supply]
    exact .burn hshare2

/-- The call adds or removes liquidity. -/
def Api.isLiquidity : Api → Bool
  | .addLiquidity _ | .removeLiquidity _ => true
  | _ => false

/-- **Liquidity providers are never diluted** in a run whose calls fit. -/
theorem never_diluted {steps : List Step} (h : Runs numerals (Fits (10 ^ 16)) s steps) {st : Step}
    (hst : st ∈ steps) (hapi : st.call.api.isLiquidity = true) (hbefore : 0 < supply st.before.view) :
    pool1 st.before.view * supply st.after.view ≤ pool1 st.after.view * supply st.before.view ∧
      pool2 st.before.view * supply st.after.view ≤ pool2 st.after.view * supply st.before.view := by
  induction h with
  | init h => simp at hst
  | call hruns hcall hfits ih =>
    rcases List.mem_cons.mp hst with rfl | hst
    · have hcoherent := hruns.coherent (by decide)
      obtain ⟨o, ho, rfl⟩ := invoke_eq_ok hcall
      rename_i call _
      obtain ⟨api, caller, head, pays⟩ := call
      cases api
      case addLiquidity =>
        simp only [Uniswap.execute, bind_eq_ok, pure_eq_ok, Prod.exists, Prod.mk.injEq] at ho
        obtain ⟨x, c, t, o₁, hadd, rfl, rfl⟩ := ho
        obtain ⟨p, b, hadded⟩ := addLiquidity_eq_ok hadd
        exact hcoherent.keepsClaims_added hbefore hadded hfits
      case removeLiquidity =>
        simp only [Uniswap.execute, bind_eq_ok, pure_eq_ok, Prod.exists, Prod.mk.injEq] at ho
        obtain ⟨x, c, t, o₁, hremove, rfl, rfl⟩ := ho
        obtain ⟨p, b, hremoved⟩ := removeLiquidity_eq_ok hremove
        exact hcoherent.keepsClaims_removed hremoved
      all_goals exact absurd hapi Bool.false_ne_true
    · exact ih hst

end runs

/-! ### Sample runs -/

/-- Calls one after the other, each of which is accepted and meets a condition. -/
def runCalls (numerals : Numerals) (Meets : Step → Prop) [DecidablePred Meets] :
    List Invocation → List Step × Storage → Except String (List Step × Storage)
  | [], reached => .ok reached
  | call :: calls, (steps, s) => do
    let (receipt, s') ← invoke numerals call s
    require (Meets ⟨s, call, receipt, s'⟩) "the condition is not met"
    runCalls numerals Meets calls (⟨s, call, receipt, s'⟩ :: steps, s')

theorem Runs.runCalls [DecidablePred Meets] {calls : List Invocation} {s : Storage}
    {steps : List Step} (h : Runs numerals Meets s steps)
    (hcalls : runCalls numerals Meets calls (steps, s) = .ok reached) :
    Runs numerals Meets reached.2 reached.1 := by
  induction calls generalizing s steps with
  | nil => exact Except.ok.inj hcalls ▸ h
  | cons call calls ih =>
    simp only [Uniswap.runCalls, bind_eq_ok, require_eq_ok, exists_const, Prod.exists] at hcalls
    obtain ⟨receipt, s', hcall, hmeets, hcalls⟩ := hcalls
    exact ih (.call h hcall hmeets) hcalls

def provider : Address := ⟨text "XWCL", by decide⟩

/-- Every text is a numeral, as far as this is checked by a regular expression. -/
def sampleNumerals : Numerals := ⟨fun _ => true⟩

/-- A call of the provider before the first block. -/
def ofProvider (api : Api) : Invocation := ⟨api, provider, 0, true⟩

/-- A market for `P` and `Q` without a fee, and calls of the provider. -/
def sampleRun (Meets : Step → Prop) [DecidablePred Meets] (apis : List Api) :
    Except String (List Step × Storage) := do
  let s ← perform (init provider) .empty
  runCalls sampleNumerals Meets
    ((.initConfig (text "P,Q,1,1,0.0,name,symbol") :: apis).map ofProvider) ([], s)

theorem runs_sampleRun [DecidablePred Meets] {apis : List Api}
    (h : sampleRun Meets apis = .ok reached) : Runs sampleNumerals Meets reached.2 reached.1 := by
  simp only [sampleRun, bind_eq_ok] at h
  obtain ⟨s, hs, h⟩ := h
  exact (Runs.init hs).runCalls h

/-- Deposits, and liquidity at the ratio of one to two. -/
def sampleApis : List Api :=
  [.onDepositAsset 100 (text "P") [], .onDepositAsset 200 (text "Q") [],
    .addLiquidity (text "10,20,1"), .addLiquidity (text "5,10,1")]

/-- What is read of the pools and the supply. -/
def readPools (s : Storage) : ℤ × ℤ × ℤ := (pool1 s.view, pool2 s.view, supply s.view)

theorem product_kept_sample : ∃ numerals s call amount symbol param r s',
    call.api = .onDepositAsset amount symbol param ∧ param ≠ [] ∧
    invoke numerals call s = .ok (r, s') ∧ readPools s = (15, 30, 15000) ∧
    readPools s' = (25, 19, 15000) ∧
    pool1 s.view * pool2 s.view ≤ pool1 s'.view * pool2 s'.view ∧
    0 < pool1 s'.view ∧ 0 < pool2 s'.view := by
  have hrun : (sampleRun (Fits (10 ^ 16)) sampleApis >>= fun reached =>
      (invoke sampleNumerals (ofProvider (.onDepositAsset 10 (text "P") (text "Q,1,1")))
        reached.2).map fun after => (readPools reached.2, readPools after.2)) =
      .ok ((15, 30, 15000), (25, 19, 15000)) := by
    decide +kernel
  obtain ⟨⟨steps, s⟩, -, hswap⟩ := bind_eq_ok.mp hrun
  obtain ⟨⟨r, s'⟩, hcall, hfacts⟩ := map_eq_ok.mp hswap
  obtain ⟨hbefore, hafter⟩ := Prod.mk.inj hfacts
  exact ⟨_, s, _, 10, text "P", text "Q,1,1", r, s', rfl, by decide, hcall, hbefore, hafter,
    product_kept rfl (by decide) hcall⟩

theorem bookkeeping_coherent_sample : ∃ numerals s steps, Runs numerals (Fits (2 ^ 62)) s steps ∧
    readPools s = (15, 30, 15000) ∧ HasTotal (Token.balance s.view) (supply s.view) ∧
    (∀ owner, 0 ≤ Token.balance s.view owner) := by
  have hrun : (sampleRun (Fits (2 ^ 62)) sampleApis).map (fun reached => readPools reached.2) =
      .ok (15, 30, 15000) := by
    decide +kernel
  obtain ⟨⟨steps, s⟩, hreached, hpools⟩ := map_eq_ok.mp hrun
  have hruns := runs_sampleRun hreached
  obtain ⟨htotal, hnonneg, -⟩ := bookkeeping_coherent hruns
  exact ⟨_, s, steps, hruns, hpools, htotal, hnonneg⟩

theorem never_diluted_sample : ∃ numerals s st steps,
    Runs numerals (Fits (10 ^ 16)) s (st :: steps) ∧ st.call.api.isLiquidity = true ∧
    readPools st.before = (10, 20, 10000) ∧ readPools st.after = (15, 30, 15000) ∧
    pool1 st.before.view * supply st.after.view ≤ pool1 st.after.view * supply st.before.view ∧
    pool2 st.before.view * supply st.after.view ≤ pool2 st.after.view * supply st.before.view := by
  have hrun : (sampleRun (Fits (10 ^ 16)) sampleApis).map (fun reached =>
      reached.1.head?.map fun st => (st.call.api.isLiquidity, readPools st.before,
        readPools st.after)) = .ok (some (true, (10, 20, 10000), (15, 30, 15000))) := by
    decide +kernel
  obtain ⟨⟨steps, s⟩, hreached, hhead⟩ := map_eq_ok.mp hrun
  have hruns := runs_sampleRun hreached
  cases steps with
  | nil => simp at hhead
  | cons st steps =>
    simp only [List.head?_cons, Option.map_some, Option.some.injEq, Prod.mk.injEq] at hhead
    obtain ⟨hapi, hbefore, hafter⟩ := hhead
    have hsupply : supply st.before.view = 10000 := by
      simp only [readPools, Prod.mk.injEq] at hbefore
      exact hbefore.2.2
    exact ⟨_, s, st, steps, hruns, hapi, hbefore, hafter,
      never_diluted hruns (List.mem_cons_self ..) hapi (by rw [hsupply]; decide)⟩

/-- The pools are one unit of `P` and `2 ^ 50` units of `Q` when a multiple of the first pool is
added. -/
def largeApis (deposit arg : String) (amount : Int64) : List Api :=
  [.onDepositAsset amount (text "P") [], .onDepositAsset (2 ^ 50 + 1) (text "Q") [],
    .addLiquidity (text deposit), .addLiquidity (text arg)]

/-- **A quotient of `2 ^ 62` becomes negative**: the second pool does, while there are tokens, and
the caller gets what it lacks. -/
theorem incoherent : ∃ numerals s steps, Runs numerals (fun _ => True) s steps ∧
    readPools s = (4097, 2 ^ 50 - 2 ^ 62 + 1, 4097000) ∧
    s.view.accounts (text "Q") provider = 2 ^ 62 := by
  have hrun : (sampleRun (fun _ => True)
      (largeApis "1,1125899906842624,1" "4096,1,1" 4097)).map (fun reached =>
        (readPools reached.2, reached.2.view.accounts (text "Q") provider)) =
      .ok ((4097, 2 ^ 50 - 2 ^ 62 + 1, 4097000), 2 ^ 62) := by
    decide +kernel
  obtain ⟨⟨steps, s⟩, hreached, hfacts⟩ := map_eq_ok.mp hrun
  obtain ⟨hpools, hbalance⟩ := Prod.mk.inj hfacts
  exact ⟨_, s, steps, runs_sampleRun hreached, hpools, hbalance⟩

/-- **A quotient of `2 ^ 63` becomes zero**: one unit of `Q` is added for a token claim on all of
it. -/
theorem diluted : ∃ numerals s st steps, Runs numerals (fun _ => True) s (st :: steps) ∧
    st.call.api.isLiquidity = true ∧ readPools st.before = (1, 2 ^ 50, 1000) ∧
    readPools st.after = (8193, 2 ^ 50 + 1, 8193000) ∧
    ¬ pool2 st.before.view * supply st.after.view ≤ pool2 st.after.view * supply st.before.view := by
  have hrun : (sampleRun (fun _ => True)
      (largeApis "1,1125899906842624,1" "8192,1,1" 8193)).map (fun reached =>
        reached.1.head?.map fun st => (st.call.api.isLiquidity, readPools st.before,
          readPools st.after)) =
      .ok (some (true, (1, 2 ^ 50, 1000), (8193, 2 ^ 50 + 1, 8193000))) := by
    decide +kernel
  obtain ⟨⟨steps, s⟩, hreached, hhead⟩ := map_eq_ok.mp hrun
  have hruns := runs_sampleRun hreached
  cases steps with
  | nil => simp at hhead
  | cons st steps =>
    simp only [List.head?_cons, Option.map_some, Option.some.injEq, Prod.mk.injEq] at hhead
    obtain ⟨hapi, hbefore, hafter⟩ := hhead
    refine ⟨_, s, st, steps, hruns, hapi, hbefore, hafter, ?_⟩
    simp only [readPools, Prod.mk.injEq] at hbefore hafter
    rw [hbefore.2.1, hbefore.2.2, hafter.2.1, hafter.2.2]
    decide

end Uniswap

end Whitecoin.Native
