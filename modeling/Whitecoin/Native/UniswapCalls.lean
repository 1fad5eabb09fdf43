import Whitecoin.Native.TokenSupply
import Whitecoin.Native.Uniswap

/-!
# What the calls of the market maker do

Adding and removing liquidity writes the same names: the two balances of the caller, the two pools,
the supply and the tokens of the caller. The accounts, the tokens and the names without a point do
not collide: accounts are named by addresses, which begin with a prefix that the names of the maps
of the token contract do not have.
-/

namespace Whitecoin.Native

open Check Cbor

/-! ### Names -/

theorem fastMapKey_eq_entryKey (storageName : String) (key : Text) :
    fastMapKey storageName key = entryKey (text storageName) key := rfl

theorem account_ne_fastMapKey (a : Address) (symbol : Text) {storageName : String}
    (h : storageName ∈ ["users", "allowed"]) (key : Text) :
    entryKey a symbol ≠ fastMapKey storageName key := by
  intro heq
  have hnames : ∀ n ∈ ["users", "allowed"], 46 ∉ text n ∧ ¬ text "XWC" <+: text n := by decide
  obtain ⟨hpoint, hbegins⟩ := hnames storageName h
  obtain ⟨ha, -⟩ := entryKey_inj a.2.2 hpoint heq
  exact hbegins (ha ▸ a.2.1)

namespace Overlay

/-- The tokens and allowances are unchanged. -/
def SameTokens (o o' : Overlay) : Prop := ∀ storageName ∈ ["users", "allowed"], ∀ key,
  o'.get (fastMapKey storageName key) = o.get (fastMapKey storageName key)

variable {o o' : Overlay}

theorem SameTokens.trans {o₁ o₂ : Overlay} (h : o.SameTokens o₁) (h' : o₁.SameTokens o₂) :
    o.SameTokens o₂ := fun storageName hmem key =>
  (h' storageName hmem key).trans (h storageName hmem key)

variable {v : CborObject} {entries : List (Text × CborObject)} {storageName : String} {key : Text}

theorem sameTokens_setEntry {a : Address} {symbol : Text} (h : o.setEntry a symbol v = .ok o') :
    o.SameTokens o' := fun _ hmem key =>
  get_set_of_ne h (account_ne_fastMapKey a symbol hmem key).symm

theorem get_setAll_of_notMem_map {name : Text} (h : o.setAll entries = .ok o')
    (hname : name ∉ entries.map Prod.fst) : o'.get name = o.get name := by
  refine get_setAll_of_notMem h fun e he heq => hname ?_
  subst heq
  exact List.mem_map_of_mem he

/-- The entries are unchanged. -/
def SameEntries (o o' : Overlay) : Prop := ∀ storageName key,
  o'.get (entryKey storageName key) = o.get (entryKey storageName key)

theorem sameEntries_setAll (h : o.setAll entries = .ok o')
    (hnames : ∀ name ∈ entries.map Prod.fst, 46 ∉ name) : o.SameEntries o' :=
  fun storageName key => get_setAll_of_notMem_map h fun hmem =>
    ne_entryKey (hnames _ hmem) storageName key rfl

theorem SameEntries.tokens (h : o.SameEntries o') : o.SameTokens o' :=
  fun storageName _ key => h (text storageName) key

theorem SameEntries.accounts (h : o.SameEntries o') : o'.accounts = o.accounts := by
  funext symbol owner
  exact held_congr (h owner symbol)

theorem frame_fastMapSet (h : o.fastMapSet storageName key v = .ok o') :
    o.Frame o' := fun _ hname =>
  get_set_of_ne h (ne_entryKey hname (text storageName) key)

theorem accounts_fastMapSet (h : o.fastMapSet storageName key v = .ok o')
    (hmem : storageName ∈ ["users", "allowed"]) : o'.accounts = o.accounts := by
  funext symbol owner
  exact accounts_set_of_ne h (account_ne_fastMapKey owner symbol hmem key)

namespace SameTokens

theorem balanceOf (h : o.SameTokens o') (owner : Text) :
    Token.balanceOf o' owner = Token.balanceOf o owner := by
  rw [Token.balanceOf, Token.balanceOf, fastMapGet, fastMapGet, h "users" (by decide)]

theorem balance (h : o.SameTokens o') : Token.balance o' = Token.balance o :=
  Token.balance_congr (h "users" (by decide))

theorem usersOk (h : o.SameTokens o') (hu : Token.UsersOk o) : Token.UsersOk o' := fun owner => by
  rw [h.balanceOf]
  exact hu owner

theorem allowedOf (h : o.SameTokens o') (owner : Text) :
    Token.allowedOf o' owner = Token.allowedOf o owner :=
  Token.allowedOf_congr (h "allowed" (by decide) owner)

end SameTokens

end Overlay

namespace Uniswap

/-- What the contract reads of itself. -/
structure Pools where
  asset1 : Text
  asset2 : Text
  pool1 : Int64
  pool2 : Int64
  supply : Int64

/-- Amounts of both assets and of tokens. -/
structure Amounts where
  asset1 : Int64
  asset2 : Int64
  token : Int64

variable {numerals : Numerals} {head : UInt64} {pays : Bool} {caller : Address} {arg : Text}
  {o o' : Overlay} {p : Pools}

/-! ### Reading -/

/-- The values under the names of the contract. -/
structure Reads (o : Overlay) (p : Pools) : Prop where
  asset1 : o.getString (text "asset_1_symbol") = .ok p.asset1
  asset2 : o.getString (text "asset_2_symbol") = .ok p.asset2
  pool1 : o.getInt (text "asset_1_pool_amount") = .ok p.pool1
  pool2 : o.getInt (text "asset_2_pool_amount") = .ok p.pool2
  supply : o.getInt (text "supply") = .ok p.supply

theorem Reads.frame (h : Reads o p) (hframe : o.Frame o') : Reads o' p where
  asset1 := (hframe.getString (by decide)).trans h.asset1
  asset2 := (hframe.getString (by decide)).trans h.asset2
  pool1 := (hframe.getInt (by decide)).trans h.pool1
  pool2 := (hframe.getInt (by decide)).trans h.pool2
  supply := (hframe.getInt (by decide)).trans h.supply

theorem Reads.unique {q : Pools} (h : Reads o p) (h' : Reads o q) : p = q := by
  obtain ⟨a1, a2, p1, p2, s⟩ := p
  obtain ⟨b1, b2, q1, q2, t⟩ := q
  obtain rfl := Except.ok.inj (h.asset1.symm.trans h'.asset1)
  obtain rfl := Except.ok.inj (h.asset2.symm.trans h'.asset2)
  obtain rfl := Except.ok.inj (h.pool1.symm.trans h'.pool1)
  obtain rfl := Except.ok.inj (h.pool2.symm.trans h'.pool2)
  obtain rfl := Except.ok.inj (h.supply.symm.trans h'.supply)
  rfl

/-- The pool of the first asset. -/
def pool1 (o : Overlay) : ℤ := Token.orZero (o.getInt (text "asset_1_pool_amount"))

/-- The pool of the second asset. -/
def pool2 (o : Overlay) : ℤ := Token.orZero (o.getInt (text "asset_2_pool_amount"))

/-- The number of liquidity tokens. -/
def supply (o : Overlay) : ℤ := Token.orZero (o.getInt (text "supply"))

theorem Reads.pool1_eq (h : Reads o p) : Uniswap.pool1 o = p.pool1.toInt := by
  rw [Uniswap.pool1, h.pool1, Token.orZero]

theorem Reads.pool2_eq (h : Reads o p) : Uniswap.pool2 o = p.pool2.toInt := by
  rw [Uniswap.pool2, h.pool2, Token.orZero]

theorem Reads.supply_eq (h : Reads o p) : Uniswap.supply o = p.supply.toInt := by
  rw [Uniswap.supply, h.supply, Token.orZero]

/-! ### Writing -/

/-- The assignments of a call that adds or removes liquidity: the balances of the caller, the pools
with the supply, and the tokens of the caller. -/
def Writes (caller : Address) (p : Pools) (b : Amounts) (o o' : Overlay) : Prop :=
  ∃ o₁ o₂ o₃, o.setEntry caller p.asset1 (.int b.asset1) = .ok o₁ ∧
    o₁.setEntry caller p.asset2 (.int b.asset2) = .ok o₂ ∧
    o₂.setAll [(text "asset_1_pool_amount", .int p.pool1),
      (text "asset_2_pool_amount", .int p.pool2), (text "supply", .int p.supply)] = .ok o₃ ∧
    o₃.fastMapSet "users" caller (.int b.token) = .ok o'

/-- The names of the pools and of the supply. -/
def poolNames : List Text :=
  [text "asset_1_pool_amount", text "asset_2_pool_amount", text "supply"]

theorem poolNames_nodup : poolNames.Nodup := by decide

theorem notMem_of_mem_poolNames : ∀ name ∈ poolNames, 46 ∉ name := by decide

section writes

variable {b : Amounts}

theorem Writes.get_of_notMem (h : Writes caller p b o o') (name : Text) (hname : 46 ∉ name)
    (hmem : name ∉ poolNames) : o'.get name = o.get name := by
  obtain ⟨o₁, o₂, o₃, h₁, h₂, hall, h₃⟩ := h
  rw [Overlay.frame_fastMapSet h₃ name hname, Overlay.get_setAll_of_notMem_map hall hmem,
    Overlay.frame_setEntry h₂ name hname, Overlay.frame_setEntry h₁ name hname]

/-- **The pools and the supply** are read as they were written. -/
theorem Writes.reads (h : Writes caller p b o o')
    (h1 : o.getString (text "asset_1_symbol") = .ok p.asset1)
    (h2 : o.getString (text "asset_2_symbol") = .ok p.asset2) (hpool1 : 0 ≤ p.pool1.toInt)
    (hpool2 : 0 ≤ p.pool2.toInt) (hsupply : 0 ≤ p.supply.toInt) : Reads o' p := by
  have hget := h.get_of_notMem
  obtain ⟨o₁, o₂, o₃, -, -, hall, h₃⟩ := h
  have hframe := Overlay.frame_fastMapSet h₃
  refine ⟨?_, ?_, ?_, ?_, ?_⟩
  · exact (Overlay.getString_congr (hget _ (by decide) (by decide))).trans h1
  · exact (Overlay.getString_congr (hget _ (by decide) (by decide))).trans h2
  all_goals
    refine (hframe.getInt (by decide)).trans (Overlay.getInt_setAll _ ?_ hall ?_ ?_)
  · exact hpool1
  · exact List.mem_cons_self ..
  · exact poolNames_nodup
  · exact hpool2
  · exact List.mem_cons_of_mem _ (List.mem_cons_self ..)
  · exact poolNames_nodup
  · exact hsupply
  · exact List.mem_cons_of_mem _ (List.mem_cons_of_mem _ (List.mem_cons_self ..))
  · exact poolNames_nodup

/-- **The tokens of the caller** are replaced, and the allowances stay. -/
theorem Writes.tokens (h : Writes caller p b o o') (hu : Token.UsersOk o)
    (hb : 0 ≤ b.token.toInt) : Token.UsersOk o' ∧
      Token.balance o' = Function.update (Token.balance o) caller b.token.toInt ∧
      ∀ owner, Token.allowedOf o' owner = Token.allowedOf o owner := by
  obtain ⟨o₁, o₂, o₃, h₁, h₂, hall, h₃⟩ := h
  have hsame : o.SameTokens o₃ := (Overlay.sameTokens_setEntry h₁).trans
    ((Overlay.sameTokens_setEntry h₂).trans (Overlay.sameEntries_setAll hall
      notMem_of_mem_poolNames).tokens)
  obtain ⟨hu', hbalance⟩ := Token.users_set_int hb h₃ (hsame.usersOk hu)
  rw [hsame.balance] at hbalance
  refine ⟨hu', hbalance, fun owner => ?_⟩
  rw [Token.allowedOf_of_ne h₃ (Token.allowed_ne_users owner caller)]
  exact hsame.allowedOf owner

/-- **The two balances of the caller** are replaced. -/
theorem Writes.accounts (h : Writes caller p b o o') (ho : o.Nonneg) (h1 : 0 ≤ b.asset1.toInt)
    (h2 : 0 ≤ b.asset2.toInt) {asset : Text} {t : ℤ} (ht : HasTotal (o.accounts asset) t)
    (hne : p.asset1 ≠ p.asset2) : o'.Nonneg ∧ HasTotal (o'.accounts asset)
      (t + (if p.asset1 = asset then b.asset1.toInt - o.accounts p.asset1 caller else 0) +
        if p.asset2 = asset then b.asset2.toInt - o.accounts p.asset2 caller else 0) := by
  obtain ⟨o₁, o₂, o₃, h₁, h₂, hall, h₃⟩ := h
  have haccounts : o'.accounts = o₂.accounts :=
    (Overlay.accounts_fastMapSet h₃ (by decide)).trans
      (Overlay.sameEntries_setAll hall notMem_of_mem_poolNames).accounts
  have haccounts₁ := Overlay.accounts_set_int h₁
  have haccounts₂ := Overlay.accounts_set_int h₂
  rw [Overlay.readInt_of_nonneg h1] at haccounts₁
  rw [Overlay.readInt_of_nonneg h2] at haccounts₂
  have hother : o₁.accounts p.asset2 = o.accounts p.asset2 := by
    rw [haccounts₁, Function.update_of_ne hne.symm]
  have htotal := Overlay.hasTotal_accounts haccounts₂ (Overlay.hasTotal_accounts haccounts₁ ht)
  rw [hother] at htotal
  have hnonneg := (ho.set_int h₁ h1).set_int h₂ h2
  unfold Overlay.Nonneg
  rw [haccounts]
  exact ⟨hnonneg, htotal⟩

end writes

/-! ### Accepted calls -/

theorem checkCommon_eq_ok {u : Unit} (h : checkCommon o = .ok u) :
    o.getString (text "state") = .ok Token.common := by
  simp only [checkCommon, bind_eq_ok, require_eq_ok] at h
  obtain ⟨state, hstate, rfl⟩ := h
  exact hstate

/-- What holds of a call that added the amounts `a`, if the caller had `b`. -/
structure Added (caller : Address) (p : Pools) (a b : Amounts) (o o' : Overlay) : Prop where
  state : o.getString (text "state") = .ok Token.common
  reads : Reads o p
  pos : 0 < a.asset1.toInt
  amount2 : ∃ max2 : Int64, 0 < max2.toInt ∧
    addedAsset2 a.asset1 max2 p.pool1 p.pool2 = .ok a.asset2
  token : mintedToken a.asset1 p.pool1 p.pool2 p.supply = .ok a.token
  token_pos : 0 < a.token.toInt
  max : (p.pool1 + a.asset1).toInt ≤ maxAssetAmount.toInt
  balance1 : o.accounts p.asset1 caller = b.asset1.toInt
  balance2 : o.accounts p.asset2 caller = b.asset2.toInt
  enough1 : a.asset1.toInt ≤ b.asset1.toInt
  enough2 : a.asset2.toInt ≤ b.asset2.toInt
  balance : Token.balanceOf o caller = .ok b.token
  writes : Writes caller { p with
    pool1 := p.pool1 + a.asset1, pool2 := p.pool2 + a.asset2, supply := p.supply + a.token }
    ⟨b.asset1 - a.asset1, b.asset2 - a.asset2, b.token + a.token⟩ o o'

variable {x c t amount : Int64} {s : Storage}

theorem addLiquidity_eq_ok (h : addLiquidity numerals head caller arg o = .ok ((x, c, t), o')) :
    ∃ p b, Added caller p ⟨x, c, t⟩ b o o' := by
  simp only [addLiquidity, bind_eq_ok] at h
  obtain ⟨_, hstate, h⟩ := h
  split at h
  · simp only [bind_eq_ok, require_eq_ok, exists_const, pure_eq_ok, Prod.mk.injEq] at h
    -- the arguments, what is read, what the caller has, and what is written
    obtain ⟨-, _, -, max2, -, _, -, ⟨hpos, hmax2⟩, _, -, _, -, -, _, -, -, h⟩ := h
    obtain ⟨p1, hp1, p2, hp2, c₁, hc, asset1, hasset1, asset2, hasset2, h⟩ := h
    obtain ⟨entry1, hentry1, hint1, entry2, hentry2, hint2, b1, hb1, b2, hb2, henough, h⟩ := h
    obtain ⟨o₁, h₁, o₂, h₂, s, hs, t₁, ht, htpos, hmax, o₃, hall, b, hb, o₄, h₃, hresult, rfl⟩ := h
    obtain ⟨rfl, rfl, rfl⟩ := hresult
    rw [Int64.lt_iff_toInt_lt, Int64.toInt_zero] at hpos hmax2 htpos
    rw [Int64.lt_iff_toInt_lt, not_lt] at hmax
    rw [not_or, Int64.lt_iff_toInt_lt, Int64.lt_iff_toInt_lt, not_lt, not_lt] at henough
    have hframe : o.Frame o₂ := (Overlay.frame_setEntry h₁).trans (Overlay.frame_setEntry h₂)
    rw [hframe.getInt (by decide)] at hs
    have hsame : o.SameTokens o₃ := (Overlay.sameTokens_setEntry h₁).trans
      ((Overlay.sameTokens_setEntry h₂).trans (Overlay.sameEntries_setAll hall
        notMem_of_mem_poolNames).tokens)
    rw [hsame.balanceOf] at hb
    refine ⟨⟨asset1, asset2, p1, p2, s⟩, ⟨b1, b2, b⟩, checkCommon_eq_ok hstate,
      ⟨hasset1, hasset2, hp1, hp2, hs⟩, hpos, ⟨max2, hmax2, hc⟩, ht, htpos, hmax, ?_, ?_,
      henough.1, henough.2, hb, o₁, o₂, o₃, h₁, h₂, hall, h₃⟩
    · exact Overlay.held_of_intOf ((Overlay.intOf_of_get hentry1 hint1).trans hb1)
    · exact Overlay.held_of_intOf ((Overlay.intOf_of_get hentry2 hint2).trans hb2)
  · simp at h

/-- The balance of the second asset to which a removal adds. -/
def origBalance2 (asset1 asset2 : Text) (caller : Address) (o : Overlay) : ℤ :=
  Token.orZero do
    let (_, balance2) ← origBalances (← o.entry caller asset1) (← o.entry caller asset2)
    pure balance2

/-- What holds of a call that removed the amounts `a`. The amounts of assets are added to `b`. -/
structure Removed (caller : Address) (p : Pools) (a b : Amounts) (o o' : Overlay) : Prop where
  state : o.getString (text "state") = .ok Token.common
  reads : Reads o p
  pool1_pos : 0 < p.pool1.toInt
  pool2_pos : 0 < p.pool2.toInt
  supply_pos : 0 < p.supply.toInt
  amounts : removedAmounts a.token p.pool1 p.pool2 p.supply = .ok (a.asset1, a.asset2)
  nonneg1 : 0 ≤ a.asset1.toInt
  nonneg2 : 0 ≤ a.asset2.toInt
  token_pos : 0 < a.token.toInt
  balance : Token.balanceOf o caller = .ok b.token
  enough : a.token.toInt ≤ b.token.toInt
  balance1 : o.accounts p.asset1 caller = b.asset1.toInt
  balance2 : origBalance2 p.asset1 p.asset2 caller o = b.asset2.toInt
  balance2_eq : b.asset2 = 0 ∨ b.asset2 = b.asset1
  unified : (p.pool1 - a.asset1 = 0 ∧ p.pool2 - a.asset2 = 0 ∧ p.supply - a.token = 0) ∨
    (p.pool1 - a.asset1 ≠ 0 ∧ p.pool2 - a.asset2 ≠ 0 ∧ p.supply - a.token ≠ 0)
  writes : Writes caller { p with
    pool1 := p.pool1 - a.asset1, pool2 := p.pool2 - a.asset2, supply := p.supply - a.token }
    ⟨b.asset1 + a.asset1, b.asset2 + a.asset2, b.token - a.token⟩ o o'

theorem isInteger_of_forceAsInt {entry : CborObject} {n : Int64} (h : entry.forceAsInt = .ok n) :
    entry.isInteger = true := by
  cases entry <;> first | rfl | simp [CborObject.forceAsInt] at h

theorem origBalances_eq_ok {entry1 entry2 : CborObject} {b1 b2 : Int64}
    (h : origBalances entry1 entry2 = .ok (b1, b2)) :
    (if entry1.isInteger then entry1.forceAsInt else pure 0) = .ok b1 ∧ (b2 = 0 ∨ b2 = b1) := by
  unfold origBalances at h
  split_ifs at h with h2 h1 h1
  all_goals
    simp only [bind_eq_ok, pure_eq_ok, Prod.mk.injEq] at h
    obtain ⟨n1, hn1, n2, hn2, rfl, rfl⟩ := h
  · rw [if_pos h1]
    exact ⟨hn1, .inr (Except.ok.inj (hn2.symm.trans hn1))⟩
  · exact absurd (isInteger_of_forceAsInt hn2) h1
  · rw [if_pos h1]
    exact ⟨hn1, .inl hn2.symm⟩
  · rw [if_neg h1]
    exact ⟨congrArg Except.ok hn1, .inl hn2.symm⟩

theorem removeLiquidity_eq_ok (h : removeLiquidity numerals head caller arg o = .ok ((x, c, t), o'))
    :
    ∃ p b, Removed caller p ⟨x, c, t⟩ b o o' := by
  simp only [removeLiquidity, bind_eq_ok] at h
  obtain ⟨_, hstate, h⟩ := h
  split at h
  · simp only [bind_eq_ok, require_eq_ok, exists_const, pure_eq_ok, Prod.exists,
      Prod.mk.injEq] at h
    -- the arguments, what is read, what the caller gets and has, and what is written
    obtain ⟨-, t₁, -, min1, -, min2, -, _, -, ⟨hmin1, hmin2, htpos⟩, _, -, b, hb, henough, h⟩ := h
    obtain ⟨p1, hp1, p2, hp2, s, hs, ⟨hp1pos, hspos, hp2pos⟩, -, x₁, c₁, hamounts, hx, hc, h⟩ := h
    obtain ⟨asset1, hasset1, asset2, hasset2, entry1, hentry1, entry2, hentry2, b1, b2, horig, h⟩ := h
    obtain ⟨o₁, h₁, o₂, h₂, hunified, o₃, hall, o₄, h₃, hresult, rfl⟩ := h
    obtain ⟨rfl, rfl, rfl⟩ := hresult
    rw [Int64.lt_iff_toInt_lt, Int64.toInt_zero] at hp1pos hspos hp2pos htpos
    rw [Int64.le_iff_toInt_le, Int64.toInt_zero] at hmin1 hmin2
    rw [Int64.lt_iff_toInt_lt, not_lt] at hx hc henough
    refine ⟨⟨asset1, asset2, p1, p2, s⟩, ⟨b1, b2, b⟩, checkCommon_eq_ok hstate,
      ⟨hasset1, hasset2, hp1, hp2, hs⟩, hp1pos, hp2pos, hspos, hamounts, hmin1.trans hx,
      hmin2.trans hc, htpos, hb, henough, ?_, ?_, (origBalances_eq_ok horig).2, hunified, o₁, o₂, o₃,
      h₁, h₂, hall, h₃⟩
    · refine Overlay.held_of_intOf ?_
      rw [Overlay.intOf, show o.get (entryKey caller asset1) = .ok entry1 from hentry1]
      exact (origBalances_eq_ok horig).1
    · simp only [origBalance2, hentry1, hentry2, horig, ok_bind]
      rfl
  · simp at h

/-- What holds of a swap into a pool `a` and out of a pool `b`. -/
structure Sold (amount get a b a' b' : Int64) : Prop where
  before : 0 < a.toInt ∧ 0 < b.toInt
  price : ∃ fee : Int64, 0 < fee.toInt ∧ fee.toInt < amount.toInt ∧
    getInputPrice (amount - fee) a b = .ok get
  get_pos : 0 < get.toInt
  receiver : a' = a + amount
  payer : b' = b - get
  after : 0 < a'.toInt ∧ 0 < b'.toInt

/-- What holds of a swap of `amount` for `get`, which changes the pools `p1` and `p2` to `q1` and
`q2`. -/
structure Swapped (symbol : Text) (amount : Int64) (want : Text) (get p1 p2 q1 q2 : Int64)
    (o o' : Overlay) : Prop where
  pool1 : o.getInt (text "asset_1_pool_amount") = .ok p1
  pool2 : o.getInt (text "asset_2_pool_amount") = .ok p2
  sold : (o.getString (text "asset_1_symbol") = .ok symbol ∧
      o.getString (text "asset_2_symbol") = .ok want ∧ Sold amount get p1 p2 q1 q2) ∨
    (o.getString (text "asset_1_symbol") = .ok want ∧
      o.getString (text "asset_2_symbol") = .ok symbol ∧ Sold amount get p2 p1 q2 q1)
  writes : o.setAll [(text "asset_1_pool_amount", .int q1), (text "asset_2_pool_amount", .int q2)] =
    .ok o'

theorem swapFee_pos {fee : Int64} {feeRate : Text} (h : swapFee amount feeRate = .ok fee) :
    0 < fee.toInt := by
  simp only [swapFee, bind_eq_ok, pure_eq_ok] at h
  obtain ⟨_, -, _, -, temp, -, fee₁, -, n, -, rfl⟩ := h
  generalize (if SafeNumber.ne n temp then fee₁ + 1 else fee₁) = fee₂
  split_ifs with hfee
  · decide
  · rwa [Int64.le_iff_toInt_le, Int64.toInt_zero, not_le] at hfee

theorem buy_eq_ok {input want a b get : Int64} (h : buy input want a b = .ok get) :
    getInputPrice input a b = .ok get ∧ 0 < get.toInt := by
  simp only [buy, bind_eq_ok, require_eq_ok, exists_const, pure_eq_ok] at h
  obtain ⟨-, _, hget, hpos, -, rfl⟩ := h
  rw [Int64.lt_iff_toInt_lt, Int64.toInt_zero] at hpos
  exact ⟨hget, hpos⟩

theorem swap_eq_ok {symbol param : Text} {paid : Text × Int64}
    (h : swap numerals head pays amount symbol param o = .ok (paid, o')) :
    ∃ p1 p2 q1 q2, Swapped symbol amount paid.1 paid.2 p1 p2 q1 q2 o o' := by
  simp only [swap, bind_eq_ok] at h
  obtain ⟨asset1, hasset1, asset2, hasset2, h⟩ := h
  split at h
  · simp only [bind_eq_ok, require_eq_ok, exists_const] at h
    obtain ⟨-, want, -, _, -, -, _, -, hwant, hsymbol, hne, p1, hp1, p2, hp2, hpos, _, -, fee, hfee,
      hlt, h⟩ := h
    have hfee := swapFee_pos hfee
    rw [Int64.le_iff_toInt_le, not_le] at hlt
    rw [Int64.lt_iff_toInt_lt, Int64.lt_iff_toInt_lt, Int64.toInt_zero] at hpos
    split_ifs at h with hsell
    all_goals
      simp only [bind_eq_ok, require_eq_ok, exists_const, pure_eq_ok, Prod.mk.injEq] at h
      obtain ⟨get, hbuy, _, rfl, hafter, o₁, hall, -, rfl, rfl⟩ := h
      rw [Int64.lt_iff_toInt_lt, Int64.lt_iff_toInt_lt, Int64.toInt_zero] at hafter
      obtain ⟨hget, hget_pos⟩ := buy_eq_ok hbuy
    · have hother := hwant.resolve_left fun heq => hne (heq.trans hsell.symm)
      rw [← hsell] at hasset1
      rw [← hother] at hasset2
      exact ⟨p1, p2, p1 + amount, p2 - get, hp1, hp2, .inl ⟨hasset1, hasset2, hpos,
        ⟨fee, hfee, hlt, hget⟩, hget_pos, rfl, rfl, hafter⟩, hall⟩
    · have hsell := hsymbol.resolve_left hsell
      have hother := hwant.resolve_right fun heq => hne (heq.trans hsell.symm)
      rw [← hsell] at hasset2
      rw [← hother] at hasset1
      exact ⟨p1, p2, p1 - get, p2 + amount, hp1, hp2, .inr ⟨hasset1, hasset2, hpos.symm,
        ⟨fee, hfee, hlt, hget⟩, hget_pos, rfl, rfl, hafter.symm⟩, hall⟩
  · simp at h

section swapped

variable {symbol want : Text} {amount get p1 p2 q1 q2 : Int64}

theorem Swapped.after (h : Swapped symbol amount want get p1 p2 q1 q2 o o') :
    0 < q1.toInt ∧ 0 < q2.toInt := by
  rcases h.sold with ⟨-, -, hsold⟩ | ⟨-, -, hsold⟩
  · exact hsold.after
  · exact hsold.after.symm

theorem Swapped.before (h : Swapped symbol amount want get p1 p2 q1 q2 o o') :
    0 < p1.toInt ∧ 0 < p2.toInt := by
  rcases h.sold with ⟨-, -, hsold⟩ | ⟨-, -, hsold⟩
  · exact hsold.before
  · exact hsold.before.symm

theorem Swapped.get_of_notMem (h : Swapped symbol amount want get p1 p2 q1 q2 o o') {name : Text}
    (hmem : name ∉ poolNames.take 2) : o'.get name = o.get name :=
  Overlay.get_setAll_of_notMem_map h.writes hmem

theorem Swapped.pools_after (h : Swapped symbol amount want get p1 p2 q1 q2 o o') :
    o'.getInt (text "asset_1_pool_amount") = .ok q1 ∧
      o'.getInt (text "asset_2_pool_amount") = .ok q2 := by
  have hnodup : (poolNames.take 2).Nodup := by decide
  exact ⟨Overlay.getInt_setAll _ h.after.1.le h.writes (List.mem_cons_self ..) hnodup,
    Overlay.getInt_setAll _ h.after.2.le h.writes
      (List.mem_cons_of_mem _ (List.mem_cons_self ..)) hnodup⟩

theorem Swapped.reads (h : Swapped symbol amount want get p1 p2 q1 q2 o o') (hreads : Reads o p) :
    Reads o' { p with pool1 := q1, pool2 := q2 } where
  asset1 := (Overlay.getString_congr (h.get_of_notMem (by decide))).trans hreads.asset1
  asset2 := (Overlay.getString_congr (h.get_of_notMem (by decide))).trans hreads.asset2
  pool1 := h.pools_after.1
  pool2 := h.pools_after.2
  supply := (Overlay.getInt_congr (h.get_of_notMem (by decide))).trans hreads.supply

theorem onDepositAsset_eq_ok {param : Text} {r : Receipt}
    (h : onDepositAsset numerals head pays caller amount symbol param o = .ok (r, o')) :
    o.getString (text "state") = .ok Token.common ∧ 0 < amount.toInt ∧
      ((param = [] ∧ r = .deposited symbol amount ∧ o.credit caller symbol amount = .ok o') ∨
        (param ≠ [] ∧ ∃ want get p1 p2 q1 q2, r = .swapped symbol amount want get ∧
          Swapped symbol amount want get p1 p2 q1 q2 o o')) := by
  simp only [onDepositAsset, bind_eq_ok, require_eq_ok, exists_const] at h
  obtain ⟨_, hstate, hpos, asset1, hasset1, asset2, hasset2, -, h⟩ := h
  rw [Int64.lt_iff_toInt_lt, Int64.toInt_zero] at hpos
  refine ⟨checkCommon_eq_ok hstate, hpos, ?_⟩
  split_ifs at h with hparam
  · simp only [bind_eq_ok, pure_eq_ok, Prod.mk.injEq] at h
    obtain ⟨o₁, hcredit, rfl, rfl⟩ := h
    exact .inl ⟨hparam, rfl, hcredit⟩
  · simp only [bind_eq_ok, pure_eq_ok, Prod.exists, Prod.mk.injEq] at h
    obtain ⟨want, get, o₁, hswap, rfl, rfl⟩ := h
    obtain ⟨p1, p2, q1, q2, hswapped⟩ := swap_eq_ok hswap
    exact .inr ⟨hparam, want, get, p1, p2, q1, q2, rfl, hswapped⟩

end swapped

/-! ### Configuration -/

theorem initConfig_eq_ok (h : initConfig numerals caller arg o = .ok o') (hreads : Reads o p) :
    o.getString (text "state") = .ok Token.notInited ∧
      o'.getString (text "state") = .ok Token.common ∧ o.SameEntries o' ∧
      ∃ asset1 asset2, asset1 ≠ asset2 ∧ Reads o' { p with asset1 := asset1, asset2 := asset2 } := by
  simp only [initConfig, bind_eq_ok, require_eq_ok, exists_const] at h
  obtain ⟨_, -, _, hstate, rfl, h⟩ := h
  split at h
  · rename_i asset1 asset2 _ _ _ _ _ _
    simp only [bind_eq_ok, require_eq_ok, exists_const] at h
    obtain ⟨-, hne, -, _, -, _, -, _, -, -, _, -, _, -, _, -, _, -, -, -, hall⟩ := h
    have hnodup : [text "fee_rate", text "asset_1_symbol", text "asset_2_symbol",
      text "min_asset1_amount", text "min_asset2_amount", text "state", text "name", text "symbol",
      text "precision"].Nodup := by decide
    have hpoint : ∀ name ∈ [text "fee_rate", text "asset_1_symbol", text "asset_2_symbol",
      text "min_asset1_amount", text "min_asset2_amount", text "state", text "name", text "symbol",
      text "precision"], 46 ∉ name ∧ name ∉ poolNames := by decide
    have hget : ∀ name ∈ poolNames, o'.get name = o.get name := fun name hname =>
      Overlay.get_setAll_of_notMem_map hall fun hmem => (hpoint name hmem).2 hname
    refine ⟨hstate, Overlay.getString_setAll _ _ hall (by simp) hnodup,
      Overlay.sameEntries_setAll hall fun name hname => (hpoint name hname).1,
      trim asset1, trim asset2, hne, ?_, ?_, ?_, ?_, ?_⟩
    · exact Overlay.getString_setAll _ _ hall (by simp) hnodup
    · exact Overlay.getString_setAll _ _ hall (by simp) hnodup
    · exact (Overlay.getInt_congr (hget _ (by decide))).trans hreads.pool1
    · exact (Overlay.getInt_congr (hget _ (by decide))).trans hreads.pool2
    · exact (Overlay.getInt_congr (hget _ (by decide))).trans hreads.supply
  · simp at h

theorem setMinAddAmount_eq_ok (h : setMinAddAmount numerals caller arg o = .ok o') :
    o.SameEntries o' ∧ (∀ p, Reads o p → Reads o' p) ∧
      o'.getString (text "state") = o.getString (text "state") := by
  simp only [setMinAddAmount, bind_eq_ok] at h
  obtain ⟨_, -, _, -, h⟩ := h
  split at h
  · simp only [bind_eq_ok, require_eq_ok, exists_const] at h
    obtain ⟨-, _, -, _, -, -, hall⟩ := h
    have hpoint : ∀ name ∈ [text "min_asset1_amount", text "min_asset2_amount"], 46 ∉ name := by
      decide
    have hget : ∀ name, name ∉ [text "min_asset1_amount", text "min_asset2_amount"] →
        o'.get name = o.get name := fun name hname =>
      Overlay.get_setAll_of_notMem_map hall hname
    refine ⟨Overlay.sameEntries_setAll hall hpoint, fun p hreads => ⟨?_, ?_, ?_, ?_, ?_⟩, ?_⟩
    · exact (Overlay.getString_congr (hget _ (by decide))).trans hreads.asset1
    · exact (Overlay.getString_congr (hget _ (by decide))).trans hreads.asset2
    · exact (Overlay.getInt_congr (hget _ (by decide))).trans hreads.pool1
    · exact (Overlay.getInt_congr (hget _ (by decide))).trans hreads.pool2
    · exact (Overlay.getInt_congr (hget _ (by decide))).trans hreads.supply
    · exact Overlay.getString_congr (hget _ (by decide))
  · simp at h

/-! ### Liquidity tokens -/

/-- Only tokens and allowances are written. -/
def TokensOnly (o o' : Overlay) : Prop := o.Frame o' ∧ o'.accounts = o.accounts

theorem tokensOnly_fastMapSet {storageName : String} {key : Text} {v : CborObject}
    (h : o.fastMapSet storageName key v = .ok o') (hmem : storageName ∈ ["users", "allowed"]) :
    TokensOnly o o' :=
  ⟨Overlay.frame_fastMapSet h, Overlay.accounts_fastMapSet h hmem⟩

theorem TokensOnly.trans {o₁ o₂ : Overlay} (h : TokensOnly o o₁) (h' : TokensOnly o₁ o₂) :
    TokensOnly o o₂ :=
  ⟨h.1.trans h'.1, h'.2.trans h.2⟩

theorem tokensOnly_moveBalance {fromAddress toAddress : Text}
    (h : Token.moveBalance fromAddress toAddress amount o = .ok o') : TokensOnly o o' := by
  simp only [Token.moveBalance, bind_eq_ok] at h
  obtain ⟨_, -, o₁, h₁, _, -, h₂⟩ := h
  exact (tokensOnly_fastMapSet h₁ (by decide)).trans (tokensOnly_fastMapSet h₂ (by decide))

theorem tokensOnly_transfer (h : Token.transfer numerals caller arg o = .ok o') :
    TokensOnly o o' := by
  obtain ⟨-, _, _, _, -, -, -, hmove⟩ := Token.transfer_eq_ok h
  exact tokensOnly_moveBalance hmove

theorem tokensOnly_approve (h : Token.approve numerals caller arg o = .ok o') :
    TokensOnly o o' := by
  obtain ⟨-, _, _, _, -, -, hset⟩ := Token.approve_eq_ok h
  exact tokensOnly_fastMapSet hset (by decide)

theorem tokensOnly_transferFrom (h : Token.transferFrom numerals caller arg o = .ok o') :
    TokensOnly o o' := by
  obtain ⟨-, _, _, _, _, _, _, _, _, _, -, -, -, -, -, -, -, -, hmove, hset⟩ :=
    Token.transferFrom_eq_ok h
  exact (tokensOnly_moveBalance hmove).trans (tokensOnly_fastMapSet hset (by decide))

/-! ### Runs -/

theorem invoke_eq_ok {call : Invocation} {s' : Storage} {r : Receipt}
    (h : invoke numerals call s = .ok (r, s')) :
    ∃ o, execute numerals call s.view = .ok (r, o) ∧ o.current = s' := by
  simp only [invoke, bind_eq_ok, pure_eq_ok, Prod.exists, Prod.mk.injEq] at h
  obtain ⟨_, o, ho, rfl, rfl⟩ := h
  exact ⟨o, ho, rfl⟩

theorem Runs.mono {Meets Meets' : Step → Prop} (hmeets : ∀ st, Meets st → Meets' st)
    {steps : List Step} (h : Runs numerals Meets s steps) : Runs numerals Meets' s steps := by
  induction h with
  | init h => exact .init h
  | call _ hcall hst ih => exact .call ih hcall (hmeets _ hst)

theorem reads_init (h : init caller (Storage.view .empty) = .ok o) :
    Reads o ⟨[], [], 0, 0, 0⟩ ∧ o.getString (text "state") = .ok Token.notInited ∧
      ∀ storageName key, o.get (entryKey storageName key) = .ok .null := by
  simp only [init, Token.init, bind_eq_ok, require_eq_ok, exists_const] at h
  obtain ⟨o₂, ⟨o₁, hall₁, -, hset⟩, hall⟩ := h
  have hnodup₁ : [text "name", text "symbol", text "supply", text "precision",
    text "state"].Nodup := by decide
  have hnodup : [text "fee_rate", text "asset_1_symbol", text "asset_2_symbol",
    text "asset_1_pool_amount", text "asset_2_pool_amount", text "min_asset1_amount",
    text "min_asset2_amount"].Nodup := by decide
  have hget : ∀ name, name ∉ [text "fee_rate", text "asset_1_symbol", text "asset_2_symbol",
      text "asset_1_pool_amount", text "asset_2_pool_amount", text "min_asset1_amount",
      text "min_asset2_amount"] → name ≠ text "admin" → o.get name = o₁.get name :=
    fun name hname hadmin => by
      rw [Overlay.get_setAll_of_notMem_map hall hname, Overlay.get_set_of_ne hset hadmin]
  refine ⟨⟨?_, ?_, ?_, ?_, ?_⟩, ?_, fun storageName key => ?_⟩
  · exact Overlay.getString_setAll _ _ hall (by simp) hnodup
  · exact Overlay.getString_setAll _ _ hall (by simp) hnodup
  · exact Overlay.getInt_setAll _ le_rfl hall (by simp) hnodup
  · exact Overlay.getInt_setAll _ le_rfl hall (by simp) hnodup
  · exact (Overlay.getInt_congr (hget _ (by decide) (by decide))).trans
      (Overlay.getInt_setAll _ le_rfl hall₁ (by simp) hnodup₁)
  · exact (Overlay.getString_congr (hget _ (by decide) (by decide))).trans
      (Overlay.getString_setAll _ _ hall₁ (by simp) hnodup₁)
  · have hentry : (Storage.view .empty).get (entryKey storageName key) = .ok .null :=
      cborDecode_write ⟨trivial, by decide, by simp [CborObject.integers]⟩
    rw [Overlay.sameEntries_setAll hall (by decide) storageName key,
      Overlay.get_set_of_ne hset (ne_entryKey (by decide) storageName key).symm,
      Overlay.sameEntries_setAll hall₁ (by decide) storageName key, hentry]

end Uniswap

end Whitecoin.Native
