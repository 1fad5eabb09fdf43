import Whitecoin.Native.UniswapPools

/-!
# Assets of the market maker

For both assets, the pool and the balances of the users sum up to what the contract received, less
what it paid out, plus what removals created: `removeLiquidity_api` adds the amount of the second
asset to the balance that the caller has of the first one, if there is an entry for the second.
-/

namespace Whitecoin.Native

open Check Cbor

namespace Uniswap

/-! ### What comes in and goes out -/

/-- The amount, if it is of an asset. -/
def amountIf (asset symbol : Text) (amount : Int64) : ℤ := if symbol = asset then amount.toInt else 0

def Receipt.received (asset : Text) : Receipt → ℤ
  | .deposited symbol amount => amountIf asset symbol amount
  | .swapped symbol amount _ _ => amountIf asset symbol amount
  | _ => 0

def Receipt.paid (asset : Text) : Receipt → ℤ
  | .withdrawn symbol amount => amountIf asset symbol amount
  | .swapped _ _ want get => amountIf asset want get
  | _ => 0

/-- What was received of an asset. -/
def received (asset : Text) (steps : List Step) : ℤ :=
  (steps.map fun st => st.receipt.received asset).sum

/-- What was paid out of an asset. -/
def paid (asset : Text) (steps : List Step) : ℤ := (steps.map fun st => st.receipt.paid asset).sum

/-- The text that was read. -/
def orEmpty : Except String Text → Text
  | .ok t => t
  | .error _ => []

/-- The first asset. -/
def asset1 (o : Overlay) : Text := orEmpty (o.getString (text "asset_1_symbol"))

/-- The second asset. -/
def asset2 (o : Overlay) : Text := orEmpty (o.getString (text "asset_2_symbol"))

/-- What the entry of the wrong asset adds to the balance of the second asset. -/
def Step.created (st : Step) : ℤ :=
  match st.receipt with
  | .removed .. =>
    let o := st.before.view
    origBalance2 (asset1 o) (asset2 o) st.call.caller o - o.accounts (asset2 o) st.call.caller
  | _ => 0

/-- What a call changes of the total of an asset. -/
def Step.change (asset : Text) (st : Step) : ℤ :=
  st.receipt.received asset - st.receipt.paid asset +
    if asset2 st.before.view = asset then st.created else 0

/-- The balances that are added to stay in range. -/
def CreditsFit (st : Step) : Prop :=
  let o := st.before.view
  match st.receipt with
  | .deposited symbol amount => o.accounts symbol st.call.caller + amount.toInt < 2 ^ 63
  | .removed x c _ =>
    o.accounts (asset1 o) st.call.caller + x.toInt < 2 ^ 63 ∧
      origBalance2 (asset1 o) (asset2 o) st.call.caller o + c.toInt < 2 ^ 63
  | _ => True

/-- **The condition on calls**: sums are in range, and removals read the right balance. -/
def Conserving (st : Step) : Prop := Fits (2 ^ 62) st ∧ CreditsFit st ∧ st.created = 0

variable {numerals : Numerals} {caller : Address} {o o' : Overlay} {p : Pools} {a b : Amounts}
  {asset : Text} {t : ℤ}

theorem Reads.asset1_eq (h : Reads o p) : Uniswap.asset1 o = p.asset1 := by
  rw [Uniswap.asset1, h.asset1, orEmpty]

theorem Reads.asset2_eq (h : Reads o p) : Uniswap.asset2 o = p.asset2 := by
  rw [Uniswap.asset2, h.asset2, orEmpty]

/-! ### The total of an asset -/

/-- What the pools hold of an asset. -/
def Pools.of (p : Pools) (asset : Text) : ℤ :=
  amountIf asset p.asset1 p.pool1 + amountIf asset p.asset2 p.pool2

/-- The pools are of two assets, or the contract is not configured and the pools are empty. -/
def Configured (o : Overlay) (p : Pools) : Prop :=
  (o.getString (text "state") = .ok Token.common ∧ p.asset1 ≠ p.asset2) ∨
    (o.getString (text "state") = .ok Token.notInited ∧ p.pool1 = 0 ∧ p.pool2 = 0)

/-- The accounts and the pools have `t` units of an asset. -/
structure Conserved (asset : Text) (t : ℤ) (o : Overlay) : Prop where
  nonneg : o.Nonneg
  pools : ∃ p, Reads o p ∧ Configured o p ∧ HasTotal (o.accounts asset) (t - p.of asset)

theorem Conserved.of_reads (h : Conserved asset t o) (hreads : Reads o p) :
    Configured o p ∧ HasTotal (o.accounts asset) (t - p.of asset) := by
  obtain ⟨q, hq, hconfigured, htotal⟩ := h.pools
  exact hreads.unique hq ▸ ⟨hconfigured, htotal⟩

theorem Configured.ne (h : Configured o p)
    (hstate : o.getString (text "state") = .ok Token.common) : p.asset1 ≠ p.asset2 := by
  rcases h with ⟨-, hne⟩ | ⟨hstate', -⟩
  · exact hne
  · exact absurd (Except.ok.inj (hstate.symm.trans hstate')) (by decide)

theorem Conserved.added (h : Conserved asset t o) (hadded : Added caller p a b o o')
    (hgrown : Grown p a) (hnonneg : 0 ≤ a.asset2.toInt)
    (hreads : Reads o' { p with
      pool1 := p.pool1 + a.asset1, pool2 := p.pool2 + a.asset2, supply := p.supply + a.token })
    (hstate : o'.getString (text "state") = .ok Token.common) : Conserved asset t o' := by
  obtain ⟨hconfigured, htotal⟩ := h.of_reads hadded.reads
  have hne := hconfigured.ne hadded.state
  have hpos := hadded.pos
  have henough1 := hadded.enough1
  have henough2 := hadded.enough2
  have hlt1 := b.asset1.toInt_lt
  have hlt2 := b.asset2.toInt_lt
  have hdiff1 : (b.asset1 - a.asset1).toInt = b.asset1.toInt - a.asset1.toInt :=
    Word.toInt_sub_of_le (by omega) (by omega)
  have hdiff2 : (b.asset2 - a.asset2).toInt = b.asset2.toInt - a.asset2.toInt :=
    Word.toInt_sub_of_le (by omega) (by omega)
  obtain ⟨hnonneg', htotal'⟩ := hadded.writes.accounts h.nonneg
    (show 0 ≤ (b.asset1 - a.asset1).toInt by omega) (show 0 ≤ (b.asset2 - a.asset2).toInt by omega)
    htotal hne
  refine ⟨hnonneg', _, hreads, .inl ⟨hstate, hne⟩, ?_⟩
  simp only [hadded.balance1, hadded.balance2, hdiff1, hdiff2] at htotal'
  convert htotal' using 1
  simp only [Pools.of, amountIf, hgrown.pool1, hgrown.pool2]
  split_ifs <;> ring

/-- Liquidity was removed: what leaves the pools is added to the accounts, to one of them not
rightly. -/
theorem Conserved.removed (h : Conserved asset t o) (hremoved : Removed caller p a b o o')
    (hshrunk : Shrunk p a) (hlt1 : b.asset1.toInt + a.asset1.toInt < 2 ^ 63)
    (hlt2 : b.asset2.toInt + a.asset2.toInt < 2 ^ 63)
    (hreads : Reads o' { p with
      pool1 := p.pool1 - a.asset1, pool2 := p.pool2 - a.asset2, supply := p.supply - a.token })
    (hstate : o'.getString (text "state") = .ok Token.common) :
    Conserved asset (t + if p.asset2 = asset then
      b.asset2.toInt - o.accounts p.asset2 caller else 0) o' := by
  obtain ⟨hconfigured, htotal⟩ := h.of_reads hremoved.reads
  have hne := hconfigured.ne hremoved.state
  have hnonneg1 := hremoved.nonneg1
  have hnonneg2 := hremoved.nonneg2
  have hb1 : 0 ≤ b.asset1.toInt := by
    rw [← hremoved.balance1]
    exact h.nonneg ..
  have hb2 : 0 ≤ b.asset2.toInt := by
    rcases hremoved.balance2_eq with h0 | h0
    · rw [h0, Int64.toInt_zero]
    · rwa [h0]
  have hsum1 : (b.asset1 + a.asset1).toInt = b.asset1.toInt + a.asset1.toInt :=
    Word.toInt_add_of_lt (by omega) hlt1
  have hsum2 : (b.asset2 + a.asset2).toInt = b.asset2.toInt + a.asset2.toInt :=
    Word.toInt_add_of_lt (by omega) hlt2
  obtain ⟨hnonneg', htotal'⟩ := hremoved.writes.accounts h.nonneg
    (show 0 ≤ (b.asset1 + a.asset1).toInt by omega) (show 0 ≤ (b.asset2 + a.asset2).toInt by omega)
    htotal hne
  refine ⟨hnonneg', _, hreads, .inl ⟨hstate, hne⟩, ?_⟩
  simp only [hremoved.balance1, hsum1, hsum2] at htotal'
  convert htotal' using 1
  simp only [Pools.of, amountIf, hshrunk.pool1, hshrunk.pool2]
  split_ifs <;> ring

variable {d : ℤ} {symbol : Text} {amount : Int64}

theorem Conserved.frame (h : Conserved asset t o) (hframe : o.Frame o') (hnonneg : o'.Nonneg)
    (htotal : ∀ u, HasTotal (o.accounts asset) u → HasTotal (o'.accounts asset) (u + d)) :
    Conserved asset (t + d) o' := by
  obtain ⟨p, hreads, hconfigured, hp⟩ := h.pools
  refine ⟨hnonneg, p, hreads.frame hframe, ?_, ?_⟩
  · rwa [Configured, hframe.getString (by decide)]
  · rw [add_sub_right_comm]
    exact htotal _ hp

theorem Conserved.accounts (h : Conserved asset t o) {q : Pools}
    (haccounts : o'.accounts = o.accounts) (hreads : Reads o p) (hq : Reads o' q)
    (hconfigured : Configured o' q) (hof : q.of asset = p.of asset + d) :
    Conserved asset (t + d) o' := by
  obtain ⟨-, htotal⟩ := h.of_reads hreads
  refine ⟨?_, q, hq, hconfigured, ?_⟩
  · rw [Overlay.Nonneg, haccounts]
    exact h.nonneg
  · rw [haccounts, hof, add_sub_add_right_eq_sub]
    exact htotal

theorem Conserved.deposited (h : Conserved asset t o)
    (hcredit : o.credit caller symbol amount = .ok o') (hpos : 0 < amount.toInt)
    (hlt : o.accounts symbol caller + amount.toInt < 2 ^ 63) :
    Conserved asset (t + amountIf asset symbol amount) o' := by
  obtain ⟨hnonneg, haccounts⟩ := Overlay.accounts_credit hcredit h.nonneg hpos hlt
  obtain ⟨_, -, hset⟩ := Overlay.credit_eq_ok hcredit
  refine h.frame (Overlay.frame_setEntry hset) hnonneg fun u hu => ?_
  convert Overlay.hasTotal_accounts haccounts hu using 2
  rw [amountIf, add_sub_cancel_left]

theorem Conserved.withdrawn (h : Conserved asset t o) {pays : Bool} {arg : Text}
    (hcall : withdraw numerals pays caller arg o = .ok ((symbol, amount), o')) :
    Conserved asset (t - amountIf asset symbol amount) o' := by
  obtain ⟨hnonneg, haccounts⟩ := accounts_withdraw hcall h.nonneg
  obtain ⟨_, -, -, -, hset⟩ := withdraw_eq_ok hcall
  rw [sub_eq_add_neg]
  refine h.frame (Overlay.frame_setEntry hset) hnonneg fun u hu => ?_
  convert Overlay.hasTotal_accounts haccounts hu using 2
  rw [amountIf]
  split_ifs <;> ring

theorem Conserved.swapped (h : Conserved asset t o) {want : Text} {get p1 p2 q1 q2 : Int64}
    (hswap : Swapped symbol amount want get p1 p2 q1 q2 o o')
    (hstate : o.getString (text "state") = .ok Token.common) :
    Conserved asset (t + (amountIf asset symbol amount - amountIf asset want get)) o' := by
  obtain ⟨p, hreads, hconfigured, -⟩ := h.pools
  have hsame := Overlay.sameEntries_setAll hswap.writes (by decide : ∀ name ∈ poolNames.take 2, _)
  have hstate' : o'.getString (text "state") = .ok Token.common :=
    (Overlay.getString_congr (hswap.get_of_notMem (by decide))).trans hstate
  refine h.accounts hsame.accounts hreads (hswap.reads hreads)
    (.inl ⟨hstate', hconfigured.ne hstate⟩) ?_
  obtain rfl := Except.ok.inj (hswap.pool1.symm.trans hreads.pool1)
  obtain rfl := Except.ok.inj (hswap.pool2.symm.trans hreads.pool2)
  rcases hswap.sold with ⟨h1, h2, hsold⟩ | ⟨h1, h2, hsold⟩
  all_goals
    obtain ⟨hin, hout, -⟩ := hsold.product
    obtain rfl := Except.ok.inj (h1.symm.trans hreads.asset1)
    obtain rfl := Except.ok.inj (h2.symm.trans hreads.asset2)
    simp only [Pools.of, amountIf, hin, hout]
    split_ifs <;> ring

theorem Conserved.tokensOnly (h : Conserved asset t o) (honly : TokensOnly o o') :
    Conserved asset t o' := by
  obtain ⟨p, hreads, hconfigured, htotal⟩ := h.pools
  refine ⟨?_, p, hreads.frame honly.1, ?_, ?_⟩
  · rw [Overlay.Nonneg, honly.2]
    exact h.nonneg
  · rwa [Configured, honly.1.getString (by decide)]
  · rwa [honly.2]

/-! ### Runs -/

section runs

variable {s s' : Storage} {call : Invocation} {r : Receipt}

/-- **The total of an asset after a call.** -/
theorem Conserved.execute (h : Conserved asset t s.view) (hcoherent : Coherent s.view)
    (hcall : execute numerals call s.view = .ok (r, o'))
    (hfits : Fits (2 ^ 62) ⟨s, call, r, s'⟩) (hcredits : CreditsFit ⟨s, call, r, s'⟩) :
    Conserved asset (t + Step.change asset ⟨s, call, r, s'⟩) o' := by
  obtain ⟨p, hreads, hconfigured, -⟩ := h.pools
  obtain ⟨api, caller, head, pays⟩ := call
  cases api
  all_goals simp only [Uniswap.execute, bind_eq_ok, pure_eq_ok, Prod.exists, Prod.mk.injEq] at hcall
  case initConfig =>
    obtain ⟨o₁, hconfig, rfl, rfl⟩ := hcall
    obtain ⟨hstate, hstate', hsame, _, _, hne, hreads'⟩ := initConfig_eq_ok hconfig hreads
    rcases hconfigured with ⟨hcommon, -⟩ | ⟨-, h1, h2⟩
    · exact absurd (Except.ok.inj (hstate.symm.trans hcommon)) (by decide)
    refine h.accounts hsame.accounts hreads hreads' (.inl ⟨hstate', hne⟩) ?_
    simp [Pools.of, amountIf, h1, h2, Step.change, Receipt.received, Receipt.paid, Step.created]
  case setMinAddAmount =>
    obtain ⟨o₁, hmin, rfl, rfl⟩ := hcall
    obtain ⟨hsame, hreads', hstate⟩ := setMinAddAmount_eq_ok hmin
    refine h.accounts hsame.accounts hreads (hreads' p hreads) (by rwa [Configured, hstate]) ?_
    simp [Step.change, Receipt.received, Receipt.paid, Step.created]
  case addLiquidity =>
    obtain ⟨x, c, token, o₁, hadd, rfl, rfl⟩ := hcall
    obtain ⟨q, b, hadded⟩ := addLiquidity_eq_ok hadd
    have hunified := hcoherent.unified hadded.reads
    obtain ⟨hgrown, hlt⟩ := hfits.grown le_rfl hunified hadded
    obtain ⟨-, hreads'⟩ := hcoherent.added hadded hgrown
    have hstate' := (Overlay.getString_congr
      (hadded.writes.get_of_notMem (text "state") (by decide) (by decide))).trans hadded.state
    have hadded' := h.added hadded hgrown (hadded.nonneg2 hunified hlt).1 hreads' hstate'
    simpa [Step.change, Receipt.received, Receipt.paid, Step.created] using hadded'
  case removeLiquidity =>
    obtain ⟨x, c, token, o₁, hremove, rfl, rfl⟩ := hcall
    obtain ⟨q, b, hremoved⟩ := removeLiquidity_eq_ok hremove
    obtain ⟨hlt1, hlt2⟩ := hcredits
    have hshrunk := hremoved.shrunk hcoherent.users (hcoherent.total hremoved.reads)
    obtain ⟨-, hreads'⟩ := hcoherent.removed hremoved
    have hstate' := (Overlay.getString_congr
      (hremoved.writes.get_of_notMem (text "state") (by decide) (by decide))).trans
        hremoved.state
    rw [hremoved.reads.asset1_eq, hremoved.balance1] at hlt1
    rw [hremoved.reads.asset1_eq, hremoved.reads.asset2_eq, hremoved.balance2] at hlt2
    have hremoved' := h.removed hremoved hshrunk hlt1 hlt2 hreads' hstate'
    simpa [Step.change, Receipt.received, Receipt.paid, Step.created, hremoved.reads.asset1_eq,
      hremoved.reads.asset2_eq, hremoved.balance2] using hremoved'
  case onDepositAsset =>
    obtain ⟨hstate, hpos, ⟨-, rfl, hcredit⟩ | ⟨-, want, get, p1, p2, q1, q2, rfl, hswap⟩⟩ :=
      onDepositAsset_eq_ok hcall
    · have hdeposited := h.deposited hcredit hpos hcredits
      simpa [Step.change, Receipt.received, Receipt.paid, Step.created] using hdeposited
    · have hswapped := h.swapped hswap hstate
      simpa [Step.change, Receipt.received, Receipt.paid, Step.created] using hswapped
  case withdraw =>
    obtain ⟨_, -, symbol, amount, o₁, hwithdraw, rfl, rfl⟩ := hcall
    have hwithdrawn := h.withdrawn hwithdraw
    simpa [Step.change, Receipt.received, Receipt.paid, Step.created, ← sub_eq_add_neg]
      using hwithdrawn
  case transfer =>
    obtain ⟨o₁, ht, rfl, rfl⟩ := hcall
    have hsame := h.tokensOnly (tokensOnly_transfer ht)
    simpa [Step.change, Receipt.received, Receipt.paid, Step.created] using hsame
  case approve =>
    obtain ⟨o₁, ht, rfl, rfl⟩ := hcall
    have hsame := h.tokensOnly (tokensOnly_approve ht)
    simpa [Step.change, Receipt.received, Receipt.paid, Step.created] using hsame
  case transferFrom =>
    obtain ⟨o₁, ht, rfl, rfl⟩ := hcall
    have hsame := h.tokensOnly (tokensOnly_transferFrom ht)
    simpa [Step.change, Receipt.received, Receipt.paid, Step.created] using hsame

theorem conserved_init (h : init caller (Storage.view .empty) = .ok o) : Conserved asset 0 o := by
  obtain ⟨hreads, hstate, hnull⟩ := reads_init h
  have hzero : ∀ symbol owner, o.accounts symbol owner = 0 := fun symbol owner => by
    have hint : o.intOf (entryKey owner symbol) = .ok 0 := by
      rw [Overlay.intOf, hnull]
      rfl
    rw [Overlay.accounts, Overlay.held_of_intOf hint, Int64.toInt_zero]
  refine ⟨fun symbol owner => (hzero symbol owner).ge, _, hreads, .inr ⟨hstate, rfl, rfl⟩, ?_⟩
  rw [funext (hzero asset)]
  simpa [Pools.of, amountIf] using HasTotal.zero

theorem Conserved.view (h : Conserved asset t o) : Conserved asset t o.current.view := by
  obtain ⟨p, hreads, hconfigured, htotal⟩ := h.pools
  exact ⟨h.nonneg, p, ⟨hreads.1, hreads.2, hreads.3, hreads.4, hreads.5⟩, hconfigured, htotal⟩

variable {steps : List Step}

/-- **The total of an asset after a run**, with what removals created. -/
theorem Runs.conserved (h : Runs numerals (fun st => Fits (2 ^ 62) st ∧ CreditsFit st) s steps)
    (asset : Text) : Conserved asset (steps.map (Step.change asset)).sum s.view := by
  induction h with
  | init h =>
    obtain ⟨o, ho, rfl⟩ := perform_eq_ok.mp h
    exact (conserved_init ho).view
  | call hruns hcall hmeets ih =>
    have hcoherent := (hruns.mono fun _ hst => hst.1).coherent le_rfl
    obtain ⟨o, ho, rfl⟩ := invoke_eq_ok hcall
    rw [List.map_cons, List.sum_cons, add_comm]
    exact (ih.execute hcoherent ho hmeets.1 hmeets.2).view

theorem Runs.mem {Meets : Step → Prop} (h : Runs numerals Meets s steps) :
    ∀ st ∈ steps, Meets st := by
  induction h with
  | init => simp
  | call _ _ hmeets ih => exact List.forall_mem_cons.mpr ⟨hmeets, ih⟩

/-- **The market maker conserves both assets** in a run whose sums stay in range, if removals read
the balance of the right asset. -/
theorem both_conserved {steps : List Step} (h : Runs numerals Conserving s steps) :
    HasTotal (s.view.accounts (asset1 s.view))
      (received (asset1 s.view) steps - paid (asset1 s.view) steps - pool1 s.view) ∧
    HasTotal (s.view.accounts (asset2 s.view))
      (received (asset2 s.view) steps - paid (asset2 s.view) steps - pool2 s.view) := by
  have hruns := h.mono fun _ hst => (⟨hst.1, hst.2.1⟩ : Fits (2 ^ 62) _ ∧ CreditsFit _)
  have hchange : ∀ asset, (steps.map (Step.change asset)).sum =
      received asset steps - paid asset steps := fun asset => by
    have hcreated := h.mem
    clear h hruns
    induction steps with
    | nil => rfl
    | cons st steps ih =>
      obtain ⟨hst, hsteps⟩ := List.forall_mem_cons.mp hcreated
      rw [List.map_cons, List.sum_cons, ih hsteps, Step.change, hst.2.2]
      simp only [received, paid, List.map_cons, List.sum_cons, ite_self]
      ring
  have htotal : ∀ asset p, Reads s.view p → HasTotal (s.view.accounts asset)
      (received asset steps - paid asset steps - p.of asset) := fun asset p hreads => by
    rw [← hchange]
    exact ((hruns.conserved asset).of_reads hreads).2
  obtain ⟨p, hreads, hconfigured, -⟩ := (hruns.conserved []).pools
  have hof : p.of p.asset1 = p.pool1.toInt ∧ p.of p.asset2 = p.pool2.toInt := by
    rcases hconfigured with ⟨-, hne⟩ | ⟨-, h1, h2⟩
    · simp [Pools.of, amountIf, hne, hne.symm]
    · simp [Pools.of, amountIf, h1, h2]
  rw [hreads.asset1_eq, hreads.asset2_eq, hreads.pool1_eq, hreads.pool2_eq, ← hof.1, ← hof.2]
  exact ⟨htotal _ p hreads, htotal _ p hreads⟩

end runs

/-! ### Sample runs -/

instance : DecidablePred CreditsFit := fun ⟨_, _, r, _⟩ =>
  match r with
  | .deposited .. => inferInstanceAs (Decidable (_ < _))
  | .removed .. => inferInstanceAs (Decidable (_ ∧ _))
  | .none | .added .. | .swapped .. | .withdrawn .. => inferInstanceAs (Decidable True)

instance : DecidablePred Conserving := fun _ => inferInstanceAs (Decidable (_ ∧ _ ∧ _))

/-- Liquidity is added and all of it removed. -/
def removalApis (deposit : Int64) : List Api :=
  [.onDepositAsset deposit (text "P") [], .onDepositAsset 100 (text "Q") [],
    .addLiquidity (text "10,10,1"), .removeLiquidity (text "10000,0,0,1")]

theorem both_conserved_sample : ∃ numerals s steps, Runs numerals Conserving s steps ∧
    asset1 s.view = text "P" ∧ asset2 s.view = text "Q" ∧
    HasTotal (s.view.accounts (text "P")) 100 ∧ HasTotal (s.view.accounts (text "Q")) 100 := by
  have hrun : (sampleRun Conserving (removalApis 100)).map (fun reached =>
      let s := reached.2
      (asset1 s.view, asset2 s.view, received (text "P") reached.1 - paid (text "P") reached.1 -
        pool1 s.view, received (text "Q") reached.1 - paid (text "Q") reached.1 - pool2 s.view)) =
      .ok (text "P", text "Q", 100, 100) := by
    decide +kernel
  obtain ⟨⟨steps, s⟩, hreached, hfacts⟩ := map_eq_ok.mp hrun
  simp only [Prod.mk.injEq] at hfacts
  obtain ⟨hasset1, hasset2, h1, h2⟩ := hfacts
  have hruns := runs_sampleRun hreached
  obtain ⟨htotal1, htotal2⟩ := both_conserved hruns
  rw [hasset1, h1] at htotal1
  rw [hasset2, h2] at htotal2
  exact ⟨_, s, steps, hruns, hasset1, hasset2, htotal1, htotal2⟩

/-- **A removal creates ten units of `Q`**: the caller has 100 units of `P` and 90 of `Q`, and gets
ten units of each. -/
theorem removal_creates : ∃ numerals s steps,
    Runs numerals (fun st => Fits (2 ^ 62) st ∧ CreditsFit st) s steps ∧
    asset2 s.view = text "Q" ∧ received (text "Q") steps = 100 ∧ paid (text "Q") steps = 0 ∧
    pool2 s.view = 0 ∧ HasTotal (s.view.accounts (text "Q")) 110 ∧
    ¬ HasTotal (s.view.accounts (text "Q")) 100 := by
  have hrun : (sampleRun (fun st => Fits (2 ^ 62) st ∧ CreditsFit st) (removalApis 110)).map
      (fun reached => (asset1 reached.2.view, asset2 reached.2.view, received (text "Q") reached.1,
        paid (text "Q") reached.1, pool2 reached.2.view,
        (reached.1.map (Step.change (text "Q"))).sum)) = .ok (text "P", text "Q", 100, 0, 0, 110) := by
    decide +kernel
  obtain ⟨⟨steps, s⟩, hreached, hfacts⟩ := map_eq_ok.mp hrun
  simp only [Prod.mk.injEq] at hfacts
  obtain ⟨hasset1, hasset2, hreceived, hpaid, hpool, hchange⟩ := hfacts
  have hruns := runs_sampleRun hreached
  have hconserved := hruns.conserved (text "Q")
  rw [hchange] at hconserved
  obtain ⟨p, hreads, -, htotal⟩ := hconserved.pools
  have hof : p.of (text "Q") = 0 := by
    rw [hreads.asset1_eq] at hasset1
    rw [hreads.asset2_eq] at hasset2
    rw [hreads.pool2_eq] at hpool
    have hne : text "P" ≠ text "Q" := by decide
    simp [Pools.of, amountIf, hasset1, hasset2, hpool, hne]
  rw [hof, sub_zero] at htotal
  exact ⟨_, s, steps, hruns, hasset2, hreceived, hpaid, hpool, htotal,
    fun h => absurd (h.unique htotal) (by decide)⟩

end Uniswap

end Whitecoin.Native
