import Whitecoin.Native.ExchangeFills

/-!
# The balances of the exchange

The owner of an order is charged what is spent and a fee, and is credited with what is received. The
contract adds in 64 bits without a check. The fee replaces the balance of its receiver instead of
being added to it.

As long as the sums stay in range, a run takes from the total of an asset, besides what is
withdrawn, nothing but the balances that fees have replaced.
-/

namespace Whitecoin.Native

open Check Cbor

namespace Exchange

variable {env : Env} {m : FillOrder} {o : Overlay} {f : Fill}

/-! ### One order -/

namespace Accepted

theorem charge_eq_ok (h : Accepted env m o f) (ho : o.Nonneg) :
    ∃ (bal : Int64) (recorded : Overlay), recorded.Nonneg ∧ recorded.accounts = o.accounts ∧
      o.accounts f.info.payAsset f.owner = bal.toInt ∧ ¬ bal < m.spentNum + f.spentFee ∧
      recorded.setEntry f.owner f.info.payAsset (.int (bal - m.spentNum - f.spentFee)) =
        .ok f.charged := by
  obtain ⟨bal, _, _, recorded, hbal, hle, -, -, hrecorded, hset, -⟩ := h.writes
  refine ⟨bal, recorded, ho.set_of_ne hrecorded fun a s => record_ne_account f.id a _ s, ?_,
    Overlay.held_of_intOf hbal, hle, hset⟩
  funext symbol owner
  exact Overlay.accounts_set_of_ne hrecorded (record_ne_account f.id owner _ symbol)

/-- **The balance suffices** if what is spent and the fee together fit into 64 bits. -/
theorem charge (h : Accepted env m o f) (ho : o.Nonneg)
    (hlt : m.spentNum.toInt + f.spentFee.toInt < 2 ^ 63) :
    m.spentNum.toInt + f.spentFee.toInt ≤ o.accounts f.info.payAsset f.owner ∧
      f.charged.Nonneg ∧ f.charged.accounts = Function.update o.accounts f.info.payAsset
        (Function.update (o.accounts f.info.payAsset) f.owner
          (o.accounts f.info.payAsset f.owner - m.spentNum.toInt - f.spentFee.toInt)) := by
  obtain ⟨bal, recorded, hnonneg, hsame, hbal, hle, hset⟩ := h.charge_eq_ok ho
  have hfee := (spentFeeOf_eq_ok h.fee).1
  have hspent := h.spentNum
  have hbound := bal.toInt_lt
  have hsum : (m.spentNum + f.spentFee).toInt = m.spentNum.toInt + f.spentFee.toInt :=
    Word.toInt_add_of_lt (by omega) hlt
  rw [Int64.lt_iff_toInt_lt, not_lt, hsum] at hle
  have hdiff : (bal - m.spentNum - f.spentFee).toInt =
      bal.toInt - m.spentNum.toInt - f.spentFee.toInt := by
    have hfirst : (bal - m.spentNum).toInt = bal.toInt - m.spentNum.toInt :=
      Word.toInt_sub_of_le (by omega) (by omega)
    rw [Word.toInt_sub_of_le (by omega) (by omega), hfirst]
  refine ⟨by rwa [hbal], hnonneg.set_int hset (by omega), ?_⟩
  rw [Overlay.accounts_set_int hset, Overlay.readInt_of_nonneg (by omega), hsame, hdiff, hbal]

theorem credit (h : Accepted env m o f) :
    f.charged.credit f.owner f.info.purchaseAsset m.getNum = .ok f.credited := by
  obtain ⟨-, -, -, -, -, -, -, -, -, -, hcredit⟩ := h.writes
  exact hcredit

theorem nonneg_after (h : Accepted env m o f) (hc : f.credited.Nonneg) : f.after.Nonneg := by
  rcases payFee_eq_ok h.paid with ⟨hpos, hset⟩ | ⟨-, heq⟩
  · exact hc.set_int hset hpos.le
  · rwa [heq]

end Accepted

/-! ### Totals -/

/-- What a fill adds to the total of an asset, apart from the fee. -/
def Fill.effect (asset : Text) (f : Fill) : ℤ :=
  (if f.info.purchaseAsset = asset then f.order.getNum.toInt else 0) -
    if f.info.payAsset = asset then f.order.spentNum.toInt else 0

/-- The balance that is replaced by the fee. -/
def Fill.lost (asset : Text) (f : Fill) : ℤ :=
  if 0 < f.spentFee.toInt ∧ f.info.payAsset = asset
  then f.credited.held (entryKey f.feeReceiver asset) else 0

/-- The sums of a fill are in range. -/
def Fill.InRange (f : Fill) : Prop :=
  f.order.spentNum.toInt + f.spentFee.toInt < 2 ^ 63 ∧
  f.charged.accounts f.info.purchaseAsset f.owner + f.order.getNum.toInt < 2 ^ 63

variable {asset : Text} {t : ℤ} {orders : List FillOrder} {s : Storage} {receipts : List Receipt}
  {Meets : Storage → Invocation → Receipt → Prop} {calls : List Invocation}
  {reached : List Receipt × Storage}

theorem Accepted.total (h : Accepted env m o f) (ho : o.Nonneg) (hr : f.InRange)
    (hreceiver : IsAddress f.feeReceiver) (ht : HasTotal (o.accounts asset) t) :
    f.after.Nonneg ∧ HasTotal (f.after.accounts asset) (t + f.effect asset - f.lost asset) := by
  unfold Fill.InRange at hr
  unfold Fill.effect Fill.lost
  rw [h.order] at hr ⊢
  obtain ⟨-, hcharged, hacc⟩ := h.charge ho hr.1
  obtain ⟨hcredited, hacc'⟩ := Overlay.accounts_credit h.credit hcharged h.getNum hr.2
  refine ⟨h.nonneg_after hcredited, ?_⟩
  have ht' : HasTotal (f.credited.accounts asset)
      (t - (if f.info.payAsset = asset then m.spentNum.toInt + f.spentFee.toInt else 0) +
        if f.info.purchaseAsset = asset then m.getNum.toInt else 0) := by
    convert Overlay.hasTotal_accounts hacc' (Overlay.hasTotal_accounts hacc ht) using 1
    split_ifs <;> ring
  have hfee := (spentFeeOf_eq_ok h.fee).1
  rcases payFee_eq_ok h.paid with ⟨hpos, hset⟩ | ⟨hpos, heq⟩
  · have hset' : f.credited.setEntry (⟨f.feeReceiver, hreceiver⟩ : Address) f.info.payAsset
        (.int f.spentFee) = .ok f.after := hset
    convert Overlay.hasTotal_accounts (Overlay.accounts_set_int hset') ht' using 1
    rw [Overlay.readInt_of_nonneg hpos.le]
    by_cases hpay : f.info.payAsset = asset
    · subst hpay
      simp only [hpos, true_and, if_true, Overlay.accounts]
      ring
    · simp only [hpay, and_false, if_false]
      ring
  · rw [heq]
    convert ht' using 1
    simp only [hpos, false_and, if_false]
    split_ifs <;> omega

theorem Filled.total {fills : List Fill} (h : Filled env orders o fills) (ho : o.Nonneg)
    (hreceiver : ReceiverOk o) (hr : ∀ f ∈ fills, f.InRange) (ht : HasTotal (o.accounts asset) t) :
    (lastAfter o fills).Nonneg ∧ HasTotal ((lastAfter o fills).accounts asset)
      (t + (fills.map (Fill.effect asset)).sum - (fills.map (Fill.lost asset)).sum) := by
  induction h generalizing t with
  | nil => exact ⟨ho, by simpa [lastAfter] using ht⟩
  | @cons m orders o f fills hf hrest ih =>
    obtain ⟨hfirst, hr⟩ := List.forall_mem_cons.mp hr
    obtain ⟨hnonneg, htotal⟩ := hf.total ho hfirst (hf.isAddress hreceiver) ht
    obtain ⟨hlast, hsum⟩ := ih hnonneg (hreceiver.frame hf.frame) hr htotal
    refine ⟨hlast, ?_⟩
    rw [lastAfter, List.map_cons, List.map_cons, List.sum_cons, List.sum_cons]
    convert hsum using 1
    ring

theorem toInt_total {num : FillOrder → Int64} (hpos : ∀ m ∈ orders, 0 < (num m).toInt)
    (hlt : (orders.map fun m => (num m).toInt).sum < 2 ^ 63) :
    (Exchange.total num orders).toInt = (orders.map fun m => (num m).toInt).sum := by
  suffices h : ∀ sum : Int64, 0 ≤ sum.toInt →
      sum.toInt + (orders.map fun m => (num m).toInt).sum < 2 ^ 63 →
      (orders.foldl (fun sum m => num m + sum) sum).toInt =
        sum.toInt + (orders.map fun m => (num m).toInt).sum by
    simpa [Exchange.total] using h 0 le_rfl (by simpa using hlt)
  clear hlt
  induction orders with
  | nil => simp
  | cons m orders ih =>
    intro sum hsum hlt
    obtain ⟨hm, hpos⟩ := List.forall_mem_cons.mp hpos
    have hrest : 0 ≤ (orders.map fun m => (num m).toInt).sum :=
      List.sum_nonneg fun x hx => by
        obtain ⟨m, hm, rfl⟩ := List.mem_map.mp hx
        exact (hpos m hm).le
    rw [List.map_cons, List.sum_cons] at hlt ⊢
    have hstep : (num m + sum).toInt = (num m).toInt + sum.toInt :=
      Word.toInt_add_of_lt (by omega) (by omega)
    rw [List.foldl_cons, ih hpos _ (by omega) (by omega), hstep]
    ring

/-- **A match moves assets between its orders only**: what the taker receives the makers spend, and
the other way round. -/
theorem Matched.effect_eq_zero {matched : MatchInfo} {taker : Fill} {makers : List Fill}
    (h : Matched env matched o taker makers)
    (hget : (makers.map fun f => f.order.getNum.toInt).sum < 2 ^ 63)
    (hspent : (makers.map fun f => f.order.spentNum.toInt).sum < 2 ^ 63) (asset : Text) :
    ((taker :: makers).map (Fill.effect asset)).sum = 0 := by
  obtain ⟨htaker, hmakers⟩ := List.cons_eq_cons.mp h.filled.map_order
  have hpos : ∀ m ∈ matched.fillMakerOrders, 0 < m.getNum.toInt ∧ 0 < m.spentNum.toInt := by
    intro m hm
    rw [← hmakers] at hm
    obtain ⟨f, hf, rfl⟩ := List.mem_map.mp hm
    obtain ⟨m, -, o, hacc⟩ := h.filled.accepted (List.mem_cons_of_mem _ hf)
    rw [hacc.order]
    exact ⟨hacc.getNum, hacc.spentNum⟩
  have hsums : ∀ num : FillOrder → Int64, (∀ m ∈ matched.fillMakerOrders, 0 < (num m).toInt) →
      (makers.map fun f => (num f.order).toInt).sum < 2 ^ 63 →
      (Exchange.total num matched.fillMakerOrders).toInt =
        (makers.map fun f => (num f.order).toInt).sum := fun num hnum hlt => by
    have hmap : makers.map (fun f => (num f.order).toInt) =
        matched.fillMakerOrders.map fun m => (num m).toInt := by
      rw [← hmakers, List.map_map]
      rfl
    rw [hmap] at hlt ⊢
    exact toInt_total hnum hlt
  have hgetSum := hsums (·.getNum) (fun m hm => (hpos m hm).1) hget
  have hspentSum := hsums (·.spentNum) (fun m hm => (hpos m hm).2) hspent
  rw [h.getNum] at hgetSum
  rw [h.spentNum] at hspentSum
  have hmaker : (makers.map (Fill.effect asset)).sum =
      (if taker.info.payAsset = asset then (makers.map fun f => f.order.getNum.toInt).sum else 0) -
        if taker.info.purchaseAsset = asset
          then (makers.map fun f => f.order.spentNum.toInt).sum else 0 := by
    have hassets := h.assets
    clear * - hassets
    induction makers with
    | nil => simp
    | cons f makers ih =>
      obtain ⟨⟨hpay, hpurchase⟩, hassets⟩ := List.forall_mem_cons.mp hassets
      simp only [List.map_cons, List.sum_cons, ih hassets, Fill.effect, hpay, hpurchase]
      split_ifs <;> ring
  rw [List.map_cons, List.sum_cons, hmaker, ← hgetSum, ← hspentSum, Fill.effect, htaker]
  ring

/-! ### Calls -/

/-- The sums of a call are in range. -/
def InRange (s : Storage) (call : Invocation) (r : Receipt) : Prop :=
  (∀ f ∈ r.fills, f.InRange) ∧
  (r.fills.tail.map fun f => f.order.getNum.toInt).sum < 2 ^ 63 ∧
  (r.fills.tail.map fun f => f.order.spentNum.toInt).sum < 2 ^ 63 ∧
  ∀ d ∈ r.deposited, s.view.accounts d.1 call.caller + d.2.toInt < 2 ^ 63

/-- No fee replaces a balance. -/
def FeesKept (r : Receipt) : Prop := ∀ f ∈ r.fills, f.lost f.info.payAsset = 0

/-- The condition under which a call conserves the assets. -/
def Conserving (s : Storage) (call : Invocation) (r : Receipt) : Prop :=
  InRange s call r ∧ FeesKept r

/-- The amounts of an asset among transfers. -/
def amountOf (asset : Text) (moved : List (Text × Int64)) : ℤ :=
  (moved.map fun d => if d.1 = asset then d.2.toInt else 0).sum

/-- What a call adds to the total of an asset. -/
def Receipt.change (asset : Text) (r : Receipt) : ℤ :=
  amountOf asset r.deposited - amountOf asset r.withdrawn - (r.fills.map (Fill.lost asset)).sum

/-- The texts of asset symbols. -/
def IsSymbol (asset : Text) : Prop := ∀ c ∈ asset, (65 ≤ c ∧ c ≤ 90) ∨ isDigit c = true ∨ c = 46

theorem minFee_ne_account (h : IsSymbol asset) (owner : Address) (symbol : Text) :
    entryKey owner asset ≠ entryKey symbol (text "minFee") := by
  intro heq
  have hlast := congrArg List.getLast? heq
  rw [getLast?_entryKey (c := 101) (by decide) symbol, entryKey, List.append_assoc,
    List.getLast?_append] at hlast
  have hmem : 101 ∈ text "." ++ asset := by
    refine List.mem_of_getLast? ?_
    simpa [text] using hlast
  rcases List.mem_append.mp hmem with hmem | hmem
  · exact absurd hmem (by decide)
  · exact absurd (h 101 hmem) (by decide)

/-- No account is negative, and the accounts of an asset sum up to a total. -/
structure Balanced (asset : Text) (t : ℤ) (o : Overlay) : Prop where
  nonneg : o.Nonneg
  total : HasTotal (o.accounts asset) t

theorem Balanced.of_accounts {o' : Overlay} (h : Balanced asset t o) (hn : o'.Nonneg)
    (hsame : ∀ owner, o'.accounts asset owner = o.accounts asset owner) : Balanced asset t o' :=
  ⟨hn, by
    rw [funext hsame]
    exact h.total⟩

section calls

variable {o' : Overlay} {caller : Address} {asset : Text} {t : ℤ}

variable {arg : Text}

theorem Balanced.initConfig (h : Balanced asset t o) (hcall : initConfig env caller arg o = .ok o') :
    Balanced asset t o' := by
  simp only [Exchange.initConfig, bind_eq_ok, require_eq_ok, exists_const] at hcall
  obtain ⟨-, -, -, -, -, -, -, hall⟩ := hcall
  have hsame : o'.accounts = o.accounts := by
    funext symbol owner
    refine Overlay.held_congr (Overlay.get_setAll_of_notMem hall fun e he => Ne.symm ?_)
    refine ne_entryKey ?_ owner symbol
    rcases List.mem_pair.mp he with rfl | rfl
    · exact (by decide : 46 ∉ text "feeReceiver")
    · exact (by decide : 46 ∉ text "state")
  refine h.of_accounts ?_ fun owner => by rw [hsame]
  rw [Overlay.Nonneg, hsame]
  exact h.nonneg

theorem Balanced.setMinFee (h : Balanced asset t o) (hsymbol : IsSymbol asset)
    (hcall : setMinFee env caller arg o = .ok o') : Balanced asset t o' := by
  simp only [Exchange.setMinFee, bind_eq_ok] at hcall
  obtain ⟨-, -, -, -, hcall⟩ := hcall
  split at hcall
  · simp only [bind_eq_ok, require_eq_ok, exists_const] at hcall
    obtain ⟨-, -, minFee, -, hpos, hset⟩ := hcall
    rw [Int64.le_iff_toInt_le, Int64.toInt_zero] at hpos
    exact h.of_accounts (h.nonneg.set_int hset hpos) fun owner =>
      Overlay.accounts_set_of_ne hset (minFee_ne_account hsymbol owner _)
  · simp at hcall

theorem Balanced.cancelOrders {orders : List Order} {canceled : List OrderId}
    (h : Balanced asset t o) (hcall : cancelOrders env caller orders o = .ok (canceled, o')) :
    Balanced asset t o' := by
  refine cancelOrders_induction (P := fun _ p => Balanced asset t p) hcall h ?_
  intro _ o₁ o₂ id _ _ h _ _ hset
  exact h.of_accounts (h.nonneg.set_of_ne hset fun a s => record_ne_account id a _ s)
    fun owner => Overlay.accounts_set_of_ne hset (record_ne_account id owner _ asset)

theorem Balanced.fillOrder {now : UInt64} {matched : MatchInfo} {fills : List Fill}
    (h : Balanced asset t o) (hreceiver : ReceiverOk o)
    (hcall : checkMatchedOrders env now matched o = .ok fills) (hr : ∀ f ∈ fills, f.InRange)
    (hget : (fills.tail.map fun f => f.order.getNum.toInt).sum < 2 ^ 63)
    (hspent : (fills.tail.map fun f => f.order.spentNum.toInt).sum < 2 ^ 63) :
    Balanced asset (t - (fills.map (Fill.lost asset)).sum) (lastAfter o fills) := by
  obtain ⟨taker, makers, rfl, hmatched⟩ := checkMatchedOrders_eq_ok hcall
  obtain ⟨hnonneg, htotal⟩ := hmatched.filled.total h.nonneg hreceiver hr h.total
  rw [hmatched.effect_eq_zero hget hspent, add_zero] at htotal
  exact ⟨hnonneg, htotal⟩

theorem Balanced.onDepositAsset {num : Int64} {symbol : Text} (h : Balanced asset t o)
    (hcall : onDepositAsset caller num symbol o = .ok o')
    (hlt : o.accounts symbol caller + num.toInt < 2 ^ 63) :
    Balanced asset (t + if symbol = asset then num.toInt else 0) o' := by
  simp only [Exchange.onDepositAsset, bind_eq_ok, require_eq_ok, exists_const] at hcall
  obtain ⟨-, -, hpos, hcredit⟩ := hcall
  rw [Int64.lt_iff_toInt_lt, Int64.toInt_zero] at hpos
  obtain ⟨hnonneg, haccounts⟩ := Overlay.accounts_credit hcredit h.nonneg hpos hlt
  refine ⟨hnonneg, ?_⟩
  convert Overlay.hasTotal_accounts haccounts h.total using 3
  ring

theorem Balanced.withdraw {pays : Bool} {paid : Text × Int64} (h : Balanced asset t o)
    (hcall : withdraw env pays caller arg o = .ok (paid, o')) :
    Balanced asset (t - if paid.1 = asset then paid.2.toInt else 0) o' := by
  simp only [Exchange.withdraw, bind_eq_ok] at hcall
  obtain ⟨-, -, hcall⟩ := hcall
  obtain ⟨hnonneg, haccounts⟩ := accounts_withdraw hcall h.nonneg
  refine ⟨hnonneg, ?_⟩
  convert Overlay.hasTotal_accounts haccounts h.total using 1
  split_ifs <;> ring

theorem Balanced.execute {s : Storage} {call : Invocation} {r : Receipt}
    (h : Balanced asset t s.view) (hsymbol : IsSymbol asset)
    (hreceiver : s.view.getString (text "state") = .ok common → ReceiverOk s.view)
    (hcall : execute env call s.view = .ok (r, o')) (hr : InRange s call r) :
    Balanced asset (t + r.change asset) o' := by
  obtain ⟨hfills, hget, hspent, hdeposit⟩ := hr
  unfold Exchange.execute at hcall
  split at hcall
  all_goals
    simp only [bind_eq_ok, pure_eq_ok, Prod.exists, Prod.mk.injEq] at hcall
  · obtain ⟨o₁, ho₁, rfl, rfl⟩ := hcall
    simpa [Receipt.change, Receipt.none, amountOf] using h.initConfig ho₁
  · obtain ⟨o₁, ho₁, rfl, rfl⟩ := hcall
    simpa [Receipt.change, Receipt.none, amountOf] using h.setMinFee hsymbol ho₁
  · obtain ⟨_, hstate, fills, ho₁, rfl, rfl⟩ := hcall
    simpa [Receipt.change, Receipt.none, amountOf, ← sub_eq_add_neg] using
      h.fillOrder (hreceiver (checkCommon_eq_ok hstate)) ho₁ hfills hget hspent
  · obtain ⟨canceled, o₁, ho₁, rfl, rfl⟩ := hcall
    simpa [Receipt.change, Receipt.none, amountOf] using h.cancelOrders ho₁
  · rename_i num symbol _
    obtain ⟨o₁, ho₁, rfl, rfl⟩ := hcall
    have hlt := hdeposit (symbol, num) (List.mem_singleton_self _)
    simpa [Receipt.change, Receipt.none, amountOf] using h.onDepositAsset ho₁ hlt
  · obtain ⟨symbol, amount, o₁, ho₁, rfl, rfl⟩ := hcall
    simpa [Receipt.change, Receipt.none, amountOf, ← sub_eq_add_neg] using h.withdraw ho₁

theorem entry_init (h : init caller (Storage.view .empty) = .ok o) (storageName key : Text) :
    o.get (entryKey storageName key) = .ok .null := by
  simp only [init, bind_eq_ok, require_eq_ok, exists_const] at h
  obtain ⟨o₁, hall, -, hset⟩ := h
  rw [Overlay.get_set_of_ne hset (ne_entryKey (by decide) storageName key).symm,
    Overlay.get_setAll_of_notMem hall fun e he => (ne_entryKey ?_ storageName key).symm]
  · exact cborDecode_write ⟨trivial, by decide, by simp [CborObject.integers]⟩
  · simp only [List.mem_cons, List.not_mem_nil, or_false] at he
    rcases he with rfl | rfl | rfl <;> decide

theorem balanced_init (h : init caller (Storage.view .empty) = .ok o) : Balanced asset 0 o := by
  have hzero : ∀ symbol owner, o.accounts symbol owner = 0 := fun symbol owner => by
    have hint : o.intOf (entryKey owner symbol) = .ok 0 := by
      rw [Overlay.intOf, entry_init h]
      rfl
    rw [Overlay.accounts, Overlay.held_of_intOf hint]
    rfl
  refine ⟨fun symbol owner => (hzero symbol owner).ge, ?_⟩
  rw [funext (hzero asset)]
  exact .zero

end calls

/-- **The total of an asset after a run** whose sums stay in range. -/
theorem Runs.balanced (h : Runs env InRange s receipts) (hsymbol : IsSymbol asset) :
    Balanced asset (receipts.map (Receipt.change asset)).sum s.view := by
  induction h with
  | init h =>
    obtain ⟨o, ho, rfl⟩ := perform_eq_ok.mp h
    -- what is read depends on the current values only
    have hbalanced : Balanced asset 0 o := balanced_init ho
    exact ⟨hbalanced.nonneg, hbalanced.total⟩
  | call hruns hcall hmeets ih =>
    obtain ⟨o, ho, rfl⟩ := invoke_eq_ok hcall
    rw [List.map_cons, List.sum_cons, add_comm]
    have hbalanced := ih.execute hsymbol hruns.receiver ho hmeets
    exact ⟨hbalanced.nonneg, hbalanced.total⟩

/-- What was deposited of an asset. -/
def deposited (asset : Text) (receipts : List Receipt) : ℤ :=
  (receipts.map fun r => amountOf asset r.deposited).sum

/-- What was withdrawn of an asset. -/
def withdrawn (asset : Text) (receipts : List Receipt) : ℤ :=
  (receipts.map fun r => amountOf asset r.withdrawn).sum

theorem FeesKept.lost_eq_zero {r : Receipt} (h : FeesKept r) (asset : Text) :
    (r.fills.map (Fill.lost asset)).sum = 0 := by
  refine List.sum_eq_zero fun x hx => ?_
  obtain ⟨f, hf, rfl⟩ := List.mem_map.mp hx
  by_cases hpay : f.info.payAsset = asset
  · exact hpay ▸ h f hf
  · rw [Fill.lost, if_neg fun h => hpay h.2]

/-- **The exchange conserves every asset** in a run whose sums stay in range, if no fee replaces a
balance of its receiver. -/
theorem assets_conserved {s : Storage} {receipts : List Receipt}
    (h : Runs env Conserving s receipts) {asset : Text} (hsymbol : IsSymbol asset) :
    HasTotal (s.view.accounts asset) (deposited asset receipts - withdrawn asset receipts) := by
  obtain ⟨-, htotal⟩ := (h.mono fun _ _ _ hmeets => hmeets.1).balanced hsymbol
  have hkept := h.forall_receipts (P := FeesKept) fun _ _ _ hmeets => hmeets.2
  convert htotal using 1
  clear htotal h
  induction receipts with
  | nil => rfl
  | cons r receipts ih =>
    obtain ⟨hr, hkept⟩ := List.forall_mem_cons.mp hkept
    rw [List.map_cons, List.sum_cons, ← ih hkept, Receipt.change, hr.lost_eq_zero]
    simp only [deposited, withdrawn, List.map_cons, List.sum_cons]
    ring

/-! ### Runs with a fee -/

/-- Calls one after the other, each of which is accepted and meets a condition. -/
def runCalls (env : Env) (Meets : Storage → Invocation → Receipt → Prop)
    [∀ s c r, Decidable (Meets s c r)] :
    List Invocation → List Receipt × Storage → Except String (List Receipt × Storage)
  | [], reached => .ok reached
  | call :: calls, (receipts, s) => do
    let (receipt, s') ← invoke env call s
    require (Meets s call receipt) "the condition is not met"
    runCalls env Meets calls (receipt :: receipts, s')

theorem Runs.runCalls [∀ s c r, Decidable (Meets s c r)] (h : Runs env Meets s receipts)
    (hcalls : runCalls env Meets calls (receipts, s) = .ok reached) :
    Runs env Meets reached.2 reached.1 := by
  induction calls generalizing s receipts with
  | nil => exact Except.ok.inj hcalls ▸ h
  | cons call calls ih =>
    simp only [Exchange.runCalls, bind_eq_ok, require_eq_ok, exists_const, Prod.exists] at hcalls
    obtain ⟨receipt, s', hcall, hmeets, hcalls⟩ := hcalls
    exact ih (.call h hcall hmeets) hcalls

instance (f : Fill) : Decidable f.InRange := inferInstanceAs (Decidable (_ ∧ _))

instance (s : Storage) (call : Invocation) (r : Receipt) : Decidable (InRange s call r) :=
  inferInstanceAs (Decidable (_ ∧ _ ∧ _ ∧ _))

instance (r : Receipt) : Decidable (FeesKept r) := inferInstanceAs (Decidable (∀ f ∈ r.fills, _))

instance (s : Storage) (call : Invocation) (r : Receipt) : Decidable (Conserving s call r) :=
  inferInstanceAs (Decidable (_ ∧ _))

def alice : Address := ⟨text "XWCA", by decide⟩

def bob : Address := ⟨text "XWCB", by decide⟩

def carol : Address := ⟨text "XWCC", by decide⟩

/-- An environment in which `alice` has signed the order `"a"` and `bob` all others. Texts are
hashed to the hexadecimal digits that they have. -/
def sampleEnv (ofAlice ofBob : OrderInfo) : Env where
  numerals := ⟨fun _ => true⟩
  sha256 t := ⟨t.filter isHexDigit, fun _ hc => (List.mem_filter.mp hc).2⟩
  signer _ info := .ok (some (if info = text "a" then alice else bob))
  readOrderInfo info := .ok (if info = text "a" then ofAlice else ofBob)
  isValidAddress a := decide (IsAddress a)
  isAddress_of_valid _ h := of_decide_eq_true h

/-- An order without a relayer. -/
def sampleInfo (purchaseAsset : String) (purchaseNum : Int64) (payAsset : String) (payNum : Int64)
    (fee type : String) : OrderInfo :=
  ⟨text purchaseAsset, purchaseNum, text payAsset, payNum, [], text fee, text type, 1⟩

/-- The order of `alice` is filled with the one of `bob`. -/
def sampleMatch (getNum spentNum : Int64) : MatchInfo :=
  ⟨⟨⟨text "a", [], text "a"⟩, getNum, spentNum⟩, [⟨⟨text "b", [], text "b"⟩, spentNum, getNum⟩]⟩

/-- A storage whose fees go to `carol`, with the receipts, after deposits and further calls. -/
def sampleRun (env : Env) (Meets : Storage → Invocation → Receipt → Prop)
    [∀ s c r, Decidable (Meets s c r)] (calls : List Invocation) :
    Except String (List Receipt × Storage) := do
  let s ← perform (init carol) .empty
  runCalls env Meets (⟨.initConfig carol, carol, 0, true⟩ :: calls) ([], s)

theorem runs_sampleRun [∀ s c r, Decidable (Meets s c r)]
    (h : sampleRun env Meets calls = .ok reached) : Runs env Meets reached.2 reached.1 := by
  simp only [sampleRun, bind_eq_ok] at h
  obtain ⟨s, hs, h⟩ := h
  exact (Runs.init hs).runCalls h

/-- `alice` pays 100 units of `P` and a fee of 10 units. -/
def feeEnv : Env :=
  sampleEnv (sampleInfo "Q" 100 "P" 100 "0.1" "buy") (sampleInfo "P" 100 "Q" 100 "0.0" "sell")

theorem isSymbol_P : IsSymbol (text "P") :=
  List.forall_mem_singleton.mpr (by decide)

def feeCalls : List Invocation :=
  [⟨.onDepositAsset 110 (text "P"), alice, 0, true⟩, ⟨.onDepositAsset 100 (text "Q"), bob, 0, true⟩,
    ⟨.fillOrder (sampleMatch 100 100), alice, 0, true⟩]

theorem assets_conserved_sample : ∃ env s receipts, Runs env Conserving s receipts ∧
    deposited (text "P") receipts = 110 ∧ withdrawn (text "P") receipts = 4 ∧
    s.view.accounts (text "P") carol = 6 ∧ HasTotal (s.view.accounts (text "P")) 106 := by
  have hrun : (sampleRun feeEnv Conserving (feeCalls ++
      [⟨.withdraw (text "4,P"), carol, 0, true⟩])).map (fun r => (deposited (text "P") r.1,
        withdrawn (text "P") r.1, r.2.view.accounts (text "P") carol)) = .ok (110, 4, 6) := by
    decide +kernel
  obtain ⟨⟨receipts, s⟩, hreached, hfacts⟩ := map_eq_ok.mp hrun
  simp only [Prod.mk.injEq] at hfacts
  obtain ⟨hdeposited, hwithdrawn, hcarol⟩ := hfacts
  have hruns := runs_sampleRun hreached
  have htotal := assets_conserved hruns isSymbol_P
  rw [hdeposited, hwithdrawn] at htotal
  exact ⟨feeEnv, s, receipts, hruns, hdeposited, hwithdrawn, hcarol, htotal⟩

/-- **A fee replaces the balance of its receiver**: `carol` has 50 units when she receives 10. -/
theorem assets_not_conserved : ∃ env s receipts asset, Runs env InRange s receipts ∧
    IsSymbol asset ∧ deposited asset receipts = 160 ∧ withdrawn asset receipts = 0 ∧
    HasTotal (s.view.accounts asset) 110 ∧ ¬ HasTotal (s.view.accounts asset) 160 := by
  have hrun : (sampleRun feeEnv InRange
      (⟨.onDepositAsset 50 (text "P"), carol, 0, true⟩ :: feeCalls)).map (fun r =>
        (deposited (text "P") r.1, withdrawn (text "P") r.1,
          (r.1.map (Receipt.change (text "P"))).sum)) = .ok (160, 0, 110) := by
    decide +kernel
  obtain ⟨⟨receipts, s⟩, hreached, hfacts⟩ := map_eq_ok.mp hrun
  simp only [Prod.mk.injEq] at hfacts
  obtain ⟨hdeposited, hwithdrawn, hchange⟩ := hfacts
  have hruns := runs_sampleRun hreached
  have htotal := (hruns.balanced isSymbol_P).total
  rw [hchange] at htotal
  exact ⟨feeEnv, s, receipts, text "P", hruns, isSymbol_P, hdeposited, hwithdrawn, htotal,
    fun h => absurd (h.unique htotal) (by decide)⟩

end Exchange

end Whitecoin.Native
