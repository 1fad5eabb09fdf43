import Whitecoin.Native.Exchange

/-!
# What an accepted fill did
-/

namespace Whitecoin.Native

open Check Cbor

namespace Exchange

variable {env : Env} {now : UInt64} {o o' : Overlay}

/-! ### Names -/

theorem OrderId.point_notMem (id : OrderId) : 46 ∉ id.1 := fun h =>
  absurd (id.2 46 h) (by decide)

theorem OrderId.ne_address (id : OrderId) (a : Address) : a.1 ≠ id.1 := by
  intro h
  obtain ⟨t, ht⟩ := a.2.1
  have hmem : 88 ∈ id.1 := by
    rw [← h, ← ht]
    exact List.mem_append_left _ (by decide)
  exact absurd (id.2 88 hmem) (by decide)

theorem record_ne_account (id : OrderId) (a : Address) (k symbol : Text) :
    entryKey a symbol ≠ entryKey id k := fun h =>
  id.ne_address a (entryKey_inj a.2.2 id.point_notMem h).1

/-! ### One order -/

/-- What holds of an order that was filled. -/
structure Accepted (env : Env) (m : FillOrder) (o : Overlay) (f : Fill) : Prop where
  order : f.order = m
  before : f.before = o
  owner : getOrderOwnerAddressAndId env m.order = .ok (some (f.owner, f.id))
  info : env.readOrderInfo m.order.orderInfo = .ok f.info
  purchaseNum : 0 < f.info.purchaseNum.toInt
  payNum : 0 < f.info.payNum.toInt
  getNum : 0 < m.getNum.toInt
  spentNum : 0 < m.spentNum.toInt
  limit : m.spentNum.toInt ≤ f.info.payNum.toInt
  receiver : feeReceiverOf env f.info o = .ok f.feeReceiver
  minFee : o.intOf (entryKey f.info.payAsset (text "minFee")) = .ok f.minFee
  fee : spentFeeOf f.info.fee m.spentNum f.minFee = .ok f.spentFee
  price : checkPrice f.info m.getNum m.spentNum = .ok ()
  writes : ∃ (bal : Int64) (store record : CborObject) (recorded : Overlay),
    o.intOf (entryKey f.owner f.info.payAsset) = .ok bal ∧ ¬ bal < m.spentNum + f.spentFee ∧
    o.entry f.id (text "info") = .ok store ∧
    recordFill f.info.payNum m.getNum m.spentNum store = .ok record ∧
    o.setEntry f.id (text "info") record = .ok recorded ∧
    recorded.setEntry f.owner f.info.payAsset (.int (bal - m.spentNum - f.spentFee)) =
      .ok f.charged ∧
    f.charged.credit f.owner f.info.purchaseAsset m.getNum = .ok f.credited
  paid : payFee f.feeReceiver f.info.payAsset f.spentFee f.credited = .ok f.after

variable {m : FillOrder} {f : Fill} {orders : List FillOrder} {fills : List Fill} {caller : Address}
  {call : Invocation} {receipt : Receipt}

theorem checkOrder_eq_ok (h : checkOrder env now m o = .ok f) : Accepted env m o f := by
  simp only [checkOrder, bind_eq_ok, require_eq_ok, found_eq_ok, exists_const, pure_eq_ok,
    Prod.exists] at h
  obtain ⟨_, howner, addr, id, rfl, info, hinfo, -, ⟨hpurchase, hpay, hget, hspent⟩, h⟩ := h
  obtain ⟨hlimit, receiver, hreceiver, -, minFee, hmin, fee, hfee, -, ⟨⟩, hprice, h⟩ := h
  obtain ⟨balance, hbalance, hint, bal, hbal, hle, store, hstore, record, hrecord, h⟩ := h
  obtain ⟨recorded, hset, charged, hcharged, credited, hcredited, after, hpaid, rfl⟩ := h
  simp only [Int64.lt_iff_toInt_lt, Int64.toInt_zero] at hpurchase hpay hget hspent hlimit
  refine ⟨rfl, rfl, howner, hinfo, hpurchase, hpay, hget, hspent, not_lt.mp hlimit, hreceiver, hmin,
    hfee, hprice, ⟨bal, store, record, recorded, ?_, hle, hstore, hrecord, hset, hcharged,
      hcredited⟩, hpaid⟩
  rw [Overlay.intOf_of_get hbalance hint, hbal]

/-- **A fee** is not negative, and less than what is spent unless it is the minimum. -/
theorem spentFeeOf_eq_ok {fee : Text} {spentNum minFee n : Int64}
    (h : spentFeeOf fee spentNum minFee = .ok n) :
    0 ≤ n.toInt ∧ (n.toInt < spentNum.toInt ∨ n = minFee) := by
  simp only [spentFeeOf, bind_eq_ok] at h
  obtain ⟨-, -, -, -, -, -, v, -, h⟩ := h
  split_ifs at h with hneg hmin hge
  all_goals
    simp only [Int64.lt_iff_toInt_lt, Int64.toInt_zero, not_lt] at hneg hmin
  · obtain rfl := pure_eq_ok.mp h
    exact ⟨by omega, .inr rfl⟩
  · obtain rfl := pure_eq_ok.mp h
    rw [Int64.le_iff_toInt_le, not_le] at hge
    exact ⟨hneg, .inl hge⟩

theorem payFee_eq_ok {receiver asset : Text} {fee : Int64}
    (h : payFee receiver asset fee o = .ok o') :
    (0 < fee.toInt ∧ o.setEntry receiver asset (.int fee) = .ok o') ∨ (¬ 0 < fee.toInt ∧ o' = o) := by
  unfold payFee at h
  split_ifs at h with hpos
  · simp only [bind_eq_ok] at h
    obtain ⟨-, -, hset⟩ := h
    rw [Int64.zero_add] at hset
    exact .inl ⟨by rwa [Int64.lt_iff_toInt_lt, Int64.toInt_zero] at hpos, hset⟩
  · rw [Int64.lt_iff_toInt_lt, Int64.toInt_zero] at hpos
    exact .inr ⟨hpos, (pure_eq_ok.mp h).symm⟩

/-! ### Names that are not entries -/

/-- The stored receiver of fees is an address. -/
def ReceiverOk (o : Overlay) : Prop :=
  ∀ r, o.getString (text "feeReceiver") = .ok r → IsAddress r

theorem Accepted.frame (h : Accepted env m o f) : o.Frame f.after := by
  obtain ⟨_, _, _, recorded, -, -, -, -, hrecorded, hcharged, hcredit⟩ := h.writes
  obtain ⟨_, -, hcredited⟩ := Overlay.credit_eq_ok hcredit
  have hpaid : f.credited.Frame f.after := by
    rcases payFee_eq_ok h.paid with ⟨-, hset⟩ | ⟨-, heq⟩
    · exact Overlay.frame_setEntry hset
    · rw [heq]
      exact .refl _
  exact (Overlay.frame_setEntry hrecorded).trans <| (Overlay.frame_setEntry hcharged).trans <|
    (Overlay.frame_setEntry hcredited).trans hpaid

theorem Accepted.isAddress (h : Accepted env m o f) (ho : ReceiverOk o) :
    IsAddress f.feeReceiver := by
  have hreceiver := h.receiver
  unfold feeReceiverOf at hreceiver
  split_ifs at hreceiver
  · exact ho _ hreceiver
  · simp only [bind_eq_ok, require_eq_ok, exists_const, pure_eq_ok] at hreceiver
    obtain ⟨hvalid, heq⟩ := hreceiver
    exact env.isAddress_of_valid _ (heq ▸ hvalid)

theorem ReceiverOk.frame {o o' : Overlay} (ho : ReceiverOk o) (h : o.Frame o') : ReceiverOk o' :=
  fun r hr => ho r (by rwa [h.getString (by decide)] at hr)

/-! ### Matched orders -/

/-- Orders that were filled one after the other. -/
inductive Filled (env : Env) : List FillOrder → Overlay → List Fill → Prop
  | nil (o : Overlay) : Filled env [] o []
  | cons {m : FillOrder} {orders : List FillOrder} {o : Overlay} {f : Fill} {fills : List Fill}
    (h : Accepted env m o f) (hrest : Filled env orders f.after fills) :
    Filled env (m :: orders) o (f :: fills)

theorem Filled.map_order (h : Filled env orders o fills) : fills.map Fill.order = orders := by
  induction h with
  | nil => rfl
  | cons hf _ ih => rw [List.map_cons, hf.order, ih]

theorem Filled.accepted (h : Filled env orders o fills) (hf : f ∈ fills) :
    ∃ m ∈ orders, ∃ o, Accepted env m o f := by
  induction h with
  | nil => simp at hf
  | cons hfirst _ ih =>
    rcases List.mem_cons.mp hf with rfl | hf
    · exact ⟨_, List.mem_cons_self .., _, hfirst⟩
    · obtain ⟨m, hm, o, h⟩ := ih hf
      exact ⟨m, List.mem_cons_of_mem _ hm, o, h⟩

theorem Filled.frame (h : Filled env orders o fills) : o.Frame (lastAfter o fills) := by
  induction h with
  | nil => exact .refl _
  | cons hf _ ih => exact hf.frame.trans ih

theorem checkMakers_eq_ok {taker : OrderInfo} {makers : List FillOrder}
    (h : checkMakers env now taker makers o = .ok fills) : Filled env makers o fills ∧
      ∀ f ∈ fills, f.info.payAsset = taker.purchaseAsset ∧
        f.info.purchaseAsset = taker.payAsset := by
  induction makers generalizing o fills with
  | nil =>
    obtain rfl := Except.ok.inj h
    exact ⟨.nil o, by simp⟩
  | cons m makers ih =>
    simp only [checkMakers, bind_eq_ok, require_eq_ok, exists_const, pure_eq_ok] at h
    obtain ⟨f, hf, ⟨hpay, hpurchase⟩, -, rest, hrest, rfl⟩ := h
    obtain ⟨hfilled, hassets⟩ := ih hrest
    exact ⟨.cons (checkOrder_eq_ok hf) hfilled,
      List.forall_mem_cons.mpr ⟨⟨hpay.symm, hpurchase.symm⟩, hassets⟩⟩

/-- A match: the taker comes first, and the makers trade the same assets the other way. -/
structure Matched (env : Env) (matched : MatchInfo) (o : Overlay) (taker : Fill)
    (makers : List Fill) : Prop where
  filled : Filled env (matched.fillTakerOrder :: matched.fillMakerOrders) o (taker :: makers)
  assets : ∀ f ∈ makers, f.info.payAsset = taker.info.purchaseAsset ∧
    f.info.purchaseAsset = taker.info.payAsset
  getNum : total (·.getNum) matched.fillMakerOrders = matched.fillTakerOrder.spentNum
  spentNum : total (·.spentNum) matched.fillMakerOrders = matched.fillTakerOrder.getNum

theorem checkMatchedOrders_eq_ok {matched : MatchInfo}
    (h : checkMatchedOrders env now matched o = .ok fills) :
    ∃ taker makers, fills = taker :: makers ∧ Matched env matched o taker makers := by
  simp only [checkMatchedOrders, bind_eq_ok, require_eq_ok, exists_const, pure_eq_ok] at h
  obtain ⟨taker, htaker, makers, hmakers, ⟨hget, hspent⟩, rfl⟩ := h
  obtain ⟨hfilled, hassets⟩ := checkMakers_eq_ok hmakers
  exact ⟨taker, makers, rfl, .cons (checkOrder_eq_ok htaker) hfilled, hassets, hget, hspent⟩

/-! ### Calls -/

theorem cancelOrder_eq_ok {canceled canceled' : List OrderId × Overlay} {order : Order}
    (h : cancelOrder env caller canceled order = .ok canceled') :
    canceled' = canceled ∨ ∃ id store record,
      getOrderOwnerAddressAndId env order = .ok (some (caller, id)) ∧
      canceled.2.entry id (text "info") = .ok store ∧ cancelRecord store = .ok (some record) ∧
      canceled'.1 = canceled.1 ++ [id] ∧
      canceled.2.setEntry id (text "info") record = .ok canceled'.2 := by
  simp only [cancelOrder, bind_eq_ok] at h
  obtain ⟨found, hfound, h⟩ := h
  split at h
  · rename_i addr id
    split_ifs at h with haddr
    · subst haddr
      simp only [bind_eq_ok] at h
      obtain ⟨store, hstore, record, hrecord, h⟩ := h
      split at h
      · simp only [bind_eq_ok, pure_eq_ok] at h
        obtain ⟨o', hset, rfl⟩ := h
        exact .inr ⟨id, store, _, hfound, hstore, hrecord, rfl, hset⟩
      · exact .inl (pure_eq_ok.mp h).symm
    · exact .inl (pure_eq_ok.mp h).symm
  · exact .inl (pure_eq_ok.mp h).symm

theorem checkCommon_eq_ok {u : Unit} (h : checkCommon o = .ok u) :
    o.getString (text "state") = .ok common := by
  simp only [checkCommon, bind_eq_ok, require_eq_ok] at h
  obtain ⟨state, hstate, rfl⟩ := h
  exact hstate

theorem cancelOrders_induction {P : List OrderId → Overlay → Prop} {orders : List Order}
    {canceled : List OrderId} (hcall : cancelOrders env caller orders o = .ok (canceled, o'))
    (hstart : P [] o)
    (hstep : ∀ {reported : List OrderId} {o₁ o₂ : Overlay} {id : OrderId} {store record : CborObject}, P reported o₁ → o₁.entry id (text "info") = .ok store → cancelRecord store = .ok (some record) → o₁.setEntry id (text "info") record = .ok o₂ → P (reported ++ [id]) o₂) :
    P canceled o' := by
  simp only [cancelOrders, bind_eq_ok] at hcall
  obtain ⟨-, -, hcall⟩ := hcall
  show (fun c : List OrderId × Overlay => P c.1 c.2) (canceled, o')
  refine foldlM_induction (P := fun c => P c.1 c.2) (s := ([], o)) hstart ?_ hcall
  rintro c c' order - hc hcancel
  rcases cancelOrder_eq_ok hcancel with rfl | ⟨id, store, record, -, hstore, hrecord, heq, hset⟩
  · exact hc
  · rw [heq]
    exact hstep hc hstore hrecord hset

theorem invoke_eq_ok {s s' : Storage} (h : invoke env call s = .ok (receipt, s')) :
    ∃ o, execute env call s.view = .ok (receipt, o) ∧ o.current = s' := by
  simp only [invoke, bind_eq_ok, pure_eq_ok, Prod.exists, Prod.mk.injEq] at h
  obtain ⟨r, o, ho, rfl, rfl⟩ := h
  exact ⟨o, ho, rfl⟩

/-- **Names that are not entries** change in `init_config` only, which sets the receiver of fees. -/
theorem execute_frame (h : execute env call o = .ok (receipt, o')) :
    o.Frame o' ∨ ReceiverOk o' := by
  unfold execute at h
  split at h
  all_goals
    simp only [bind_eq_ok, pure_eq_ok, Prod.exists, Prod.mk.injEq] at h
  · rename_i arg _
    obtain ⟨o₁, h, -, rfl⟩ := h
    simp only [initConfig, bind_eq_ok, require_eq_ok, exists_const] at h
    obtain ⟨-, -, -, -, -, -, hvalid, hall⟩ := h
    refine .inr fun r hr => ?_
    have hnames : [text "feeReceiver", text "state"].Nodup := by decide
    rw [Overlay.getString_setAll _ (trim arg) hall (by simp) hnames] at hr
    exact Except.ok.inj hr ▸ env.isAddress_of_valid _ hvalid
  · obtain ⟨o₁, h, -, rfl⟩ := h
    simp only [setMinFee, bind_eq_ok] at h
    obtain ⟨-, -, -, -, h⟩ := h
    split at h
    · simp only [bind_eq_ok, require_eq_ok, exists_const] at h
      obtain ⟨-, -, minFee, -, -, hset⟩ := h
      exact .inl (Overlay.frame_setEntry hset)
    · simp at h
  · obtain ⟨-, -, fills, hfills, -, rfl⟩ := h
    obtain ⟨taker, makers, rfl, hmatched⟩ := checkMatchedOrders_eq_ok hfills
    exact .inl hmatched.filled.frame
  · obtain ⟨canceled, o₁, h, -, rfl⟩ := h
    exact .inl (cancelOrders_induction (P := fun _ p => o.Frame p) h (.refl o)
      fun hc _ _ hset => hc.trans (Overlay.frame_setEntry hset))
  · obtain ⟨o₁, h, -, rfl⟩ := h
    simp only [onDepositAsset, bind_eq_ok, require_eq_ok, exists_const] at h
    obtain ⟨-, -, -, h⟩ := h
    obtain ⟨_, -, hset⟩ := Overlay.credit_eq_ok h
    exact .inl (Overlay.frame_setEntry hset)
  · obtain ⟨symbol, amount, o₁, h, -, rfl⟩ := h
    simp only [withdraw, bind_eq_ok] at h
    obtain ⟨-, -, h⟩ := h
    obtain ⟨_, -, -, -, hset⟩ := withdraw_eq_ok h
    exact .inl (Overlay.frame_setEntry hset)

/-! ### Runs -/

section runs

variable {Meets Meets' : Storage → Invocation → Receipt → Prop} {s : Storage}
  {receipts : List Receipt}

theorem Runs.mono (himp : ∀ s call r, Meets s call r → Meets' s call r)
    (h : Runs env Meets s receipts) : Runs env Meets' s receipts := by
  induction h with
  | init h => exact .init h
  | call _ hcall hmeets ih => exact .call ih hcall (himp _ _ _ hmeets)

theorem Runs.forall_receipts {P : Receipt → Prop} (himp : ∀ s call r, Meets s call r → P r)
    (h : Runs env Meets s receipts) : ∀ r ∈ receipts, P r := by
  induction h with
  | init h => simp
  | call _ _ hmeets ih => exact List.forall_mem_cons.mpr ⟨himp _ _ _ hmeets, ih⟩

/-- **Once `init_config` was accepted, fees go to addresses.** -/
theorem Runs.receiver (h : Runs env Meets s receipts)
    (hstate : s.view.getString (text "state") = .ok common) : ReceiverOk s.view := by
  induction h with
  | init h =>
    obtain ⟨o, ho, rfl⟩ := perform_eq_ok.mp h
    simp only [Exchange.init, bind_eq_ok, require_eq_ok, exists_const] at ho
    obtain ⟨o₁, hall, -, hset⟩ := ho
    have hstate' : o.getString (text "state") = .ok notInited := by
      rw [Overlay.getString_congr (Overlay.get_set_of_ne hset (by decide)),
        Overlay.getString_setAll _ notInited hall (by simp) (by decide)]
    exact absurd (Except.ok.inj (hstate.symm.trans hstate')) (by decide)
  | call _ hcall _ ih =>
    obtain ⟨o, ho, rfl⟩ := invoke_eq_ok hcall
    rcases execute_frame ho with hframe | hreceiver
    · exact (ih (by rwa [← hframe.getString (by decide)])).frame hframe
    · exact hreceiver

end runs

end Exchange

end Whitecoin.Native
