import Whitecoin.Native.ExchangeRecords
import Whitecoin.Native.SafeNumberExact

/-!
# Cancelled orders and limit prices

An order is cancelled by a mark in its record. The mark is lost if the order has a record already,
so that an order which was filled in part can be filled further after it was reported as cancelled.

The price of every fill is compared exactly: the products have fewer than 128 bits. Together with
the record this bounds what the owner of an order spends.
-/

namespace Whitecoin.Native

open Check Cbor

namespace Exchange

variable {env : Env} {id : OrderId} {o o' : Overlay}

variable {m : FillOrder} {f : Fill} {orderInfo : Text} {payNum : ℤ} {info : OrderInfo}
  {fills : List Fill}

theorem Accepted.of_order (h : Accepted env m o f) {sig : Text}
    (horder : m.order.orderInfo = orderInfo ∧ m.order.sig = sig) :
    f.id = env.sha256 (orderInfo ++ sig) ∧ env.readOrderInfo orderInfo = .ok f.info := by
  obtain ⟨rfl, rfl⟩ := horder
  refine ⟨?_, h.info⟩
  have howner := h.owner
  simp only [getOrderOwnerAddressAndId] at howner
  split_ifs at howner
  · simp [pure, Except.pure] at howner
  · simp only [bind_eq_ok, pure_eq_ok, Option.map_eq_some_iff, Prod.mk.injEq] at howner
    obtain ⟨_, -, _, -, -, hid⟩ := howner
    exact hid.symm

/-! ### Cancelled orders -/

theorem cancelOrders_of_mem {call : Invocation} {r : Receipt}
    (hcall : execute env call o = .ok (r, o')) (hid : id ∈ r.canceled) :
    ∃ orders, cancelOrders env call.caller orders o = .ok (r.canceled, o') := by
  unfold execute at hcall
  split at hcall
  all_goals
    simp only [bind_eq_ok, pure_eq_ok, Prod.exists, Prod.mk.injEq] at hcall
  · obtain ⟨_, -, rfl, -⟩ := hcall
    simp [Receipt.none] at hid
  · obtain ⟨_, -, rfl, -⟩ := hcall
    simp [Receipt.none] at hid
  · obtain ⟨-, -, _, -, rfl, -⟩ := hcall
    simp [Receipt.none] at hid
  · obtain ⟨canceled, _, h, rfl, rfl⟩ := hcall
    exact ⟨_, h⟩
  · obtain ⟨_, -, rfl, -⟩ := hcall
    simp [Receipt.none] at hid
  · obtain ⟨_, _, _, -, rfl, -⟩ := hcall
    simp [Receipt.none] at hid

/-- An order without a record, or one that nothing is left of, has ended when it is reported. -/
theorem ended_of_cancelOrders {caller : Address} {orders : List Order} {canceled : List OrderId}
    {v : CborObject} (hv : o.entry id (text "info") = .ok v)
    (hstart : v.isMap = false ∨ Ended payNum v)
    (hcall : cancelOrders env caller orders o = .ok (canceled, o')) (hid : id ∈ canceled) :
    Tracked (fun v _ => Ended payNum v) id o' [] := by
  have hend : ∃ v, o'.entry id (text "info") = .ok v ∧ (v.isMap = false ∨ Ended payNum v) ∧
      (id ∈ canceled → Ended payNum v) := by
    refine cancelOrders_induction (P := fun reported p => ∃ v, p.entry id (text "info") = .ok v ∧
      (v.isMap = false ∨ Ended payNum v) ∧ (id ∈ reported → Ended payNum v)) hcall
      ⟨v, hv, hstart, by simp⟩ ?_
    rintro reported o₁ o₂ other store record ⟨v, hv, hopen, hreported⟩ hstore hrecord hset
    by_cases hother : other = id
    · subst hother
      obtain rfl := Except.ok.inj (hv.symm.trans hstore)
      obtain ⟨w, hw, hget⟩ := stored_of_set hset
      have hended := ended_of_cancel hrecord hw hopen
      exact ⟨w, hget, .inr hended, fun _ => hended⟩
    · refine ⟨v, ?_, hopen, fun hmem => hreported ?_⟩
      · rw [← hv]
        exact Overlay.get_set_of_ne hset fun heq => hother
          (Subtype.ext (entryKey_inj id.point_notMem other.point_notMem heq).1.symm)
      · rcases List.mem_append.mp hmem with hmem | hmem
        · exact hmem
        · exact absurd (List.mem_singleton.mp hmem).symm hother
  obtain ⟨v, hv, -, hended⟩ := hend
  exact ⟨v, hv, hended hid⟩

/-- What holds of a record after a call, and what every write keeps, holds after later calls. -/
theorem Runs.tracked_later {Meets : Storage → Invocation → Receipt → Prop} {s : Storage}
    {later receipts : List Receipt} {P : CborObject → List Fill → Prop} (hP : Kept env id P)
    (h : Runs env Meets s (later ++ receipts))
    (hstart : ∀ s₀, Runs env Meets s₀ receipts → Tracked P id s₀.view []) :
    ∃ fills, Tracked P id s.view fills := by
  induction later generalizing s with
  | nil => exact ⟨[], hstart s h⟩
  | cons r later ih =>
    cases h with
    | call hruns hcall _ =>
      obtain ⟨fills, ht⟩ := ih hruns
      obtain ⟨o, ho, rfl⟩ := invoke_eq_ok hcall
      have hafter := ht.execute hP hruns.receiver ho
      exact ⟨_, hafter⟩

/-- **Cancellation is final** for an order that has not been filled when it is reported as
cancelled, or that has been filled completely: after any later calls, no `fillOrder` that involves
it succeeds. -/
theorem canceled_final {s : Storage} {later earlier : List Receipt} {r : Receipt}
    (h : Runs env (fun _ _ _ => True) s (later ++ r :: earlier)) {orderInfo sig : Text}
    (hid : env.sha256 (orderInfo ++ sig) ∈ r.canceled)
    (hfilled : ofId (env.sha256 (orderInfo ++ sig)) (history earlier) = [] ∨
      ∃ info, env.readOrderInfo orderInfo = .ok info ∧
        spent (ofId (env.sha256 (orderInfo ++ sig)) (history earlier)) = info.payNum.toInt)
    {call : Invocation} {matched : MatchInfo} (hapi : call.api = .fillOrder matched)
    {m : FillOrder} (hm : m ∈ matched.fillTakerOrder :: matched.fillMakerOrders)
    (horder : m.order.orderInfo = orderInfo ∧ m.order.sig = sig) (result : Receipt × Storage) :
    invoke env call s ≠ .ok result := by
  intro hcall
  -- the number of the order, if it can be read
  obtain ⟨payNum, hpay⟩ : ∃ payNum : ℤ, ∀ info, env.readOrderInfo orderInfo = .ok info →
      info.payNum.toInt = payNum := by
    cases hread : env.readOrderInfo orderInfo with
    | error e => exact ⟨0, by simp⟩
    | ok info => exact ⟨info.payNum.toInt, fun info' h => by rw [Except.ok.inj h]⟩
  obtain ⟨fills, ht⟩ := h.tracked_later (kept_ended env _ payNum) fun s₀ hs₀ => by
    cases hs₀ with
    | call hruns hcancel _ =>
      obtain ⟨o, ho, rfl⟩ := invoke_eq_ok hcancel
      obtain ⟨orders, horders⟩ := cancelOrders_of_mem ho hid
      obtain ⟨v, hv, hok⟩ := hruns.tracked (kept_recordOk env _) (.new rfl rfl)
      have hstart : v.isMap = false ∨ Ended payNum v := by
        rcases hok with ⟨hnew, -⟩ | hcanceled | ⟨g, w, n, hopen, hg, hw, hpos, hlt, hspent⟩
        · exact .inl hnew
        · exact .inr (.canceled hcanceled)
        · refine .inr (.filled g w n hopen hg hw hlt ?_)
          rcases hfilled with hnone | ⟨info, hinfo, hall⟩
          · rw [hnone] at hspent
            exact absurd hspent (by simp only [spent, List.map_nil, List.sum_nil]; omega)
          · rw [← hspent, hall, hpay info hinfo]
      have hended := ended_of_cancelOrders hv hstart horders hid
      exact hended
  obtain ⟨o, ho, -⟩ := invoke_eq_ok hcall
  rw [execute, hapi] at ho
  simp only [bind_eq_ok, pure_eq_ok, Prod.mk.injEq] at ho
  obtain ⟨_, hstate, filled, hmatch, -, -⟩ := ho
  obtain ⟨taker, makers, -, hmatched⟩ := checkMatchedOrders_eq_ok hmatch
  obtain ⟨o₁, f, _, hf, v, hv, hended⟩ := hmatched.filled.exists_tracked (kept_ended env _ payNum)
    (h.receiver (checkCommon_eq_ok hstate)) ht hm
  obtain ⟨hf_id, hf_pay⟩ := hf.of_order horder
  obtain ⟨-, store, record, -, -, -, hstore, hrecord, -⟩ := hf.writes
  rw [hf_id] at hstore
  obtain rfl := Except.ok.inj (hv.symm.trans hstore)
  exact hf.not_ended hrecord (hpay _ hf_pay ▸ hended)

/-- The order of `alice` is filled by the given number. -/
def fillCall (num : Int64) : Invocation := ⟨.fillOrder (sampleMatch num num), alice, 0, true⟩

/-- `alice` cancels her order. -/
def cancelCall : Invocation := ⟨.cancelOrders [⟨text "a", [], text "a"⟩], alice, 0, true⟩

/-- `alice` and `bob` deposit what they spend. -/
def deposits : List Invocation :=
  [⟨.onDepositAsset 110 (text "P"), alice, 0, true⟩, ⟨.onDepositAsset 100 (text "Q"), bob, 0, true⟩]

theorem canceled_final_sample : ∃ env s later r earlier call matched m result,
    Runs env (fun _ _ _ => True) s (later ++ r :: earlier) ∧
    env.sha256 (text "a" ++ []) ∈ r.canceled ∧ call.api = .fillOrder matched ∧
    m ∈ matched.fillTakerOrder :: matched.fillMakerOrders ∧ m.order.orderInfo = text "a" ∧
    invoke env call s ≠ .ok result := by
  have hrun : (sampleRun feeEnv (fun _ _ _ => True) (cancelCall :: deposits)).map (fun r =>
      r.1.tail.tail.head?.map fun c => (c.canceled, ofId (feeEnv.sha256 (text "a" ++ []))
        (history r.1.tail.tail.tail) |>.length)) =
      .ok (some ([feeEnv.sha256 (text "a" ++ [])], 0)) := by decide +kernel
  obtain ⟨⟨receipts, s⟩, hreached, hfacts⟩ := map_eq_ok.mp hrun
  have hruns := runs_sampleRun hreached
  match receipts, hfacts, hruns with
  | r₁ :: r₂ :: r :: earlier, hfacts, hruns =>
    have hruns : Runs feeEnv _ s ([r₁, r₂] ++ r :: earlier) := hruns
    obtain ⟨hcanceled, hnone⟩ := Prod.mk.inj (Option.some.inj hfacts)
    have hid : feeEnv.sha256 (text "a" ++ []) ∈ r.canceled := by
      rw [hcanceled]
      exact List.mem_singleton_self _
    exact ⟨feeEnv, s, [r₁, r₂], r, earlier, fillCall 50, _, _, (r, s), hruns, hid, rfl,
      List.mem_cons_self .., rfl, canceled_final hruns hid
        (.inl (List.length_eq_zero_iff.mp hnone)) rfl (List.mem_cons_self ..) ⟨rfl, rfl⟩ _⟩

/-- **The cancellation of an order that was filled in part is lost**: the order is filled again. -/
theorem canceled_not_final : ∃ env s r earlier call matched m result,
    Runs env (fun _ _ _ => True) s (r :: earlier) ∧
    env.sha256 (text "a" ++ []) ∈ r.canceled ∧ call.api = .fillOrder matched ∧
    m ∈ matched.fillTakerOrder :: matched.fillMakerOrders ∧ m.order.orderInfo = text "a" ∧
    m.order.sig = [] ∧ invoke env call s = .ok result := by
  have hrun : (sampleRun feeEnv (fun _ _ _ => True) (deposits ++ [fillCall 50, cancelCall])).map
      (fun r => (r.1.head?.map (·.canceled), (invoke feeEnv (fillCall 50) r.2).isOk)) =
      .ok (some [feeEnv.sha256 (text "a" ++ [])], true) := by decide +kernel
  obtain ⟨⟨receipts, s⟩, hreached, hfacts⟩ := map_eq_ok.mp hrun
  have hruns := runs_sampleRun hreached
  obtain ⟨hhead, hok⟩ := Prod.mk.inj hfacts
  obtain ⟨result, hresult⟩ := exists_eq_ok hok
  match receipts, hhead, hruns with
  | r :: earlier, hhead, hruns =>
    have hcanceled : r.canceled = _ := Option.some.inj hhead
    exact ⟨feeEnv, s, r, earlier, fillCall 50, _, _, result, hruns,
      hcanceled ▸ List.mem_singleton_self _, rfl, List.mem_cons_self .., rfl, rfl, hresult⟩

/-! ### Limit prices -/

/-- The fills of an order in a run. -/
def fillsOf (orderInfo sig : Text) (fills : List Fill) : List Fill :=
  fills.filter fun f => f.order.order.orderInfo = orderInfo ∧ f.order.order.sig = sig

/-- **The price of a fill is compared exactly.** -/
theorem checkPrice_eq_ok {getNum spentNum : Int64} {u : Unit}
    (hpurchase : 0 ≤ info.purchaseNum.toInt) (hpay : 0 ≤ info.payNum.toInt)
    (hget : 0 ≤ getNum.toInt) (hspent : 0 ≤ spentNum.toInt)
    (h : checkPrice info getNum spentNum = .ok u) :
    spentNum.toInt * info.purchaseNum.toInt ≤ getNum.toInt * info.payNum.toInt := by
  have hlt : ∀ {x y : Int64}, 0 ≤ x.toInt → 0 ≤ y.toInt →
      x.toInt.toNat * y.toInt.toNat < 2 ^ 128 := fun {x y} hx hy => by
    have hx' := x.toInt_lt
    have hy' := y.toInt_lt
    calc x.toInt.toNat * y.toInt.toNat ≤ 2 ^ 63 * 2 ^ 63 := Nat.mul_le_mul (by omega) (by omega)
      _ < 2 ^ 128 := by decide
  obtain ⟨purchase, hpurchase₁, hpurchase₂⟩ := SafeNumber.createInt_isInt hpurchase
  obtain ⟨pay, hpay₁, hpay₂⟩ := SafeNumber.createInt_isInt hpay
  obtain ⟨get, hget₁, hget₂⟩ := SafeNumber.createInt_isInt hget
  obtain ⟨spent, hspent₁, hspent₂⟩ := SafeNumber.createInt_isInt hspent
  obtain ⟨a, ha₁, ha₂⟩ := SafeNumber.multiply_isInt hspent₂ hpurchase₂ (hlt hspent hpurchase)
  obtain ⟨b, hb₁, hb₂⟩ := SafeNumber.multiply_isInt hget₂ hpay₂ (hlt hget hpay)
  rw [checkPrice, hpurchase₁, hpay₁, hspent₁, hget₁] at h
  simp only [bind, Except.bind, ha₁, hb₁, SafeNumber.gt_isInt ha₂ hb₂, require_eq_ok,
    decide_eq_true_eq, not_lt] at h
  have hle : ((spentNum.toInt.toNat * info.purchaseNum.toInt.toNat : ℕ) : ℤ) ≤
      (getNum.toInt.toNat * info.payNum.toInt.toNat : ℕ) := Int.ofNat_le.mpr h
  rwa [Int.natCast_mul, Int.natCast_mul, Int.toNat_of_nonneg hspent,
    Int.toNat_of_nonneg hpurchase, Int.toNat_of_nonneg hget, Int.toNat_of_nonneg hpay] at hle

theorem spent_mul_le {purchaseNum : ℤ}
    (h : ∀ f ∈ fills, f.order.spentNum.toInt * purchaseNum ≤ f.order.getNum.toInt * payNum) :
    spent fills * purchaseNum ≤ got fills * payNum := by
  induction fills with
  | nil => simp [spent, got]
  | cons f fills ih =>
    obtain ⟨hf, h⟩ := List.forall_mem_cons.mp h
    rw [spent_cons, got, List.map_cons, List.sum_cons, add_mul, add_mul]
    exact add_le_add hf (ih h)

theorem RecordOk.limit {store record : CborObject} (hok : RecordOk store fills)
    (h : Accepted env m o f)
    (hrecord : recordFill f.info.payNum m.getNum m.spentNum store = .ok record) :
    spent fills + m.spentNum.toInt ≤ f.info.payNum.toInt := by
  rcases hok with ⟨-, rfl⟩ | rfl | ⟨g, w, n, rfl, hg, hw, hpos, hlt, hsum⟩
  · rw [spent, List.map_nil, List.sum_nil, zero_add]
    exact h.limit
  · exact absurd hrecord recordFill_closed
  · rw [hsum]
    exact (recordFill_open hw hlt h.payNum hrecord).1

/-- What the record of an order says about the fills of one of the orders with its id. -/
structure LimitOk (orderInfo sig : Text) (payNum : ℤ) (v : CborObject) (fills : List Fill) :
    Prop where
  record : RecordOk v fills
  positive : ∀ f ∈ fills, 0 < f.order.spentNum.toInt
  limit : fillsOf orderInfo sig fills = [] ∨ spent (fillsOf orderInfo sig fills) ≤ payNum

theorem spent_fillsOf_le (orderInfo sig : Text) (h : ∀ f ∈ fills, 0 < f.order.spentNum.toInt) :
    spent (fillsOf orderInfo sig fills) ≤ spent fills := by
  refine (List.filter_sublist.map _).sum_le_sum fun x hx => ?_
  obtain ⟨f, hf, rfl⟩ := List.mem_map.mp hx
  exact (h f hf).le

theorem kept_limitOk (sig : Text) (hinfo : env.readOrderInfo orderInfo = .ok info) (id : OrderId) :
    Kept env id (LimitOk orderInfo sig info.payNum.toInt) where
  fill {m o f} _ _ _ fills h hid hrecord hstored hok := by
    have hpositive : ∀ f' ∈ f :: fills, 0 < f'.order.spentNum.toInt := by
      refine List.forall_mem_cons.mpr ⟨?_, hok.positive⟩
      rw [h.order]
      exact h.spentNum
    refine ⟨(kept_recordOk env id).fill h hid hrecord hstored hok.record, hpositive, ?_⟩
    by_cases horder : f.order.order.orderInfo = orderInfo ∧ f.order.order.sig = sig
    · -- the order is filled once more, and all fills under its id stay within its number
      right
      have hpay : f.info = info := by
        rw [h.order] at horder
        exact Except.ok.inj ((h.of_order horder).2.symm.trans hinfo)
      have hle := hok.record.limit h hrecord
      have hown := spent_fillsOf_le orderInfo sig hok.positive
      rw [fillsOf, List.filter_cons_of_pos (by simpa using horder), spent_cons, h.order, ← hpay]
      rw [fillsOf] at hown
      omega
    · rw [fillsOf, List.filter_cons_of_neg (by simpa using horder)]
      exact hok.limit
  cancel hrecord hstored hok :=
    ⟨(kept_recordOk env id).cancel hrecord hstored hok.record, hok.positive, hok.limit⟩

/-- **The owner of an order gets at least the limit price**, and spends no more than the order
says. -/
theorem limit_price_kept {s : Storage} {receipts : List Receipt}
    (h : Runs env (fun _ _ _ => True) s receipts) {orderInfo : Text} (sig : Text)
    {info : OrderInfo} (hinfo : env.readOrderInfo orderInfo = .ok info) :
    (fillsOf orderInfo sig (history receipts) = [] ∨
      spent (fillsOf orderInfo sig (history receipts)) ≤ info.payNum.toInt) ∧
    spent (fillsOf orderInfo sig (history receipts)) * info.purchaseNum.toInt ≤
      got (fillsOf orderInfo sig (history receipts)) * info.payNum.toInt := by
  have haccepted : ∀ f ∈ fillsOf orderInfo sig (history receipts),
      f.id = env.sha256 (orderInfo ++ sig) ∧
      f.order.spentNum.toInt * info.purchaseNum.toInt ≤
        f.order.getNum.toInt * info.payNum.toInt := by
    intro f hf
    obtain ⟨hf, horder⟩ := List.mem_filter.mp hf
    obtain ⟨m, o, hm⟩ := h.accepted hf
    have horder := of_decide_eq_true horder
    rw [hm.order] at horder ⊢
    obtain ⟨hid, hread⟩ := hm.of_order horder
    obtain rfl := Except.ok.inj (hread.symm.trans hinfo)
    exact ⟨hid, checkPrice_eq_ok hm.purchaseNum.le hm.payNum.le hm.getNum.le hm.spentNum.le
      hm.price⟩
  refine ⟨?_, spent_mul_le fun f hf => (haccepted f hf).2⟩
  obtain ⟨v, -, hok⟩ := h.tracked (kept_limitOk sig hinfo (env.sha256 (orderInfo ++ sig)))
    ⟨.new rfl rfl, by simp, .inl rfl⟩
  -- the fills of the order are among those under its id
  have hfills : fillsOf orderInfo sig (ofId (env.sha256 (orderInfo ++ sig)) (history receipts)) =
      fillsOf orderInfo sig (history receipts) := by
    rw [fillsOf, ofId, List.filter_filter]
    refine List.filter_congr fun f hf => ?_
    by_cases horder : f.order.order.orderInfo = orderInfo ∧ f.order.order.sig = sig
    · have hid := (haccepted f (List.mem_filter.mpr ⟨hf, by simpa using horder⟩)).1
      simp [horder, hid]
    · simp only [horder, decide_false, Bool.false_and]
  rw [← hfills]
  exact hok.limit

theorem limit_price_kept_sample : ∃ env s receipts info,
    Runs env (fun _ _ _ => True) s receipts ∧ env.readOrderInfo (text "a") = .ok info ∧
    spent (fillsOf (text "a") [] (history receipts)) = 90 ∧
    spent (fillsOf (text "a") [] (history receipts)) ≤ info.payNum.toInt ∧
    spent (fillsOf (text "a") [] (history receipts)) * info.purchaseNum.toInt ≤
      got (fillsOf (text "a") [] (history receipts)) * info.payNum.toInt := by
  have hrun : (sampleRun feeEnv (fun _ _ _ => True) (deposits ++ [fillCall 50, fillCall 40])).map
      (fun r => spent (fillsOf (text "a") [] (history r.1))) = .ok 90 := by decide +kernel
  obtain ⟨⟨receipts, s⟩, hreached, hspent⟩ := map_eq_ok.mp hrun
  have hruns := runs_sampleRun hreached
  have hinfo : feeEnv.readOrderInfo (text "a") =
      .ok (sampleInfo "Q" 100 "P" 100 "0.1" "buy") := rfl
  obtain ⟨hlimit, hprice⟩ := limit_price_kept hruns [] hinfo
  refine ⟨feeEnv, s, receipts, _, hruns, hinfo, hspent, hlimit.resolve_left fun hnone => ?_,
    hprice⟩
  rw [hnone] at hspent
  exact absurd hspent (by decide)

end Exchange

end Whitecoin.Native
