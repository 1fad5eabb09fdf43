import Whitecoin.Native.ExchangeBalances
import Whitecoin.Native.TokenSupply

/-!
# The records of orders

Under the id of an order the exchange keeps what was received and spent by its fills. A cancelled
order has a record with a mark instead, unless it had a record before: then the record is stored as
it was.

What is received is added in 64 bits. A sum that has become a large negative number cannot be read
back inside the record, so that such a fill is rejected by the storage. What is spent is bounded by
the order.
-/

namespace Whitecoin.Native

open Check Cbor

namespace Exchange

variable {env : Env} {id : OrderId} {o o' : Overlay}

/-! ### Writes of a record -/

/-- A value that was stored, and what is read after that. -/
structure Stored (value v : CborObject) : Prop where
  size : (writeCborObject value).length ≤ outputLimit
  read : cborDecode (writeCborObject value) = .ok v

theorem stored_of_set {name : Text} {value : CborObject} (h : o.set name value = .ok o') :
    ∃ v, Stored value v ∧ o'.get name = .ok v := by
  obtain ⟨hle, ⟨v, hv⟩, -⟩ := Overlay.set_eq_ok h
  exact ⟨v, ⟨hle, hv⟩, (Overlay.get_set_self h).trans hv⟩

/-- A property of a record and of the fills of its order, the last one first, that every write of
the record keeps. -/
structure Kept (env : Env) (id : OrderId) (P : CborObject → List Fill → Prop) : Prop where
  fill : ∀ {m : FillOrder} {o : Overlay} {f : Fill} {store record v : CborObject}
    {fills : List Fill}, Accepted env m o f → f.id = id →
    recordFill f.info.payNum m.getNum m.spentNum store = .ok record → Stored record v →
    P store fills → P v (f :: fills)
  cancel : ∀ {store record v : CborObject} {fills : List Fill},
    cancelRecord store = .ok (some record) → Stored record v → P store fills → P v fills

/-- The record of an order has the property. -/
def Tracked (P : CborObject → List Fill → Prop) (id : OrderId) (o : Overlay)
    (fills : List Fill) : Prop :=
  ∃ v, o.entry id (text "info") = .ok v ∧ P v fills

/-- The fills of the orders with an id. -/
def ofId (id : OrderId) (fills : List Fill) : List Fill := fills.filter fun f => f.id = id

section tracked

variable {P : CborObject → List Fill → Prop} {fills : List Fill}

theorem Tracked.of_get (h : Tracked P id o fills)
    (hget : o'.get (entryKey id (text "info")) = o.get (entryKey id (text "info"))) :
    Tracked P id o' fills := by
  obtain ⟨v, hv, hP⟩ := h
  exact ⟨v, hget.trans hv, hP⟩

variable {value : CborObject} {m : FillOrder} {orders : List FillOrder} {filled : List Fill}

theorem Tracked.set_account (h : Tracked P id o fills) {a symbol : Text} (ha : IsAddress a)
    (hset : o.setEntry a symbol value = .ok o') : Tracked P id o' fills :=
  h.of_get (Overlay.get_set_of_ne hset (record_ne_account id ⟨a, ha⟩ _ symbol).symm)

theorem Tracked.set_record (h : Tracked P id o fills) {other : OrderId} (hne : other ≠ id)
    (hset : o.setEntry other (text "info") value = .ok o') : Tracked P id o' fills := by
  refine h.of_get (Overlay.get_set_of_ne hset fun heq => hne (Subtype.ext ?_))
  exact (entryKey_inj id.point_notMem other.point_notMem heq).1.symm

theorem minFee_ne_record (id : OrderId) (symbol : Text) :
    entryKey id (text "info") ≠ entryKey symbol (text "minFee") := by
  intro heq
  have hlast := congrArg List.getLast? heq
  rw [getLast?_entryKey (c := 111) (by decide), getLast?_entryKey (c := 101) (by decide)] at hlast
  exact absurd hlast (by decide)

theorem Accepted.tracked {f : Fill} (hP : Kept env id P) (h : Accepted env m o f)
    (hreceiver : IsAddress f.feeReceiver) (ht : Tracked P id o fills) :
    Tracked P id f.after (ofId id [f] ++ fills) := by
  obtain ⟨bal, store, record, recorded, -, -, hstore, hrecord, hset, hcharged, hcredit⟩ := h.writes
  have hrecorded : Tracked P id recorded (ofId id [f] ++ fills) := by
    by_cases hid : f.id = id
    · obtain ⟨v, hv, hPv⟩ := ht
      rw [hid] at hstore hset
      obtain rfl := Except.ok.inj (hv.symm.trans hstore)
      obtain ⟨w, hw, hget⟩ := stored_of_set hset
      rw [ofId, List.filter_cons_of_pos (by simpa using hid)]
      exact ⟨w, hget, hP.fill h hid hrecord hw hPv⟩
    · rw [ofId, List.filter_cons_of_neg (by simpa using hid)]
      exact ht.set_record hid hset
  obtain ⟨_, -, hcredited⟩ := Overlay.credit_eq_ok hcredit
  have hcredited := (hrecorded.set_account f.owner.2 hcharged).set_account f.owner.2 hcredited
  rcases payFee_eq_ok h.paid with ⟨-, hset⟩ | ⟨-, heq⟩
  · exact hcredited.set_account hreceiver hset
  · rwa [heq]

theorem Filled.tracked (hP : Kept env id P) (h : Filled env orders o filled)
    (hreceiver : ReceiverOk o) (ht : Tracked P id o fills) :
    Tracked P id (lastAfter o filled) (ofId id filled.reverse ++ fills) := by
  induction h generalizing fills with
  | nil => exact ht
  | cons hf _ ih =>
    have hrest := ih (hreceiver.frame hf.frame) (hf.tracked hP (hf.isAddress hreceiver) ht)
    rwa [← List.append_assoc, ofId, ofId, ← List.filter_append, ← List.reverse_cons] at hrest

theorem Filled.exists_tracked (hP : Kept env id P) (h : Filled env orders o filled)
    (hreceiver : ReceiverOk o) (ht : Tracked P id o fills) (hm : m ∈ orders) :
    ∃ o f fills, Accepted env m o f ∧ Tracked P id o fills := by
  induction h generalizing fills with
  | nil => simp at hm
  | cons hf _ ih =>
    rcases List.mem_cons.mp hm with rfl | hm
    · exact ⟨_, _, fills, hf, ht⟩
    · exact ih (hreceiver.frame hf.frame) (hf.tracked hP (hf.isAddress hreceiver) ht) hm

theorem Tracked.cancelOrders {caller : Address} {orders : List Order} {canceled : List OrderId}
    (hP : Kept env id P) (ht : Tracked P id o fills)
    (hcall : cancelOrders env caller orders o = .ok (canceled, o')) : Tracked P id o' fills := by
  refine cancelOrders_induction (P := fun _ p => Tracked P id p fills) hcall ht ?_
  intro _ o₁ o₂ other store record h hstore hrecord hset
  by_cases hid : other = id
  · subst hid
    obtain ⟨v, hv, hPv⟩ := h
    obtain rfl := Except.ok.inj (hv.symm.trans hstore)
    obtain ⟨w, hw, hget⟩ := stored_of_set hset
    exact ⟨w, hget, hP.cancel hrecord hw hPv⟩
  · exact h.set_record hid hset

/-- **What every write of a record keeps, a call keeps.** -/
theorem Tracked.execute {call : Invocation} {r : Receipt} (hP : Kept env id P)
    (ht : Tracked P id o fills)
    (hreceiver : o.getString (text "state") = .ok common → ReceiverOk o)
    (hcall : execute env call o = .ok (r, o')) :
    Tracked P id o' (ofId id r.fills.reverse ++ fills) := by
  unfold Exchange.execute at hcall
  split at hcall
  all_goals
    simp only [bind_eq_ok, pure_eq_ok, Prod.exists, Prod.mk.injEq] at hcall
  · obtain ⟨o₁, h, rfl, rfl⟩ := hcall
    simp only [initConfig, bind_eq_ok, require_eq_ok, exists_const] at h
    obtain ⟨-, -, -, -, -, -, -, hall⟩ := h
    refine ht.of_get (Overlay.get_setAll_of_notMem hall fun e he => Ne.symm (ne_entryKey ?_ _ _))
    rcases List.mem_pair.mp he with rfl | rfl
    · exact (by decide : 46 ∉ text "feeReceiver")
    · exact (by decide : 46 ∉ text "state")
  · obtain ⟨o₁, h, rfl, rfl⟩ := hcall
    simp only [setMinFee, bind_eq_ok] at h
    obtain ⟨-, -, -, -, h⟩ := h
    split at h
    · simp only [bind_eq_ok, require_eq_ok, exists_const] at h
      obtain ⟨-, -, minFee, -, -, hset⟩ := h
      exact ht.of_get (Overlay.get_set_of_ne hset (minFee_ne_record id _))
    · simp at h
  · obtain ⟨_, hstate, filled, h, rfl, rfl⟩ := hcall
    obtain ⟨taker, makers, rfl, hmatched⟩ := checkMatchedOrders_eq_ok h
    exact hmatched.filled.tracked hP (hreceiver (checkCommon_eq_ok hstate)) ht
  · obtain ⟨canceled, o₁, h, rfl, rfl⟩ := hcall
    exact ht.cancelOrders hP h
  · obtain ⟨o₁, h, rfl, rfl⟩ := hcall
    simp only [onDepositAsset, bind_eq_ok, require_eq_ok, exists_const] at h
    obtain ⟨-, -, -, h⟩ := h
    obtain ⟨_, -, hset⟩ := Overlay.credit_eq_ok h
    exact ht.set_account call.caller.2 hset
  · obtain ⟨symbol, amount, o₁, h, rfl, rfl⟩ := hcall
    simp only [withdraw, bind_eq_ok] at h
    obtain ⟨-, -, h⟩ := h
    obtain ⟨_, -, -, -, hset⟩ := withdraw_eq_ok h
    exact ht.set_account call.caller.2 hset

end tracked

/-! ### Runs -/

/-- The fills of a run, the last one first. -/
def history (receipts : List Receipt) : List Fill := receipts.flatMap fun r => r.fills.reverse

section runs

variable {Meets : Storage → Invocation → Receipt → Prop} {s : Storage} {receipts : List Receipt}

theorem Runs.tracked {P : CborObject → List Fill → Prop} (hP : Kept env id P)
    (h : Runs env Meets s receipts) (hnull : P .null []) :
    Tracked P id s.view (ofId id (history receipts)) := by
  induction h with
  | init h =>
    obtain ⟨o, ho, rfl⟩ := perform_eq_ok.mp h
    exact ⟨.null, entry_init ho _ _, hnull⟩
  | call hruns hcall _ ih =>
    obtain ⟨o, ho, rfl⟩ := invoke_eq_ok hcall
    have hafter := ih.execute hP hruns.receiver ho
    rwa [ofId, ofId, ← List.filter_append] at hafter

theorem Runs.accepted (h : Runs env Meets s receipts) {f : Fill} (hf : f ∈ history receipts) :
    ∃ m o, Accepted env m o f := by
  induction h with
  | init _ => simp [history] at hf
  | @call _ _ _ call r _ hcall _ ih =>
    rcases List.mem_append.mp hf with hf | hf
    · rw [List.mem_reverse] at hf
      obtain ⟨o, ho, rfl⟩ := invoke_eq_ok hcall
      unfold execute at ho
      split at ho
      all_goals
        simp only [bind_eq_ok, pure_eq_ok, Prod.exists, Prod.mk.injEq] at ho
      · obtain ⟨_, -, rfl, -⟩ := ho
        simp [Receipt.none] at hf
      · obtain ⟨_, -, rfl, -⟩ := ho
        simp [Receipt.none] at hf
      · obtain ⟨-, -, fills, hfills, rfl, -⟩ := ho
        obtain ⟨taker, makers, rfl, hmatched⟩ := checkMatchedOrders_eq_ok hfills
        obtain ⟨m, -, o, haccepted⟩ := hmatched.filled.accepted hf
        exact ⟨m, o, haccepted⟩
      · obtain ⟨_, _, -, rfl, -⟩ := ho
        simp [Receipt.none] at hf
      · obtain ⟨_, -, rfl, -⟩ := ho
        simp [Receipt.none] at hf
      · obtain ⟨_, _, _, -, rfl, -⟩ := ho
        simp [Receipt.none] at hf
    · exact ih hf

end runs

/-! ### What a record says -/

/-- The record of an order that was filled. -/
def openRecord (gotNum spentNum : CborObject) : CborObject :=
  .map [(text "gotNum", gotNum), (text "spentNum", spentNum)]

/-- The record of an order that was cancelled before. -/
def closedRecord : CborObject := .map [(text "state", .int 0)]

/-- What was spent by fills. -/
def spent (fills : List Fill) : ℤ := (fills.map fun f => f.order.spentNum.toInt).sum

/-- What was received by fills. -/
def got (fills : List Fill) : ℤ := (fills.map fun f => f.order.getNum.toInt).sum

/-- **What the record of an order says about its fills.** -/
inductive RecordOk (v : CborObject) (fills : List Fill) : Prop
  | new (hv : v.isMap = false) (hfills : fills = [])
  | canceled (hv : v = closedRecord)
  | filled (g w : CborObject) (n : ℕ) (hv : v = openRecord g w) (hg : g.isInteger = true)
    (hw : Token.IsAmount w n) (hpos : 0 < n) (hlt : n < 2 ^ 63) (hspent : spent fills = n)

section records

variable {g w v record : CborObject} {n : ℕ} {payNum getNum spentNum : Int64}

theorem stored_closed (h : Stored closedRecord v) : v = closedRecord :=
  eq_decoded_of_decode (v := closedRecord) ⟨List.pairwise_singleton .., trivial, trivial⟩
    (by simp [closedRecord, CborObject.integers]) h.size h.read

/-- An integer is written like one that is read back, or as a negative one of eight bytes. -/
theorem write_integer (hg : g.isInteger = true) :
    (∃ g' : CborObject, g'.Storable ∧ (∀ n ∈ g'.integers, -2 ^ 32 ≤ n) ∧
      (decoded g').isInteger = true ∧ writeCborObject g = writeCborObject g') ∨
    ∃ m, 2 ^ 32 ≤ m ∧ m < 2 ^ 64 ∧ writeCborObject g = writeTypeValue 1 m := by
  have hint : ∀ n : Int64, (decoded (.int n)).isInteger = true := fun n => by
    rw [decoded]
    split_ifs
    · exact isInteger_nint _
    · exact isInteger_pint _
  cases g with
  | int n =>
    have hmin := n.le_toInt
    rcases lt_or_ge n.toInt (-2 ^ 32) with hlt | hge
    · refine .inr ⟨(-(n.toInt + 1)).toNat, by omega, by omega, ?_⟩
      rw [writeCborObject, writeInt, if_pos]
      rw [Int64.lt_iff_toInt_lt, Int64.toInt_zero]
      omega
    · exact .inl ⟨.int n, trivial, by simpa [CborObject.integers] using hge, hint n, rfl⟩
  | extraInt n p =>
    cases p with
    | true =>
      refine .inl ⟨.extraInt n true, rfl, fun m hm => ?_, isInteger_pint _, rfl⟩
      obtain rfl : m = n.toNat := by simpa [CborObject.integers] using hm
      omega
    | false =>
      rcases Nat.lt_or_ge n.toNat (2 ^ 32) with hlt | hge
      · have hvalue : (Int64.ofInt (-n.toNat - 1)).toInt = -n.toNat - 1 :=
          Int64.toInt_ofInt_of_le (by omega) (by omega)
        refine .inl ⟨.int (Int64.ofInt (-n.toNat - 1)), trivial, fun m hm => ?_, hint _, ?_⟩
        · obtain rfl : m = _ := by simpa only [CborObject.integers, List.mem_singleton] using hm
          omega
        · have hneg : Int64.ofInt (-n.toNat - 1) < 0 := by
            rw [Int64.lt_iff_toInt_lt, hvalue, Int64.toInt_zero]
            omega
          rw [writeCborObject, writeCborObject, writeInt, if_pos hneg, hvalue,
            show (-(-(n.toNat : ℤ) - 1 + 1)).toNat = n.toNat by omega]
          rfl
      · exact .inr ⟨n.toNat, hge, n.toNat_lt, rfl⟩
  | _ => simp [CborObject.isInteger] at hg

/-- **The record of a filled order is read back**, whatever was received: if that cannot be read,
then the record is not stored. -/
theorem stored_open (hg : g.isInteger = true) (hw : Token.IsAmount w n) (hn : n < 2 ^ 63)
    (h : Stored (openRecord g w) v) :
    ∃ g', g'.isInteger = true ∧ v = openRecord g' (pint n) := by
  rcases write_integer hg with ⟨g', hstorable, hneg, hint, hwrite⟩ | ⟨m, hge, hlt, hwrite⟩
  · have hsame : writeCborObject (openRecord g w) = writeCborObject (openRecord g' w) := by
      simp only [openRecord, writeCborObject, writeEntries, hwrite, List.length_cons,
        List.length_nil]
    obtain ⟨hsize, hread⟩ := h
    rw [hsame] at hsize hread
    refine ⟨decoded g', hint, ?_⟩
    rw [eq_decoded_of_decode (v := openRecord g' w) ?_ ?_ hsize hread, openRecord, decoded,
      decodedEntries_eq]
    · simp only [List.map_cons, List.map_nil, hw.decoded hn, openRecord]
    · have hlt : text "gotNum" < text "spentNum" := by decide
      exact ⟨List.pairwise_pair.mpr hlt, hstorable, hw.storable, trivial⟩
    · intro k hk
      simp only [openRecord, CborObject.integers, CborObject.entryIntegers, List.append_nil,
        List.mem_append] at hk
      rcases hk with hk | hk
      · exact hneg k hk
      · have := hw.integers_nonneg hn k hk
        omega
  · exact absurd h.read (cborDecode_ne_of_nint (by decide) hlt hge hwrite h.size v)

theorem get?_state (g w : CborObject) :
    OrdMap.get? [(text "gotNum", g), (text "spentNum", w)] (text "state") = none := by
  rw [OrdMap.get?_eq_none_iff]
  intro e he
  rcases List.mem_pair.mp he with rfl | rfl
  · exact (by decide : text "gotNum" ≠ text "state")
  · exact (by decide : text "spentNum" ≠ text "state")

theorem recordFill_open (hw : Token.IsAmount w n) (hn : n < 2 ^ 63) (hpay : 0 < payNum.toInt)
    (h : recordFill payNum getNum spentNum (openRecord g w) = .ok record) :
    n + spentNum.toInt ≤ payNum.toInt ∧
      ∃ g', record = openRecord (.int g') (.int (Int64.ofNat n + spentNum)) := by
  have hspent : OrdMap.get? [(text "gotNum", g), (text "spentNum", w)] (text "spentNum") =
      some w := rfl
  have hvalue : (Int64.ofNat n).toInt = n := Int64.toInt_ofNat_of_lt hn
  have hlt := payNum.toInt_lt
  simp only [recordFill, openRecord, get?_state, hspent, bind_eq_ok, require_eq_ok, found_eq_ok,
    exists_const, pure_eq_ok, hw.forceAsInt] at h
  obtain ⟨last, hlast, hle, -, -, lastGot, -, rfl⟩ := h
  obtain rfl := Except.ok.inj hlast
  rw [Int64.lt_iff_toInt_lt, Word.toInt_sub_of_le (by omega) (by omega), hvalue] at hle
  exact ⟨by omega, lastGot + getNum, rfl⟩

theorem recordFill_closed : recordFill payNum getNum spentNum closedRecord ≠ .ok record := by
  nofun

theorem cancelRecord_open (h : cancelRecord (openRecord g w) = .ok (some record)) :
    record = openRecord g w := by
  simp only [cancelRecord, openRecord, get?_state, bind_eq_ok, pure_eq_ok] at h
  obtain ⟨_, rfl, h⟩ := h
  simpa [openRecord] using h.symm

end records

/-- The record of an order that nothing of a given number is left of: it was cancelled, or at least
that number was spent. -/
inductive Ended (payNum : ℤ) (v : CborObject) : Prop
  | canceled (hv : v = closedRecord)
  | filled (g w : CborObject) (n : ℕ) (hv : v = openRecord g w) (hg : g.isInteger = true)
    (hw : Token.IsAmount w n) (hlt : n < 2 ^ 63) (hle : payNum ≤ n)

section writes

variable {m : FillOrder} {f : Fill} {store record v : CborObject} {fills : List Fill}

theorem Accepted.record_open {g w : CborObject} {n : ℕ} (h : Accepted env m o f)
    (hw : Token.IsAmount w n) (hn : n < 2 ^ 63)
    (hrecord : recordFill f.info.payNum m.getNum m.spentNum (openRecord g w) = .ok record)
    (hstored : Stored record v) : n + m.spentNum.toInt ≤ f.info.payNum.toInt ∧
      ∃ g' w' n', v = openRecord g' w' ∧ g'.isInteger = true ∧ Token.IsAmount w' n' ∧
        n' < 2 ^ 63 ∧ (n' : ℤ) = n + m.spentNum.toInt := by
  have hspent := h.spentNum
  have hlt := f.info.payNum.toInt_lt
  obtain ⟨hle, g', rfl⟩ := recordFill_open hw hn h.payNum hrecord
  have hvalue : (Int64.ofNat n).toInt = n := Int64.toInt_ofNat_of_lt hn
  have hsum : (Int64.ofNat n + m.spentNum).toInt = n + m.spentNum.toInt := by
    rw [Word.toInt_add_of_lt (by omega) (by omega), hvalue]
  obtain ⟨g'', hg, rfl⟩ := stored_open rfl (Token.isAmount_int (by omega)) (by omega) hstored
  exact ⟨hle, g'', _, _, rfl, hg, .pint _, by omega, by omega⟩

theorem Accepted.record_new (h : Accepted env m o f) (hstore : store.isMap = false)
    (hrecord : recordFill f.info.payNum m.getNum m.spentNum store = .ok record)
    (hstored : Stored record v) : ∃ g' w' n', v = openRecord g' w' ∧ g'.isInteger = true ∧
      Token.IsAmount w' n' ∧ n' < 2 ^ 63 ∧ (n' : ℤ) = m.spentNum.toInt := by
  have hspent := h.spentNum
  have hlt := m.spentNum.toInt_lt
  have hnew : recordFill f.info.payNum m.getNum m.spentNum store =
      .ok (openRecord (.int m.getNum) (.int m.spentNum)) := by
    cases store <;> first | rfl | simp [CborObject.isMap] at hstore
  obtain rfl := Except.ok.inj (hnew.symm.trans hrecord)
  obtain ⟨g', hg, rfl⟩ := stored_open rfl (Token.isAmount_int hspent.le) (by omega) hstored
  exact ⟨g', _, _, rfl, hg, .pint _, by omega, by omega⟩

theorem cancelRecord_new (hstore : store.isMap = false)
    (hrecord : cancelRecord store = .ok (some record)) : record = closedRecord := by
  have hnew : cancelRecord store = .ok (some closedRecord) := by
    cases store <;> first | rfl | simp [CborObject.isMap] at hstore
  exact (Option.some.inj (Except.ok.inj (hnew.symm.trans hrecord))).symm

theorem cancelRecord_closed : cancelRecord closedRecord ≠ .ok (some record) := by
  nofun

theorem ended_of_cancel {payNum : ℤ} (hrecord : cancelRecord store = .ok (some record))
    (hstored : Stored record v) (h : store.isMap = false ∨ Ended payNum store) :
    Ended payNum v := by
  rcases h with hnew | ⟨rfl⟩ | ⟨g, w, n, rfl, hg, hw, hlt, hle⟩
  · obtain rfl := cancelRecord_new hnew hrecord
    exact .canceled (stored_closed hstored)
  · exact absurd hrecord cancelRecord_closed
  · obtain rfl := cancelRecord_open hrecord
    obtain ⟨g', hg', rfl⟩ := stored_open hg hw hlt hstored
    exact .filled g' _ n rfl hg' (.pint n) hlt hle

theorem Accepted.not_ended (h : Accepted env m o f)
    (hrecord : recordFill f.info.payNum m.getNum m.spentNum store = .ok record) :
    ¬ Ended f.info.payNum.toInt store := by
  have hspent := h.spentNum
  rintro (rfl | ⟨g, w, n, rfl, hg, hw, hlt, hle⟩)
  · exact recordFill_closed hrecord
  · obtain ⟨hle', -⟩ := recordFill_open hw hlt h.payNum hrecord
    omega

theorem kept_ended (env : Env) (id : OrderId) (payNum : ℤ) :
    Kept env id fun v _ => Ended payNum v where
  fill h _ hrecord hstored hended := by
    have hspent := h.spentNum
    rcases hended with rfl | ⟨g, w, n, rfl, hg, hw, hlt, hle⟩
    · exact absurd hrecord recordFill_closed
    · obtain ⟨-, g', w', n', rfl, hg', hw', hlt', hn'⟩ := h.record_open hw hlt hrecord hstored
      exact .filled g' w' n' rfl hg' hw' hlt' (by omega)
  cancel hrecord hstored hended := ended_of_cancel hrecord hstored (.inr hended)

theorem spent_cons (f : Fill) (fills : List Fill) :
    spent (f :: fills) = f.order.spentNum.toInt + spent fills := by
  rw [spent, List.map_cons, List.sum_cons]
  rfl

/-- **The record of an order follows its fills.** -/
theorem kept_recordOk (env : Env) (id : OrderId) : Kept env id RecordOk where
  fill {m o f} _ _ _ fills h _ hrecord hstored hok := by
    have hspent := h.spentNum
    rcases hok with ⟨hv, rfl⟩ | rfl | ⟨g, w, n, rfl, hg, hw, hpos, hlt, hsum⟩
    · obtain ⟨g', w', n', rfl, hg', hw', hlt', hn'⟩ := h.record_new hv hrecord hstored
      refine .filled g' w' n' rfl hg' hw' (by omega) hlt' ?_
      rw [spent_cons, h.order, hn']
      exact add_zero _
    · exact absurd hrecord recordFill_closed
    · obtain ⟨-, g', w', n', rfl, hg', hw', hlt', hn'⟩ := h.record_open hw hlt hrecord hstored
      refine .filled g' w' n' rfl hg' hw' (by omega) hlt' ?_
      rw [spent_cons, h.order, hn', hsum]
      exact add_comm _ _
  cancel hrecord hstored hok := by
    rcases hok with ⟨hv, rfl⟩ | rfl | ⟨g, w, n, rfl, hg, hw, hpos, hlt, hsum⟩
    · obtain rfl := cancelRecord_new hv hrecord
      exact .canceled (stored_closed hstored)
    · exact absurd hrecord cancelRecord_closed
    · obtain rfl := cancelRecord_open hrecord
      obtain ⟨g', hg', rfl⟩ := stored_open hg hw hlt hstored
      exact .filled g' _ n rfl hg' (.pint n) hpos hlt hsum

end writes

end Exchange

end Whitecoin.Native
