import Mathlib.Data.List.Sort
import Mathlib.Data.Prod.Lex
import Whitecoin.Lib.Check

/-!
# The order of contract events

The events of a contract are listed by the number of their block, and within a block by the place of
their transaction. `event_compare` looks for the two transactions in the block and returns at the
first one it meets, and if both are the same it takes it for that of the first event. So it decides
"not after", which is no strict order: an event precedes itself, and two events of one transaction
precede each other. Between events of different transactions it is the intended order.
-/

namespace Whitecoin.Contract

open Check

variable {Address Id : Type} [DecidableEq Id]

/-- `contract_event_notify_object`. -/
structure ContractEvent (Address Id : Type) where
  contractAddress : Address
  trxId : Id
  blockNum : UInt64

/-- The ids of the transactions of the block with a number, as `fetch_block_by_number` finds it. -/
abbrev Blocks (Id : Type) := UInt32 → Option (List Id)

/-- The loop of `event_compare`. -/
def scan (id₁ id₂ : Id) : List Id → Bool
  | [] => false
  | trx :: transactions =>
    if trx = id₁ then true else if trx = id₂ then false else scan id₁ id₂ transactions

/-- `event_compare`. The number of a block is looked up in 32 bits. -/
def eventCompare (db : Blocks Id) (obj₁ obj₂ : ContractEvent Address Id) : Except String Bool :=
  if obj₁.blockNum < obj₂.blockNum then .ok true
  else if obj₂.blockNum < obj₁.blockNum then .ok false
  else do
    let transactions ← found (db obj₁.blockNum.toUInt32) "blk.valid()"
    pure (scan obj₁.trxId obj₂.trxId transactions)

/-- `get_contract_events_by_contract_ordered`: the events of the contract, in an order that `sort`
may leave. No event precedes an earlier one. -/
def ContractEventsOrdered [DecidableEq Address] (db : Blocks Id)
    (events : List (ContractEvent Address Id)) (addr : Address)
    (res : List (ContractEvent Address Id)) : Prop :=
  res.Perm (events.filter fun e => e.contractAddress = addr) ∧
    res.Pairwise fun x y => eventCompare db y x = .ok false

/-- The transactions of the block of an event. -/
def transactionsOf (db : Blocks Id) (e : ContractEvent Address Id) : List Id :=
  (db e.blockNum.toUInt32).getD []

/-- The number of the block, then the position of the transaction in it. -/
def place (db : Blocks Id) (e : ContractEvent Address Id) : ℕ ×ₗ ℕ :=
  toLex (e.blockNum.toNat, (transactionsOf db e).idxOf e.trxId)

variable {db : Blocks Id} {events : List (ContractEvent Address Id)}
  {x y : ContractEvent Address Id}

theorem scan_eq_true_iff {id₁ id₂ : Id} {l : List Id} :
    scan id₁ id₂ l = true ↔ id₁ ∈ l ∧ l.idxOf id₁ ≤ l.idxOf id₂ := by
  induction l with
  | nil => simp [scan]
  | cons trx l ih =>
    rw [scan]
    split_ifs with h₁ h₂
    · simp [h₁]
    · subst h₂
      simp [List.idxOf_cons_ne _ h₁]
    · simp [ih, List.idxOf_cons_ne _ h₁, List.idxOf_cons_ne _ h₂, Ne.symm h₁]

/-- **What the comparison decides**, for an event whose block is stored. -/
theorem eventCompare_eq_ok (hx : (db x.blockNum.toUInt32).isSome) :
    eventCompare db x y = .ok (decide
      (place db x < place db y ∨ place db x = place db y ∧ x.trxId ∈ transactionsOf db x)) := by
  simp only [eventCompare, place, Prod.Lex.toLex_lt_toLex, EmbeddingLike.apply_eq_iff_eq,
    Prod.mk.injEq, UInt64.lt_iff_toNat_lt]
  split_ifs with hlt hgt
  · simp [hlt]
  · simp [hlt, Nat.ne_of_gt hgt]
  · -- the events are of one block, and the first of the two transactions in it decides
    have heq : x.blockNum = y.blockNum := UInt64.toNat_inj.mp (by omega)
    obtain ⟨l, hl⟩ := Option.isSome_iff_exists.mp hx
    have hxl : transactionsOf db x = l := by rw [transactionsOf, hl, Option.getD_some]
    have hyl : transactionsOf db y = l := by rw [transactionsOf, ← heq, hl, Option.getD_some]
    have hmem : l.idxOf x.trxId < l.idxOf y.trxId → x.trxId ∈ l := fun h =>
      List.idxOf_lt_length_iff.mp (h.trans_le List.idxOf_le_length)
    rw [found_eq_ok.mpr hl, ok_bind, pure_eq_ok, Bool.eq_iff_iff, decide_eq_true_eq,
      scan_eq_true_iff, hxl, hyl, heq, le_iff_lt_or_eq]
    simp only [lt_irrefl, true_and, false_or]
    tauto

theorem isStrictWeakOrder_of_place (db : Blocks Id)
    {lt : {e // e ∈ events} → {e // e ∈ events} → Prop}
    (hlt : ∀ x y, lt x y ↔ place db x.1 < place db y.1) :
    IsStrictWeakOrder {e // e ∈ events} lt := by
  refine { irrefl := fun x h => lt_irrefl _ ((hlt x x).mp h), trans := fun x y z h h' => ?_,
           incomp_trans := fun x y z h h' => ?_ }
  · rw [hlt] at h h' ⊢
    exact h.trans h'
  · simp only [hlt, not_lt] at h h' ⊢
    exact ⟨h'.1.trans h.1, h.2.trans h'.2⟩

section

variable (hstored : ∀ e ∈ events, (db e.blockNum.toUInt32).isSome)
  (hplaces : (events.map (place db)).Nodup)

include hstored hplaces

theorem eventCompare_of_ne (hx : x ∈ events) (hy : y ∈ events) (hne : x ≠ y) :
    eventCompare db x y = .ok (decide (place db x < place db y)) := by
  have hplace : place db x ≠ place db y := fun h =>
    hne (List.inj_on_of_nodup_map hplaces hx hy h)
  rw [eventCompare_eq_ok (hstored x hx)]
  simp [hplace]

variable [DecidableEq Address]

theorem ContractEventsOrdered.pairwise {addr : Address} {res : List (ContractEvent Address Id)}
    (hres : ContractEventsOrdered db events addr res) :
    res.Pairwise fun x y => place db x < place db y := by
  obtain ⟨hperm, hsorted⟩ := hres
  have hmem : ∀ e ∈ res, e ∈ events := fun e he => List.mem_of_mem_filter (hperm.subset he)
  have hnodup : res.Nodup := hperm.nodup_iff.mpr ((List.Nodup.of_map _ hplaces).filter _)
  refine (hsorted.and hnodup).imp_of_mem fun hx hy ⟨hnot, hne⟩ => ?_
  rw [eventCompare_of_ne hstored hplaces (hmem _ hy) (hmem _ hx) (Ne.symm hne)] at hnot
  have hle := not_lt.mp (of_decide_eq_false (Except.ok.inj hnot))
  exact lt_of_le_of_ne hle fun h =>
    hne (List.inj_on_of_nodup_map hplaces (hmem _ hx) (hmem _ hy) h)

theorem exists_contractEventsOrdered (addr : Address) :
    ∃ res, ContractEventsOrdered db events addr res := by
  let le (x y : ContractEvent Address Id) : Bool := place db x ≤ place db y
  let own := events.filter fun e => e.contractAddress = addr
  have hmem : ∀ e ∈ own, e ∈ events := fun e he => List.mem_of_mem_filter he
  have hperm := List.mergeSort_perm own le
  have hnodup := hperm.nodup_iff.mpr ((List.Nodup.of_map _ hplaces).filter _)
  have hsorted : (own.mergeSort le).Pairwise fun x y => le x y = true := by
    refine List.pairwise_mergeSort (fun x y z h h' => ?_) (fun x y => ?_) own
    · exact decide_eq_true ((of_decide_eq_true h).trans (of_decide_eq_true h'))
    · simp [le, le_total]
  refine ⟨_, hperm, (hsorted.and hnodup).imp_of_mem fun hx hy ⟨hle, hne⟩ => ?_⟩
  rw [eventCompare_of_ne hstored hplaces (hmem _ (hperm.subset hy)) (hmem _ (hperm.subset hx))
    (Ne.symm hne), decide_eq_false (not_lt.mpr (of_decide_eq_true hle))]

end

/-- **The comparison is a strict weak order only of events that are not in their blocks**, since any
other event precedes itself. Events of different transactions it orders, except that an event is not
to be compared with itself, and the list that `sort` leaves is in the order of the blocks and of the
transactions in them. -/
theorem eventCompare_order [DecidableEq Address]
    (hstored : ∀ e ∈ events, (db e.blockNum.toUInt32).isSome) :
    (IsStrictWeakOrder {e // e ∈ events} (fun x y => eventCompare db x.1 y.1 = .ok true) ↔
        ∀ e ∈ events, e.trxId ∉ transactionsOf db e) ∧
      ((events.map (place db)).Nodup →
        IsStrictWeakOrder {e // e ∈ events}
            (fun x y => x ≠ y ∧ eventCompare db x.1 y.1 = .ok true) ∧
          ∀ addr, (∃ res, ContractEventsOrdered db events addr res) ∧
            ∀ res, ContractEventsOrdered db events addr res →
              res.Pairwise fun x y => place db x < place db y) := by
  refine ⟨⟨?_, ?_⟩, fun hplaces => ⟨?_, fun addr =>
    ⟨exists_contractEventsOrdered hstored hplaces addr,
      fun res => ContractEventsOrdered.pairwise hstored hplaces⟩⟩⟩
  · intro horder e he hmem
    refine horder.irrefl ⟨e, he⟩ ?_
    rw [eventCompare_eq_ok (hstored e he), decide_eq_true (.inr ⟨rfl, hmem⟩)]
  · intro hnone
    refine isStrictWeakOrder_of_place db fun x y => ?_
    rw [eventCompare_eq_ok (hstored x.1 x.2)]
    simp [hnone x.1 x.2]
  · refine isStrictWeakOrder_of_place db fun x y => ?_
    by_cases hne : x = y
    · simp [hne]
    · rw [eventCompare_of_ne hstored hplaces x.2 y.2 fun h => hne (Subtype.ext h)]
      simp [hne]

/-- One block with two transactions, and two events of the first and one of the second. -/
def sampleBlocks : Blocks ℕ := fun n => if n = 7 then some [100, 200] else none

theorem eventCompare_order_sample :
    ∃ res, ContractEventsOrdered sampleBlocks
        [(⟨1, 200, 7⟩ : ContractEvent ℕ ℕ), ⟨1, 100, 7⟩] 1 res ∧
      res.Pairwise fun x y => place sampleBlocks x < place sampleBlocks y := by
  have hstored : ∀ e ∈ [(⟨1, 200, 7⟩ : ContractEvent ℕ ℕ), ⟨1, 100, 7⟩],
      (sampleBlocks e.blockNum.toUInt32).isSome := by decide
  obtain ⟨⟨res, hres⟩, horder⟩ := ((eventCompare_order hstored).2 (by decide)).2 1
  exact ⟨res, hres, horder res hres⟩

/-- An event precedes itself, and two events of one transaction precede each other. -/
theorem eventCompare_same_transaction :
    eventCompare sampleBlocks (⟨1, 100, 7⟩ : ContractEvent ℕ ℕ) ⟨1, 100, 7⟩ = .ok true ∧
      eventCompare sampleBlocks (⟨1, 100, 7⟩ : ContractEvent ℕ ℕ) ⟨2, 100, 7⟩ = .ok true ∧
      eventCompare sampleBlocks (⟨2, 100, 7⟩ : ContractEvent ℕ ℕ) ⟨1, 100, 7⟩ = .ok true := by
  decide

end Whitecoin.Contract
