import Mathlib.Algebra.Order.Ring.Int
import Mathlib.Data.List.Induction
import Mathlib.Data.List.Sort
import Mathlib.Data.List.TakeWhile
import Whitecoin.Lib.Check

/-!
# Recent transactions

A transaction is accepted until it expires, and the chain keeps those that have not expired. After a
block the expired ones are forgotten, and yet none is applied twice.
-/

namespace Whitecoin.Chain

open Check

/-- What is read of blocks `B` and transactions `T`, and what happens to the other objects `R`. The
id of a transaction is a hash of all but its signatures, so it determines the expiration. -/
structure TrxRules (B T Id R : Type) where
  timestamp : B → ℕ
  transactions : B → List T
  trxId : T → Id
  expiration : Id → ℕ
  maximumTimeUntilExpiration : R → ℕ
  /-- `validate`, `fetch_trx`, `verify_authority` and the check of the block that is named. -/
  verify : R → T → Except String Unit
  evaluate : R → T → Except String R
  validateBlockHeader : R → B → Except String Unit
  /-- What `_apply_block` does after the transactions. -/
  finish : R → B → Except String R

/-- `recent` is `transaction_index`, by expiration. -/
structure RecentState (Id R : Type) where
  headBlockNum : ℕ
  headBlockTime : ℕ
  recent : List Id
  rest : R

variable {B T Id R : Type} [DecidableEq Id] (E : TrxRules B T Id R)

/-- The expiration checks of `_apply_transaction`. -/
def checkExpiration (s : RecentState Id R) (id : Id) : Except String Unit :=
  if 0 < s.headBlockNum then do
    require (E.expiration id ≤ (s.headBlockTime + E.maximumTimeUntilExpiration s.rest) % 2 ^ 32)
      "trx.expiration <= now + chain_parameters.maximum_time_until_expiration"
    require (s.headBlockTime ≤ E.expiration id) "now <= trx.expiration"
  else pure ()

/-- `_apply_transaction`. The id is a unique key of the index. -/
def applyTransaction (s : RecentState Id R) (t : T) : Except String (RecentState Id R) := do
  E.verify s.rest t
  checkExpiration E s (E.trxId t)
  require (E.trxId t ∉ s.recent) "Could not create object!"
  let rest ← E.evaluate s.rest t
  return { s with
    recent := s.recent.orderedInsert (E.expiration · ≤ E.expiration ·) (E.trxId t)
    rest }

/-- `clear_expired_transactions`. -/
def clearExpiredTransactions (s : RecentState Id R) : RecentState Id R :=
  { s with recent := s.recent.dropWhile (E.expiration · < s.headBlockTime) }

/-- `_apply_block`. -/
def applySignedBlock (s : RecentState Id R) (b : B) : Except String (RecentState Id R) := do
  E.validateBlockHeader s.rest b
  require (s.headBlockTime < E.timestamp b) "head_block_time() < next_block.timestamp"
  let s ← (E.transactions b).foldlM (applyTransaction E) s
  let rest ← E.finish s.rest b
  return clearExpiredTransactions E ⟨s.headBlockNum + 1, E.timestamp b, s.recent, rest⟩

/-- Transactions were applied, and those that were forgotten have expired. -/
def Seen (ids : List Id) (s : RecentState Id R) : Prop :=
  ids.Nodup ∧
    ∀ id ∈ ids, id ∈ s.recent ∨ 0 < s.headBlockNum ∧ E.expiration id < s.headBlockTime

/-- The ids of the transactions of some blocks. -/
def trxIds (bs : List B) : List Id := (bs.flatMap E.transactions).map E.trxId

variable {E} {s s' : RecentState Id R} {ids : List Id} {t : T} {l : List T} {b : B} {bs : List B}

theorem Seen.applyTransaction (h : Seen E ids s)
    (happly : applyTransaction E s t = .ok s') :
    Seen E (E.trxId t :: ids) s' ∧ s'.headBlockTime = s.headBlockTime := by
  obtain ⟨hnodup, hkept⟩ := h
  simp only [Chain.applyTransaction, bind_eq_ok, require_eq_ok, exists_const, pure_eq_ok] at happly
  obtain ⟨_, -, _, hcheck, hnew, rest, -, rfl⟩ := happly
  refine ⟨⟨List.nodup_cons.mpr ⟨fun hmem => ?_, hnodup⟩, fun id hid => ?_⟩, rfl⟩
  · -- if it was applied and forgotten, it has expired, and is rejected for that
    obtain ⟨hnum, hexpired⟩ := (hkept _ hmem).resolve_left hnew
    simp only [checkExpiration, if_pos hnum, bind_eq_ok, require_eq_ok, exists_const] at hcheck
    omega
  · rw [List.mem_orderedInsert]
    rcases List.mem_cons.mp hid with rfl | hid
    · exact .inl (.inl rfl)
    · exact (hkept id hid).imp_left .inr

theorem Seen.foldlM (h : Seen E ids s)
    (hrun : l.foldlM (Chain.applyTransaction E) s = .ok s') :
    Seen E ((l.map E.trxId).reverse ++ ids) s' ∧ s'.headBlockTime = s.headBlockTime := by
  induction l generalizing ids s with
  | nil =>
    obtain rfl := pure_eq_ok.mp hrun
    exact ⟨h, rfl⟩
  | cons t l ih =>
    rw [List.foldlM_cons] at hrun
    obtain ⟨s₁, happly, hrun⟩ := bind_eq_ok.mp hrun
    obtain ⟨hnext, hsame⟩ := h.applyTransaction happly
    obtain ⟨hend, hlast⟩ := ih hnext hrun
    refine ⟨?_, hlast.trans hsame⟩
    rwa [List.map_cons, List.reverse_cons, List.append_assoc]

theorem Seen.applySignedBlock (h : Seen E ids s)
    (happly : applySignedBlock E s b = .ok s') :
    Seen E (((E.transactions b).map E.trxId).reverse ++ ids) s' := by
  simp only [Chain.applySignedBlock, bind_eq_ok, require_eq_ok, exists_const, pure_eq_ok] at happly
  obtain ⟨_, -, htime, s₁, hrun, rest, -, rfl⟩ := happly
  obtain ⟨⟨hnodup, hkept⟩, hsame⟩ := h.foldlM hrun
  refine ⟨hnodup, fun id hid => ?_⟩
  obtain hmem | ⟨-, hexpired⟩ := hkept id hid
  · have hsplit := List.takeWhile_append_dropWhile (p := (E.expiration · < E.timestamp b))
      (l := s₁.recent)
    rw [← hsplit, List.mem_append] at hmem
    refine hmem.symm.imp_right fun hdropped => ⟨Nat.succ_pos _, ?_⟩
    have := List.mem_takeWhile_imp hdropped
    exact of_decide_eq_true this
  · exact .inr ⟨Nat.succ_pos _, hexpired.trans (hsame ▸ htime)⟩

/-- **No transaction is applied twice** in a chain, although the index forgets. -/
theorem applied_once {time : ℕ} {rest : R}
    (h : bs.foldlM (applySignedBlock E) ⟨0, time, [], rest⟩ = .ok s) : (trxIds E bs).Nodup := by
  suffices ∃ ids, ids.Perm (trxIds E bs) ∧ Seen E ids s by
    obtain ⟨ids, hperm, happlied⟩ := this
    exact hperm.nodup_iff.mp happlied.1
  induction bs using List.reverseRecOn generalizing s with
  | nil =>
    obtain rfl := pure_eq_ok.mp h
    exact ⟨[], .nil, .nil, by simp⟩
  | append_singleton bs b ih =>
    rw [List.foldlM_append] at h
    obtain ⟨s₁, hbs, h⟩ := bind_eq_ok.mp h
    obtain ⟨s₂, hb, h⟩ := bind_eq_ok.mp h
    obtain rfl := pure_eq_ok.mp h
    obtain ⟨ids, hperm, happlied⟩ := ih hbs
    refine ⟨_, ?_, happlied.applySignedBlock hb⟩
    rw [trxIds, List.flatMap_append, List.flatMap_singleton, List.map_append]
    exact ((List.reverse_perm _).append hperm).trans List.perm_append_comm

theorem applied_once_two : ∃ (E : TrxRules ℕ ℕ ℕ Unit) (s : RecentState ℕ Unit),
    [1, 2].foldlM (applySignedBlock E) ⟨0, 0, [], ()⟩ = .ok s ∧ s.recent = [2] ∧
      (trxIds E [1, 2]).Nodup := by
  let E : TrxRules ℕ ℕ ℕ Unit := ⟨id, fun b => [b], id, fun t => 3 * t - 2, fun _ => 9,
    fun _ _ => pure (), fun r _ => pure r, fun _ _ => pure (), fun r _ => pure r⟩
  have hrun : [1, 2].foldlM (applySignedBlock E) ⟨0, 0, [], ()⟩ = .ok ⟨2, 2, [2], ()⟩ := rfl
  exact ⟨E, _, hrun, rfl, applied_once hrun⟩

end Whitecoin.Chain
