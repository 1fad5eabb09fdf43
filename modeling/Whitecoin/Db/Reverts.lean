import Whitecoin.Db.UndoState

/-!
# What an undo state reverts to

`UndoState.Reverts st cur snap` says that undoing `st` from the objects `cur` gives back `snap`. It
holds of an empty state, recording keeps it, merging composes it, and `restore`, the loops of
`undo` and `pop_commit` over the object database, realises it whenever those loops return.

The relation says nothing about whether the loops return. An object whose modification was rejected
is gone from its index but still recorded as modified; `Reverts` holds, and `restore` throws.
`LiveIn` is the missing half.
-/

namespace Whitecoin.Db

namespace UndoState

variable {V K : Type} [DecidableEq K] {st a b : UndoState V} {cur mid snap : View V}

/-- Undoing `st` from the objects `cur` gives back `snap`. -/
structure Reverts (st : UndoState V) (cur snap : View V) : Prop where
  disjoint : st.Disjoint
  /-- A removed object is absent. -/
  fits : ∀ id, (st.entry id).Fits (cur.obj id)
  /-- The old objects, entry by entry. -/
  obj : ∀ id, snap.obj id = (st.entry id).revert (cur.obj id)
  /-- The old next ids. -/
  next : ∀ t, snap.next t = (st.oldIndexNextIds[t]?).or (cur.next t)
  /-- Every recorded id was given out. -/
  below : ∀ id, st.entry id ≠ .nop → ∃ n, cur.next id.spaceType = some n ∧ id.inst < n
  /-- A created id was given out after the snapshot. -/
  created : ∀ id, st.entry id = .new → ∃ n, snap.next id.spaceType = some n ∧ n ≤ id.inst
  /-- Next ids only grow. -/
  mono : ∀ t n, snap.next t = some n → ∃ m, cur.next t = some m ∧ n ≤ m

/-- Every object the state expects to find is there. -/
def LiveIn (st : UndoState V) (cur : View V) : Prop := ∀ id, (st.entry id).Live (cur.obj id)

theorem reverts_empty (w : View V) : (empty : UndoState V).Reverts w w where
  disjoint := disjoint_empty
  fits _ := by simp
  obj _ := by simp
  next _ := by simp [empty]
  below _ h := by simp at h
  created _ h := by simp at h
  mono _ n h := ⟨n, h, le_rfl⟩

/-! ### Recording -/

namespace Reverts

variable {t n : ℕ} {id : ObjectId} {v : V}

theorem entry_eq_nop (h : st.Reverts cur snap) (hn : cur.next t = some n) :
    st.entry ⟨t, n⟩ = .nop := by
  by_contra hne
  obtain ⟨m, hm, hlt⟩ := h.below _ hne
  obtain rfl : n = m := by simpa [hn] using hm
  exact Nat.lt_irrefl _ hlt

theorem onCreate (h : st.Reverts cur snap) (hf : cur.Fresh) (hn : cur.next t = some n) (v : V) :
    (st.onCreate ⟨t, n⟩).Reverts ((cur.setObj ⟨t, n⟩ (some v)).setNext t (n + 1)) snap := by
  have hnop := h.entry_eq_nop hn
  have habsent : cur.obj ⟨t, n⟩ = none := by
    by_contra hne
    obtain ⟨x, hx⟩ := Option.ne_none_iff_exists'.1 hne
    obtain ⟨m, hm, hlt⟩ := hf _ x hx
    obtain rfl : n = m := by simpa [hn] using hm
    exact Nat.lt_irrefl _ hlt
  have hgrow : ∀ s m, cur.next s = some m →
      ∃ m', ((cur.setObj ⟨t, n⟩ (some v)).setNext t (n + 1)).next s = some m' ∧ m ≤ m' := by
    intro s m hm
    by_cases hs : s = t
    · subst hs
      exact ⟨n + 1, by simp, by simp_all⟩
    · exact ⟨m, by simpa [hs] using hm, le_rfl⟩
  refine ⟨disjoint_onCreate h.disjoint hnop, fun j => ?_, fun j => ?_, fun s => ?_, fun j hj => ?_,
    fun j hj => ?_, fun s m hm => ?_⟩
  · rw [entry_onCreate]
    by_cases hj : j = ⟨t, n⟩
    · simp [hj]
    · simpa [hj] using h.fits j
  · rw [entry_onCreate]
    by_cases hj : j = ⟨t, n⟩
    · subst hj
      simpa [hnop, habsent] using h.obj ⟨t, n⟩
    · simpa [hj] using h.obj j
  · rw [nextIds_onCreate, h.next s]
    by_cases hs : s = t
    · subst hs
      cases st.oldIndexNextIds[s]? <;> simp [hn]
    · simp [hs]
  · rw [entry_onCreate] at hj
    by_cases hjid : j = ⟨t, n⟩
    · subst hjid
      exact ⟨n + 1, by simp, Nat.lt_succ_self n⟩
    · obtain ⟨m, hm, hlt⟩ := h.below j (by simpa [hjid] using hj)
      obtain ⟨m', hm', hle⟩ := hgrow _ m hm
      exact ⟨m', hm', lt_of_lt_of_le hlt hle⟩
  · rw [entry_onCreate] at hj
    by_cases hjid : j = ⟨t, n⟩
    · subst hjid
      have hsnap := h.next t
      rw [hn] at hsnap
      obtain ⟨m, hm⟩ : ∃ m, snap.next t = some m := by
        cases ho : st.oldIndexNextIds[t]? <;> simp [hsnap, ho]
      obtain ⟨m', hm', hle⟩ := h.mono t m hm
      obtain rfl : n = m' := by simpa [hn] using hm'
      exact ⟨m, hm, hle⟩
    · exact h.created j (by simpa [hjid] using hj)
  · obtain ⟨m', hm', hle⟩ := h.mono s m hm
    obtain ⟨m'', hm'', hle'⟩ := hgrow s m' hm'
    exact ⟨m'', hm'', hle.trans hle'⟩

theorem entry_ne_del (h : st.Reverts cur snap) (hv : cur.obj id = some v) :
    ∀ x, st.entry id ≠ .del x := by
  intro x hx
  have := h.fits id
  simp [hx, hv] at this

/-- Recording a modification; the modified object may end up with any value, or be lost. -/
theorem onModify (h : st.Reverts cur snap) (hf : cur.Fresh) (hv : cur.obj id = some v)
    (o : Option V) : (st.onModify id v).Reverts (cur.setObj id o) snap := by
  have hdel := h.entry_ne_del hv
  refine ⟨disjoint_onModify h.disjoint hdel v, fun j => ?_, fun j => ?_, fun s => ?_,
    fun j hj => ?_, fun j hj => ?_, h.mono⟩
  · rw [entry_onModify h.disjoint hdel]
    by_cases hj : j = id
    · subst hj
      simpa using UndoEntry.fits_onModify (hv ▸ h.fits j) o
    · simpa [hj] using h.fits j
  · rw [entry_onModify h.disjoint hdel]
    by_cases hj : j = id
    · subst hj
      simpa [UndoEntry.revert_onModify, hv] using h.obj j
    · simpa [hj] using h.obj j
  · rw [nextIds_onModify]
    exact h.next s
  · rw [entry_onModify h.disjoint hdel] at hj
    by_cases hjid : j = id
    · subst hjid
      exact hf j v hv
    · exact h.below j (by simpa [hjid] using hj)
  · rw [entry_onModify h.disjoint hdel] at hj
    by_cases hjid : j = id
    · subst hjid
      refine h.created j ?_
      cases he : st.entry j <;> simp [he, UndoEntry.onModify] at hj ⊢
    · exact h.created j (by simpa [hjid] using hj)

theorem onRemove (h : st.Reverts cur snap) (hf : cur.Fresh) (hv : cur.obj id = some v) :
    (st.onRemove id v).Reverts (cur.setObj id none) snap := by
  refine ⟨disjoint_onRemove h.disjoint id v, fun j => ?_, fun j => ?_, fun s => ?_,
    fun j hj => ?_, fun j hj => ?_, h.mono⟩
  · rw [entry_onRemove h.disjoint]
    by_cases hj : j = id
    · subst hj
      simpa using UndoEntry.fits_onRemove (st.entry j) v
    · simpa [hj] using h.fits j
  · rw [entry_onRemove h.disjoint]
    by_cases hj : j = id
    · subst hj
      simpa [UndoEntry.revert_onRemove, hv] using h.obj j
    · simpa [hj] using h.obj j
  · rw [nextIds_onRemove]
    exact h.next s
  · rw [entry_onRemove h.disjoint] at hj
    by_cases hjid : j = id
    · subst hjid
      exact hf j v hv
    · exact h.below j (by simpa [hjid] using hj)
  · rw [entry_onRemove h.disjoint] at hj
    by_cases hjid : j = id
    · subst hjid
      cases he : st.entry j <;> simp [he, UndoEntry.onRemove] at hj
    · exact h.created j (by simpa [hjid] using hj)

/-! ### Nesting -/

theorem entry_eq_nop_of_new (ha : a.Reverts mid snap) (hb : b.Reverts cur mid)
    (hnew : b.entry id = .new) : a.entry id = .nop := by
  by_contra hne
  obtain ⟨n, hn, hle⟩ := hb.created id hnew
  obtain ⟨m, hm, hlt⟩ := ha.below id hne
  obtain rfl : n = m := by simpa [hn] using hm
  omega

theorem entry_eq_nop_of_del (ha : a.Reverts mid snap) (hb : b.Reverts cur mid)
    (hdel : a.entry id = .del v) : b.entry id = .nop := by
  have hmid : mid.obj id = none := by simpa [hdel] using ha.fits id
  have hrev := hb.obj id
  rw [hmid] at hrev
  cases he : b.entry id with
  | nop => rfl
  | new =>
    have := ha.entry_eq_nop_of_new hb he
    simp [hdel] at this
  | upd x => simp [he] at hrev
  | del x => simp [he] at hrev

/-- **Merging composes.** The merged state takes the objects back past both sessions. -/
theorem merge (ha : a.Reverts mid snap) (hb : b.Reverts cur mid) : (a.merge b).Reverts cur snap := by
  have hnew : ∀ id, b.entry id = .new → a.entry id = .nop := fun id => ha.entry_eq_nop_of_new hb
  have hafits : ∀ id, (a.entry id).Fits ((b.entry id).revert (cur.obj id)) := by
    intro id
    rw [← hb.obj id]
    exact ha.fits id
  refine ⟨disjoint_merge ha.disjoint hb.disjoint hnew fun id v => ha.entry_eq_nop_of_del hb,
    fun id => ?_, fun id => ?_, fun t => ?_, fun id hid => ?_, fun id hid => ?_, fun t n hn => ?_⟩
  · rw [entry_merge ha.disjoint hb.disjoint]
    exact UndoEntry.fits_merge (hb.fits id) (hafits id) (hnew id)
  · rw [entry_merge ha.disjoint hb.disjoint,
      UndoEntry.revert_merge (hb.fits id) (hafits id) (hnew id), ← hb.obj id]
    exact ha.obj id
  · rw [nextIds_merge, ha.next, hb.next, Option.or_assoc]
  · rw [entry_merge ha.disjoint hb.disjoint] at hid
    rcases UndoEntry.merge_ne_nop hid with h | h
    · obtain ⟨n, hn, hlt⟩ := ha.below id h
      obtain ⟨m, hm, hle⟩ := hb.mono _ n hn
      exact ⟨m, hm, lt_of_lt_of_le hlt hle⟩
    · exact hb.below id h
  · rw [entry_merge ha.disjoint hb.disjoint] at hid
    rcases UndoEntry.merge_eq_new hid with h | h
    · exact ha.created id h
    · obtain ⟨m, hm, hle⟩ := hb.created id h
      -- the snapshot has this index too, with a smaller next id
      have hsnap := ha.next id.spaceType
      rw [hm] at hsnap
      obtain ⟨n, hn⟩ : ∃ n, snap.next id.spaceType = some n := by
        cases ho : a.oldIndexNextIds[id.spaceType]? <;> simp [hsnap, ho]
      obtain ⟨m', hm', hle'⟩ := ha.mono _ n hn
      obtain rfl : m = m' := by simpa [hm] using hm'
      exact ⟨n, hn, hle'.trans hle⟩
  · obtain ⟨m, hm, hle⟩ := ha.mono t n hn
    obtain ⟨m', hm', hle'⟩ := hb.mono t m hm
    exact ⟨m', hm', hle.trans hle'⟩

theorem live_merge (ha : a.Reverts mid snap) (hb : b.Reverts cur mid) (hla : a.LiveIn mid)
    (hlb : b.LiveIn cur) : (a.merge b).LiveIn cur := by
  intro id
  rw [entry_merge ha.disjoint hb.disjoint]
  refine UndoEntry.live_merge (hlb id) ?_
  rw [← hb.obj id]
  exact hla id

end Reverts

/-! ### The undo loops -/

section restore

variable {ix ix' : Indexes V K}

theorem view_forEach_write {body : ObjectId × V → Indexes V K → Outcome String (Indexes V K)}
    (hbody : ∀ item ix ix', body item ix = .ok ix' →
      Indexes.view ix' = (Indexes.view ix).setObj item.1 (some item.2))
    {m : Std.ExtTreeMap ObjectId V compare} (h : Outcome.forEach body m.toList ix = .ok ix') :
    ix'.view = ⟨fun id => (m[id]?).or (ix.view.obj id), ix.view.next⟩ := by
  ext1
  · funext id
    rw [Outcome.forEach_obs_toList (fun s : Indexes V K => (Indexes.view s).obj id) (k := id)
      (g := some) ?_ ?_ h]
    · cases hm : m[id]? <;> simp [hm]
    · intro item s s' hs hne
      rw [hbody item s s' hs, View.setObj_obj, if_neg (Ne.symm hne)]
    · intro item s s' hs heq
      rw [hbody item s s' hs, View.setObj_obj, if_pos heq.symm]
  · exact Outcome.forEach_obs_eq (fun s : Indexes V K => (Indexes.view s).next)
      (fun item s s' hs => by rw [hbody item s s' hs, View.setObj_next]) h

theorem view_forEach_remove {ids : Std.ExtTreeSet ObjectId compare}
    (h : Outcome.forEach (fun id ix => Indexes.remove ix id) ids.toList ix = .ok ix') :
    ix'.view = ⟨fun id => if id ∈ ids then none else ix.view.obj id, ix.view.next⟩ := by
  ext1
  · funext id
    have hother : ∀ (j : ObjectId) (s s' : Indexes V K), s.remove j = .ok s' → j ≠ id →
        s'.view.obj id = s.view.obj id := by
      intro j s s' hs hne
      rw [Indexes.view_remove_ok hs, View.setObj_obj, if_neg (Ne.symm hne)]
    have hself : ∀ (j : ObjectId) (s s' : Indexes V K), s.remove j = .ok s' → j = id →
        s'.view.obj id = none := by
      rintro j s s' hs rfl
      simp [Indexes.view_remove_ok hs, -Indexes.view_obj]
    dsimp only
    split
    · rename_i hid
      exact Outcome.forEach_obs_of_mem (fun j : ObjectId => j)
        (fun s : Indexes V K => s.view.obj id) (a := id) (g := fun _ => none) hother hself h
        (by simpa using ids.nodup_toList) (by simpa using hid) rfl
    · rename_i hid
      refine Outcome.forEach_obs_of_notMem (fun j : ObjectId => j)
        (fun s : Indexes V K => s.view.obj id) hother h ?_
      rintro j hj rfl
      exact hid (by simpa using hj)
  · exact Outcome.forEach_obs_eq (fun s : Indexes V K => s.view.next)
      (fun j s s' hs => by rw [Indexes.view_remove_ok hs, View.setObj_next]) h

theorem view_forEach_setNextId {m : Std.ExtTreeMap ℕ ℕ compare}
    (h : Outcome.forEach (fun item ix => Indexes.setNextId ix item.1 item.2) m.toList ix = .ok ix') :
    ix'.view = ⟨ix.view.obj, fun t => (m[t]?).or (ix.view.next t)⟩ := by
  ext1
  · exact Outcome.forEach_obs_eq (fun s : Indexes V K => s.view.obj)
      (fun item s s' hs => by rw [Indexes.view_setNextId hs, View.setNext_obj]) h
  · funext t
    rw [Outcome.forEach_obs_toList (fun s : Indexes V K => s.view.next t) (k := t)
      (g := some) ?_ ?_ h]
    · cases hm : m[t]? <;> simp [hm]
    · intro item s s' hs hne
      rw [Indexes.view_setNextId hs, View.setNext_next, if_neg (Ne.symm hne)]
    · intro item s s' hs heq
      rw [Indexes.view_setNextId hs, View.setNext_next, if_pos heq.symm]

theorem view_of_restore (h : st.restore ix = .ok ix') :
    ix'.view =
      ⟨fun id => (st.removed[id]?).or
          (if id ∈ st.newIds then none else (st.oldValues[id]?).or (ix.view.obj id)),
        fun t => (st.oldIndexNextIds[t]?).or (ix.view.next t)⟩ := by
  obtain ⟨ix₁, h₁, h⟩ := Outcome.bind_eq_ok.1 h
  obtain ⟨ix₂, h₂, h⟩ := Outcome.bind_eq_ok.1 h
  obtain ⟨ix₃, h₃, h₄⟩ := Outcome.bind_eq_ok.1 h
  have hmodify : ∀ (item : ObjectId × V) (s s' : Indexes V K),
      s.modify item.1 (fun _ => item.2) = .ok s' → s'.view = s.view.setObj item.1 (some item.2) := by
    intro item s s' hs
    obtain ⟨old, -, hview⟩ := Indexes.view_modify_ok hs
    exact hview
  rw [view_forEach_write (fun _ _ _ => Indexes.view_insert) h₄, view_forEach_setNextId h₃,
    view_forEach_remove h₂, view_forEach_write hmodify h₁]

/-- **Undo is exact when it returns.** -/
theorem Reverts.view_restore (h : st.Reverts ix.view snap) (hok : st.restore ix = .ok ix') :
    ix'.view = snap := by
  rw [view_of_restore hok]
  ext1
  · funext id
    have hex := h.disjoint id
    rw [h.obj id, entry]
    revert hex
    simp only [at_]
    by_cases hn : id ∈ st.newIds <;> cases ho : st.oldValues[id]? <;> cases hr : st.removed[id]? <;>
      simp [hn, Exclusive, toEntry]
  · funext t
    exact (h.next t).symm

end restore

end UndoState

end Whitecoin.Db
