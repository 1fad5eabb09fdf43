import Whitecoin.Db.Reverts

/-!
# When the undo loops return

`UndoState.restore` gives back the old objects whenever it returns. It may throw for two reasons. An
object it has to modify or remove may be missing, which `LiveIn` rules out. And a container may
reject an old value, because some other object has one of its unique keys at that moment: the old
values are written back one at a time, in the order of the ids, so a value that is put back early
meets objects that are still to be put back or to be removed.
-/

namespace Whitecoin.Db

namespace UndoState

variable {V K : Type} [DecidableEq K] {st : UndoState V} {snap : View V} {ix ix' : Indexes V K}

/-- The objects when the old value of `a` is written back: the values of smaller ids have been
written, the others not. -/
def during (old : Std.ExtTreeMap ObjectId V compare) (cur : View V) (a id : ObjectId) : Option V :=
  if compare id a = .lt then (old[id]?).or (cur.obj id) else cur.obj id

theorem mem_done_iff {m : Std.ExtTreeMap ObjectId V compare} {done rest : List (ObjectId × V)}
    {a : ObjectId} {v : V} (h : m.toList = done ++ (a, v) :: rest) (id : ObjectId) (w : V) :
    (id, w) ∈ done ↔ m[id]? = some w ∧ compare id a = .lt := by
  have hsorted := m.ordered_keys_toList
  rw [h, List.pairwise_append, List.pairwise_cons] at hsorted
  obtain ⟨-, ⟨hrest, -⟩, hdone⟩ := hsorted
  rw [← Std.ExtTreeMap.mem_toList_iff_getElem?_eq_some, h]
  constructor
  · intro hmem
    exact ⟨List.mem_append_left _ hmem, hdone _ hmem _ (List.mem_cons_self ..)⟩
  · rintro ⟨hmem, hlt⟩
    rcases List.mem_append.1 hmem with hmem | hmem
    · exact hmem
    · exfalso
      rcases List.mem_cons.1 hmem with heq | hmem
      · obtain ⟨rfl, rfl⟩ := Prod.mk.inj heq
        simp at hlt
      · have hgt : compare a id = .lt := hrest _ hmem
        rw [Std.OrientedOrd.eq_swap (a := id) (b := a), hgt] at hlt
        simp at hlt

theorem obj_after_done {old : Std.ExtTreeMap ObjectId V compare}
    {done rest : List (ObjectId × V)} {a : ObjectId} {v : V}
    (hsplit : old.toList = done ++ (a, v) :: rest)
    (h : Outcome.forEach (fun item ix => Indexes.modify ix item.1 fun _ => item.2) done ix = .ok ix')
    (id : ObjectId) : ix'.findObject id = during old ix.view a id := by
  have hnd : (done.map Prod.fst).Nodup := by
    have := old.nodup_map_fst_toList
    rw [hsplit, List.map_append] at this
    exact this.of_append_left
  have hother : ∀ (item : ObjectId × V) (s s' : Indexes V K),
      s.modify item.1 (fun _ => item.2) = .ok s' → item.1 ≠ id →
      s'.findObject id = s.findObject id := by
    intro item s s' hs hne
    obtain ⟨x, -, hview⟩ := Indexes.view_modify_ok hs
    rw [← Indexes.view_obj, hview, View.setObj_obj, if_neg (Ne.symm hne), Indexes.view_obj]
  have hself : ∀ (item : ObjectId × V) (s s' : Indexes V K),
      s.modify item.1 (fun _ => item.2) = .ok s' → item.1 = id →
      s'.findObject id = some item.2 := by
    intro item s s' hs heq
    obtain ⟨x, -, hview⟩ := Indexes.view_modify_ok hs
    rw [← Indexes.view_obj, hview, View.setObj_obj, if_pos heq.symm]
  by_cases hmem : ∃ w, (id, w) ∈ done
  · obtain ⟨w, hw⟩ := hmem
    obtain ⟨hget, hlt⟩ := (mem_done_iff hsplit id w).1 hw
    rw [during, if_pos hlt, hget, Option.some_or]
    exact Outcome.forEach_obs_of_mem Prod.fst (fun s : Indexes V K => s.findObject id)
      (g := fun item => some item.2) hother hself h hnd hw rfl
  · have hnone : during old ix.view a id = ix.findObject id := by
      rw [during]
      split
      · rename_i hlt
        cases hget : old[id]? with
        | none => rfl
        | some w => exact absurd ⟨w, (mem_done_iff hsplit id w).2 ⟨hget, hlt⟩⟩ hmem
      · rfl
    rw [hnone]
    refine Outcome.forEach_obs_of_notMem Prod.fst (fun s : Indexes V K => s.findObject id) hother
      h ?_
    rintro ⟨j, w⟩ hj rfl
    exact hmem ⟨w, hj⟩

theorem keysOf_forEach_modify (l : List (ObjectId × V)) (ix : Indexes V K) :
    (Outcome.forEach (fun item ix => Indexes.modify ix item.1 fun _ => item.2) l ix).state.keysOf =
      ix.keysOf :=
  Outcome.forEach_state_induction (P := fun s : Indexes V K => s.keysOf = ix.keysOf)
    (fun item _ s hs => by rw [Indexes.keysOf_modify, hs]) rfl

/-- **The first undo loop returns** exactly when every object it has to write is there, and no old
value meets its own unique key in another object at the moment it is written. -/
theorem forEach_modify_isOk_iff (old : Std.ExtTreeMap ObjectId V compare) (ix : Indexes V K) :
    (Outcome.forEach (fun item ix => Indexes.modify ix item.1 fun _ => item.2)
        old.toList ix).isOk = true ↔
      ∀ a v, old[a]? = some v → (ix.findObject a).isSome ∧
        ∀ j w, during old ix.view a ⟨a.spaceType, j⟩ = some w → j ≠ a.inst →
          clash (ix.keysOf a.spaceType) a.inst v j w = false := by
  have hstep : ∀ {done rest : List (ObjectId × V)} {a : ObjectId} {v : V} {t : Indexes V K},
      old.toList = done ++ (a, v) :: rest →
      Outcome.forEach (fun item ix => Indexes.modify ix item.1 fun _ => item.2) done ix = .ok t →
      ((t.modify a fun _ => v).isOk = true ↔ (ix.findObject a).isSome ∧
        ∀ j w, during old ix.view a ⟨a.spaceType, j⟩ = some w → j ≠ a.inst →
          clash (ix.keysOf a.spaceType) a.inst v j w = false) := by
    intro done rest a v t hsplit ht
    have hobj := obj_after_done hsplit ht
    have hkeys : t.keysOf = ix.keysOf := by
      simpa [ht] using keysOf_forEach_modify done ix
    have hself : t.findObject a = ix.findObject a := by
      rw [hobj a, during, if_neg (by simp)]
      rfl
    cases hfind : ix.findObject a with
    | none => simp [Indexes.modify_of_none (hself.trans hfind)]
    | some x =>
      rw [Indexes.modify_isOk (hself.trans hfind)]
      simp only [Indexes.Collides, hobj, hkeys, Option.isSome_some, true_and, not_exists, not_and,
        Bool.not_eq_true]
  rw [Outcome.forEach_isOk_iff]
  constructor
  · intro h a v hget
    obtain ⟨done, rest, hsplit⟩ :=
      List.append_of_mem (Std.ExtTreeMap.mem_toList_iff_getElem?_eq_some.2 hget)
    -- the entries before `a` have been written, or an earlier iteration would have thrown
    have hdone : (Outcome.forEach (fun item ix => Indexes.modify ix item.1 fun _ => item.2)
        done ix).isOk = true := by
      rw [Outcome.forEach_isOk_iff]
      rintro done' b rest' rfl t ht
      exact h done' b (rest' ++ (a, v) :: rest) (by simp [hsplit]) t ht
    exact (hstep hsplit (Outcome.isOk_iff.1 hdone)).1
      (h done (a, v) rest hsplit _ (Outcome.isOk_iff.1 hdone))
  · rintro h done ⟨a, v⟩ rest hsplit t ht
    refine (hstep hsplit ht).2 (h a v ?_)
    rw [← Std.ExtTreeMap.mem_toList_iff_getElem?_eq_some, hsplit]
    simp

/-! ### The other loops -/

theorem keysOf_forEach_remove (l : List ObjectId) (ix : Indexes V K) :
    (Outcome.forEach (fun id ix => Indexes.remove ix id) l ix).state.keysOf = ix.keysOf :=
  Outcome.forEach_state_induction (P := fun s : Indexes V K => s.keysOf = ix.keysOf)
    (fun id _ s hs => by rw [Indexes.keysOf_remove, hs]) rfl

theorem keysOf_forEach_setNextId (l : List (ℕ × ℕ)) (ix : Indexes V K) :
    (Outcome.forEach (fun item ix => Indexes.setNextId ix item.1 item.2) l ix).state.keysOf =
      ix.keysOf :=
  Outcome.forEach_state_induction (P := fun s : Indexes V K => s.keysOf = ix.keysOf)
    (fun item _ s hs => by rw [Indexes.keysOf_setNextId, hs]) rfl

theorem keysOf_forEach_insert (l : List (ObjectId × V)) (ix : Indexes V K) :
    (Outcome.forEach (fun item ix => Indexes.insert ix item.1 item.2) l ix).state.keysOf =
      ix.keysOf :=
  Outcome.forEach_state_induction (P := fun s : Indexes V K => s.keysOf = ix.keysOf)
    (fun item _ s hs => by rw [Indexes.keysOf_insert, hs]) rfl

theorem keysOf_restore (h : st.restore ix = .ok ix') : ix'.keysOf = ix.keysOf := by
  obtain ⟨ix₁, h₁, h⟩ := Outcome.bind_eq_ok.1 h
  obtain ⟨ix₂, h₂, h⟩ := Outcome.bind_eq_ok.1 h
  obtain ⟨ix₃, h₃, h₄⟩ := Outcome.bind_eq_ok.1 h
  have k₁ := keysOf_forEach_modify st.oldValues.toList ix
  have k₂ := keysOf_forEach_remove st.newIds.toList ix₁
  have k₃ := keysOf_forEach_setNextId st.oldIndexNextIds.toList ix₂
  have k₄ := keysOf_forEach_insert st.removed.toList ix₃
  rw [h₁, Outcome.state_ok] at k₁
  rw [h₂, Outcome.state_ok] at k₂
  rw [h₃, Outcome.state_ok] at k₃
  rw [h₄, Outcome.state_ok] at k₄
  rw [k₄, k₃, k₂, k₁]

theorem forEach_remove_isOk_iff {l : List ObjectId} (hnd : l.Nodup) (ix : Indexes V K) :
    (Outcome.forEach (fun id ix => Indexes.remove ix id) l ix).isOk = true ↔
      ∀ id ∈ l, (ix.findObject id).isSome := by
  induction l generalizing ix with
  | nil => simp
  | cons a l ih =>
    obtain ⟨ha, hnd⟩ := List.nodup_cons.1 hnd
    rw [Outcome.forEach_cons, Outcome.bind_isOk, List.forall_mem_cons]
    cases hfind : ix.findObject a with
    | none => simp [Indexes.remove_of_none hfind]
    | some old =>
      rw [ih hnd]
      simp only [Indexes.remove_isOk hfind, Option.isSome_some, true_and]
      refine forall₂_congr fun id hid => ?_
      have hne : id ≠ a := fun h => ha (h ▸ hid)
      rw [← Indexes.view_obj, Indexes.view_remove hfind, View.setObj_obj, if_neg hne,
        Indexes.view_obj]

theorem forEach_setNextId_isOk {l : List (ℕ × ℕ)}
    (h : ∀ item ∈ l, (ix.view.next item.1).isSome) :
    (Outcome.forEach (fun item ix => Indexes.setNextId ix item.1 item.2) l ix).isOk = true := by
  refine Outcome.forEach_isOk
    (P := fun s : Indexes V K => ∀ item ∈ l, (s.view.next item.1).isSome) ?_ h
  intro item hitem s hs
  obtain ⟨m, hm⟩ := Option.isSome_iff_exists.1 (hs item hitem)
  have hok := Indexes.setNextId_isOk hm item.2
  refine ⟨hok, fun item' hitem' => ?_⟩
  rw [Indexes.view_setNextId (Outcome.isOk_iff.1 hok), View.setNext_next]
  split
  · rfl
  · exact hs item' hitem'

/-- Objects can be put back one after the other into objects that are all as they were, since what
was there before had no two equal keys. -/
theorem forEach_insert_isOk (snap : View V) {l : List (ObjectId × V)}
    (hunique : ∀ s i j v w, snap.obj ⟨s, i⟩ = some v → snap.obj ⟨s, j⟩ = some w → i ≠ j →
      clash (ix.keysOf s) i v j w = false)
    (hnd : (l.map Prod.fst).Nodup)
    (hl : ∀ item ∈ l, ix.findObject item.1 = none ∧ (ix.view.next item.1.spaceType).isSome ∧
      snap.obj item.1 = some item.2)
    (hsub : ∀ id w, ix.findObject id = some w → snap.obj id = some w) :
    (Outcome.forEach (fun item ix => Indexes.insert ix item.1 item.2) l ix).isOk = true := by
  induction l generalizing ix with
  | nil => rfl
  | cons item l ih =>
    obtain ⟨ha, hnd⟩ := List.nodup_cons.1 hnd
    obtain ⟨hfree, hindex, hsnap⟩ := hl item (List.mem_cons_self ..)
    obtain ⟨n, hn⟩ := Option.isSome_iff_exists.1 hindex
    have hok : (ix.insert item.1 item.2).isOk = true := by
      refine Indexes.insert_isOk hn hfree ?_
      rintro ⟨j, w, hj, hne, hcl⟩
      rw [hunique _ _ _ _ _ hsnap (hsub _ _ hj) (Ne.symm hne)] at hcl
      simp at hcl
    have hview := Indexes.view_insert (Outcome.isOk_iff.1 hok)
    have hfind : ∀ id, (ix.insert item.1 item.2).state.findObject id =
        if id = item.1 then some item.2 else ix.findObject id := by
      intro id
      rw [← Indexes.view_obj, hview, View.setObj_obj, Indexes.view_obj]
    rw [Outcome.forEach_cons, Outcome.bind_isOk]
    refine ⟨hok, ih ?_ hnd ?_ ?_⟩
    · rw [Indexes.keysOf_insert]
      exact hunique
    · intro item' hitem'
      have hne : item'.1 ≠ item.1 := by
        intro heq
        exact ha (heq ▸ List.mem_map_of_mem hitem')
      rw [hfind, if_neg hne, hview, View.setObj_next]
      exact hl item' (List.mem_cons_of_mem _ hitem')
    · intro id w hw
      rw [hfind] at hw
      split at hw
      · subst_vars
        rw [hsnap, hw]
      · exact hsub id w hw

/-! ### All of `restore` -/

/-- **The undo loops return** exactly when every recorded object is in place and no old value meets
its own unique key in another object while it is written back. -/
theorem Reverts.restore_isOk_iff (h : st.Reverts ix.view snap)
    (hunique : ∀ s i j v w, snap.obj ⟨s, i⟩ = some v → snap.obj ⟨s, j⟩ = some w → i ≠ j →
      clash (ix.keysOf s) i v j w = false) :
    (st.restore ix).isOk = true ↔ st.LiveIn ix.view ∧
      ∀ a v, st.oldValues[a]? = some v →
        ∀ j w, during st.oldValues ix.view a ⟨a.spaceType, j⟩ = some w → j ≠ a.inst →
          clash (ix.keysOf a.spaceType) a.inst v j w = false := by
  have hmodify : ∀ (item : ObjectId × V) (s s' : Indexes V K),
      s.modify item.1 (fun _ => item.2) = .ok s' → s'.view = s.view.setObj item.1 (some item.2) := by
    intro item s s' hs
    obtain ⟨old, -, hview⟩ := Indexes.view_modify_ok hs
    exact hview
  -- a created object is not among the modified ones
  have hnew : ∀ id ∈ st.newIds, st.oldValues[id]? = none := by
    intro id hid
    by_contra hne
    obtain ⟨v, hv⟩ := Option.ne_none_iff_exists'.1 hne
    have := (entry_eq_upd_iff h.disjoint).2 hv
    rw [entry_eq_new_iff.2 hid] at this
    simp at this
  rw [restore, Outcome.bind_isOk, forEach_modify_isOk_iff]
  constructor
  · rintro ⟨hfirst, hrest⟩
    have hfirst' := Outcome.isOk_iff.1 ((forEach_modify_isOk_iff st.oldValues ix).2 hfirst)
    have hsecond := (Outcome.bind_isOk.1 hrest).1
    rw [forEach_remove_isOk_iff st.newIds.nodup_toList] at hsecond
    refine ⟨fun id => ?_, fun a v hv => (hfirst a v hv).2⟩
    cases he : st.entry id with
    | nop => trivial
    | del v => trivial
    | upd v => exact (hfirst id v ((entry_eq_upd_iff h.disjoint).1 he)).1
    | new =>
      have hid := entry_eq_new_iff.1 he
      have hsome := hsecond id (by simpa using hid)
      rw [← Indexes.view_obj, view_forEach_write hmodify hfirst'] at hsome
      simpa [hnew id hid] using hsome
  · rintro ⟨hlive, hfree⟩
    have hfirst : ∀ a v, st.oldValues[a]? = some v → (ix.findObject a).isSome ∧
        ∀ j w, during st.oldValues ix.view a ⟨a.spaceType, j⟩ = some w → j ≠ a.inst →
          clash (ix.keysOf a.spaceType) a.inst v j w = false := by
      intro a v hv
      refine ⟨?_, hfree a v hv⟩
      have := hlive a
      rwa [(entry_eq_upd_iff h.disjoint).2 hv] at this
    have h₁ := Outcome.isOk_iff.1 ((forEach_modify_isOk_iff st.oldValues ix).2 hfirst)
    have hview₁ := view_forEach_write hmodify h₁
    have hkeys₁ := keysOf_forEach_modify st.oldValues.toList ix
    refine ⟨hfirst, ?_⟩
    revert h₁ hview₁ hkeys₁
    generalize (Outcome.forEach (fun item ix => Indexes.modify ix item.1 fun _ => item.2)
      st.oldValues.toList ix).state = ix₁
    intro _ hview₁ hkeys₁
    rw [Outcome.bind_isOk, forEach_remove_isOk_iff st.newIds.nodup_toList]
    have hsecond : ∀ id ∈ st.newIds.toList, (ix₁.findObject id).isSome := by
      intro id hid
      have hid' : id ∈ st.newIds := by simpa using hid
      have := hlive id
      rw [entry_eq_new_iff.2 hid'] at this
      rw [← Indexes.view_obj, hview₁]
      simpa [hnew id hid'] using this
    have h₂ := Outcome.isOk_iff.1
      ((forEach_remove_isOk_iff st.newIds.nodup_toList ix₁).2 hsecond)
    have hview₂ := view_forEach_remove h₂
    have hkeys₂ := keysOf_forEach_remove st.newIds.toList ix₁
    refine ⟨hsecond, ?_⟩
    revert h₂ hview₂ hkeys₂
    generalize (Outcome.forEach (fun id ix => Indexes.remove ix id)
      st.newIds.toList ix₁).state = ix₂
    intro _ hview₂ hkeys₂
    have hthird : (Outcome.forEach (fun item ix => Indexes.setNextId ix item.1 item.2)
        st.oldIndexNextIds.toList ix₂).isOk = true := by
      refine forEach_setNextId_isOk ?_
      rintro ⟨t, n⟩ hmem
      have hget := Std.ExtTreeMap.mem_toList_iff_getElem?_eq_some.1 hmem
      obtain ⟨m, hm, -⟩ := h.mono t n (by rw [h.next t, hget, Option.some_or])
      rw [hview₂, hview₁]
      simp [hm]
    have h₃ := Outcome.isOk_iff.1 hthird
    have hview₃ := view_forEach_setNextId h₃
    have hkeys₃ := keysOf_forEach_setNextId st.oldIndexNextIds.toList ix₂
    rw [Outcome.bind_isOk]
    refine ⟨hthird, ?_⟩
    revert h₃ hview₃ hkeys₃
    generalize (Outcome.forEach (fun item ix => Indexes.setNextId ix item.1 item.2)
      st.oldIndexNextIds.toList ix₂).state = ix₃
    intro _ hview₃ hkeys₃
    have hobj₃ : ∀ id, ix₃.findObject id =
        if id ∈ st.newIds then none else (st.oldValues[id]?).or (ix.findObject id) := by
      intro id
      rw [← Indexes.view_obj, hview₃, hview₂, hview₁]
      rfl
    refine forEach_insert_isOk snap ?_ st.removed.nodup_map_fst_toList ?_ ?_
    · rw [hkeys₃, hkeys₂, hkeys₁]
      exact hunique
    · rintro ⟨id, v⟩ hmem
      have hrem := Std.ExtTreeMap.mem_toList_iff_getElem?_eq_some.1 hmem
      have he := (entry_eq_del_iff h.disjoint).2 hrem
      have hcur : ix.findObject id = none := by
        have := h.fits id
        rwa [he] at this
      have hold : st.oldValues[id]? = none := by
        by_contra hne
        obtain ⟨x, hx⟩ := Option.ne_none_iff_exists'.1 hne
        rw [(entry_eq_upd_iff h.disjoint).2 hx] at he
        simp at he
      refine ⟨by simp [hobj₃, hcur, hold], ?_, by rw [h.obj id, he]; rfl⟩
      obtain ⟨n, hn, -⟩ := h.below id (by simp [he])
      rw [hview₃, hview₂, hview₁]
      cases ho : st.oldIndexNextIds[id.spaceType]? <;> simp [hn, ho]
    · intro id w hw
      rw [hobj₃] at hw
      split at hw
      · simp at hw
      · rename_i hid
        rw [h.obj id]
        cases ho : st.oldValues[id]? with
        | some x =>
          rw [(entry_eq_upd_iff h.disjoint).2 ho]
          simpa [ho] using hw
        | none =>
          rw [ho, Option.none_or] at hw
          cases he : st.entry id with
          | nop => simpa using hw
          | new => exact absurd (entry_eq_new_iff.1 he) hid
          | upd x => simp [(entry_eq_upd_iff h.disjoint).1 he] at ho
          | del x =>
            have := h.fits id
            rw [he, UndoEntry.fits_del, Indexes.view_obj] at this
            simp [this] at hw

/-- Where the id is the only unique key, the undo loops return if no recorded object is missing. -/
theorem Reverts.restore_isOk_of_no_keys (h : st.Reverts ix.view snap) (hlive : st.LiveIn ix.view)
    (hkeys : ∀ t, ix.keysOf t = []) : (st.restore ix).isOk = true := by
  refine (h.restore_isOk_iff ?_).2 ⟨hlive, ?_⟩
  · intro s i j v w _ _ _
    simp [hkeys, clash]
  · intro a v _ j w _ _
    simp [hkeys, clash]

end UndoState

end Whitecoin.Db
