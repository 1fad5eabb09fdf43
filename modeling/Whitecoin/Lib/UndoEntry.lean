import Mathlib.Data.Option.Basic

/-!
# Undo entries

An undo log keeps, for each key of a store, one of four entries: nothing happened, the key was
created, the value was overwritten, the key was removed. This module is the algebra of those
entries for one key, over an arbitrary type of values: what each entry reverts to, how an entry
changes when the key is written again, and how the entry of a nested log folds into the entry of
the log around it.

An entry is said to *fit* a current value when a removed key is indeed absent. That is all that
reverting needs. Whether a created or overwritten key is still present is a separate question
(`Live`): a store whose writes can fail may have dropped the key, and then reverting still names
the right value but the store may not be able to write it.
-/

/-- What a log remembers about one key. -/
inductive UndoEntry (V : Type*) where
  /-- The key was not touched. -/
  | nop
  /-- The key was created. -/
  | new
  /-- The value was overwritten; it was `old`. -/
  | upd (old : V)
  /-- The key was removed; its value was `old`. -/
  | del (old : V)
  deriving DecidableEq

namespace UndoEntry

variable {V : Type*}

/-- The value the key had before the log, when it now has the value `cur`. -/
def revert : UndoEntry V → Option V → Option V
  | nop, cur => cur
  | new, _ => none
  | upd v, _ => some v
  | del v, _ => some v

/-- The entry does not contradict the current value. -/
def Fits : UndoEntry V → Option V → Prop
  | del _, cur => cur = none
  | _, _ => True

/-- The store still has the key wherever the log expects to write or remove it. -/
def Live : UndoEntry V → Option V → Prop
  | new, cur => cur.isSome
  | upd _, cur => cur.isSome
  | _, _ => True

/-- The value `old` is about to be overwritten. -/
def onModify (old : V) : UndoEntry V → UndoEntry V
  | nop => upd old
  | e => e

/-- The key, with value `old`, is about to be removed. -/
def onRemove (old : V) : UndoEntry V → UndoEntry V
  | nop => del old
  | new => nop
  | upd v => del v
  | del v => del v

/-- Fold the entry of an inner log (second) into the entry of the outer log (first). The cases
that cannot arise (a created or removed key created again, a removed key written) are settled in
favour of the inner entry. -/
def merge : UndoEntry V → UndoEntry V → UndoEntry V
  | a, nop => a
  | _, new => new
  | new, upd _ => new
  | upd v, upd _ => upd v
  | del _, upd w => upd w
  | nop, upd w => upd w
  | new, del _ => nop
  | upd v, del _ => del v
  | del _, del w => del w
  | nop, del w => del w

@[simp] theorem revert_nop (cur : Option V) : (nop : UndoEntry V).revert cur = cur := rfl

@[simp] theorem revert_new (cur : Option V) : (new : UndoEntry V).revert cur = none := rfl

@[simp] theorem revert_upd (v : V) (cur : Option V) : (upd v).revert cur = some v := rfl

@[simp] theorem revert_del (v : V) (cur : Option V) : (del v).revert cur = some v := rfl

@[simp] theorem fits_nop (cur : Option V) : (nop : UndoEntry V).Fits cur := trivial

@[simp] theorem fits_new (cur : Option V) : (new : UndoEntry V).Fits cur := trivial

@[simp] theorem fits_upd (v : V) (cur : Option V) : (upd v).Fits cur := trivial

@[simp] theorem fits_del (v : V) (cur : Option V) : (del v).Fits cur ↔ cur = none := Iff.rfl

@[simp] theorem live_nop (cur : Option V) : (nop : UndoEntry V).Live cur := trivial

@[simp] theorem live_new (cur : Option V) : (new : UndoEntry V).Live cur ↔ cur.isSome := Iff.rfl

@[simp] theorem live_upd (v : V) (cur : Option V) : (upd v).Live cur ↔ cur.isSome := Iff.rfl

@[simp] theorem live_del (v : V) (cur : Option V) : (del v).Live cur := trivial

@[simp] theorem merge_nop (a : UndoEntry V) : a.merge nop = a := by
  cases a <;> rfl

/-! ### Recording a write -/

theorem revert_onModify (e : UndoEntry V) (old : V) (cur : Option V) :
    (e.onModify old).revert cur = e.revert (some old) := by
  cases e <;> rfl

variable {e a b : UndoEntry V} {old : V} {cur : Option V}

theorem fits_onModify (h : e.Fits (some old)) (cur : Option V) : (e.onModify old).Fits cur := by
  cases e <;> simp_all [onModify]

theorem revert_onRemove (e : UndoEntry V) (old : V) :
    (e.onRemove old).revert none = e.revert (some old) := by
  cases e <;> rfl

theorem fits_onRemove (e : UndoEntry V) (old : V) : (e.onRemove old).Fits none := by
  cases e <;> simp [onRemove]

theorem live_onModify (h : e.Fits (some old)) (new' : V) : (e.onModify old).Live (some new') := by
  cases e <;> simp_all [onModify]

theorem live_onRemove (e : UndoEntry V) (old : V) : (e.onRemove old).Live none := by
  cases e <;> simp [onRemove]

/-! ### Nesting -/

/-- **Merging composes.** If the inner entry `b` fits the current value, the outer entry `a` fits
the value between the two logs, and the inner log creates only keys the outer one has not
touched, then the merged entry reverts past both logs. -/
theorem revert_merge (hb : b.Fits cur) (ha : a.Fits (b.revert cur)) (hnew : b = new → a = nop) :
    (a.merge b).revert cur = a.revert (b.revert cur) := by
  cases a <;> cases b <;> simp_all [merge]

theorem fits_merge (hb : b.Fits cur) (ha : a.Fits (b.revert cur)) (hnew : b = new → a = nop) :
    (a.merge b).Fits cur := by
  cases a <;> cases b <;> simp_all [merge]

theorem live_merge (hb : b.Live cur) (ha : a.Live (b.revert cur)) : (a.merge b).Live cur := by
  cases a <;> cases b <;> simp_all [merge]

theorem merge_ne_nop (h : a.merge b ≠ nop) : a ≠ nop ∨ b ≠ nop := by
  cases b with
  | nop => exact .inl (by simpa using h)
  | _ => exact .inr nofun

theorem merge_eq_new (h : a.merge b = new) : a = new ∨ b = new := by
  cases a <;> cases b <;> simp_all [merge]

end UndoEntry
