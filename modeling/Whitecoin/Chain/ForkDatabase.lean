import Mathlib.Data.List.Chain
import Mathlib.Data.List.Infix

/-!
# The fork database

`fork_database` keeps the recent blocks of all branches as items that point to the item of the
previous block. The pointers are weak: an item is alive while the index, the head, the items read
from disk or a local variable of the running call holds it, and following a pointer to an item that
is gone gives null. The model gives every item a number, never used twice, and a weak pointer is the
number of the item it was set to; `ForkDatabase.lock` looks it up among the items that are alive.

Two items may have the same block: one that was removed from the index and one that was inserted
when the block arrived again. Pointers to the first stay null.
-/

namespace Whitecoin.Chain

/-- What the chain uses of blocks. An id determines the block and contains its number, and a block's
number is one more than that of the previous block. -/
structure BlockIds (B Id : Type) where
  id : B → Id
  previous : B → Id
  numFromId : Id → ℕ
  null : Id
  id_injective : Function.Injective id
  num_null : numFromId null = 0
  num_id : ∀ b, numFromId (id b) = numFromId (previous b) + 1

theorem BlockIds.id_ne_null {B Id : Type} (P : BlockIds B Id) (b : B) : P.id b ≠ P.null := by
  intro h
  have hnum := P.num_id b
  rw [h, P.num_null] at hnum
  omega

/-- `fork_item`; `ptr` is the address of the item and `prev` the weak pointer. -/
structure ForkItem (B : Type) where
  ptr : ℕ
  prev : Option ℕ
  invalid : Bool
  data : B
  deriving DecidableEq

/-- `fork_database`. Nothing is ever put into `_unlinked_index`, which is left out; `nextPtr` is the
address of the next item that is allocated. -/
structure ForkDatabase (B : Type) where
  index : List (ForkItem B)
  head : Option (ForkItem B)
  itemsRead : List (ForkItem B)
  nextPtr : ℕ

variable {B Id : Type} [DecidableEq Id] (P : BlockIds B Id)

def ForkItem.num (x : ForkItem B) : ℕ := P.numFromId (P.id x.data)

namespace ForkDatabase

/-- `_max_size`. -/
def maxSize : ℕ := 1500

/-! ### Calls -/

def fetchBlock (f : ForkDatabase B) (id : Id) : Option (ForkItem B) :=
  f.index.find? fun x => P.id x.data = id

/-- The pointer of a new item: to the item of the previous block, which must be known and valid. -/
def link (f : ForkDatabase B) (b : B) : Except String (Option ℕ) :=
  if P.previous b = P.null then .ok none
  else
    match f.fetchBlock P (P.previous b) with
    | none => .error "block does not link to known chain"
    | some p => if p.invalid then .error "!(*itr)->invalid" else .ok (some p.ptr)

/-- Insertion into the index does nothing if the id is there. -/
def insert (f : ForkDatabase B) (x : ForkItem B) : ForkDatabase B :=
  { f with
    index := if (f.fetchBlock P (P.id x.data)).isSome then f.index else x :: f.index
    nextPtr := f.nextPtr + 1 }

/-- Make the item the head, and forget blocks that are too far below it. -/
def raise (f : ForkDatabase B) (x : ForkItem B) : ForkDatabase B :=
  { f with
    head := some x
    index := f.index.filter fun y => x.num P - min maxSize (x.num P) ≤ y.num P }

/-- `push_block`: the new fork database and its head. -/
def pushBlock (f : ForkDatabase B) (b : B) : Except String (ForkDatabase B × ForkItem B) :=
  match f.head with
  | none =>
    let x : ForkItem B := ⟨f.nextPtr, none, false, b⟩
    .ok ({ f.insert P x with head := some x }, x)
  | some head =>
    if P.numFromId (P.id b) ≤ head.num P - maxSize then
      .error "attempting to push a block that is too old"
    else
      match f.link P b with
      | .error e => .error e
      | .ok prev =>
        let x : ForkItem B := ⟨f.nextPtr, prev, false, b⟩
        if head.num P < x.num P then .ok ((f.insert P x).raise P x, x)
        else .ok (f.insert P x, head)

/-- `raise` with a maximum size that is not the default. -/
def raiseWith (size : ℕ) (f : ForkDatabase B) (x : ForkItem B) : ForkDatabase B :=
  { f with
    head := some x
    index := f.index.filter fun y => x.num P - min size (x.num P) ≤ y.num P }

/-- `push_block` with a maximum size that is not the default. -/
def pushBlockWith (size : ℕ) (f : ForkDatabase B) (b : B) :
    Except String (ForkDatabase B × ForkItem B) :=
  match f.head with
  | none =>
    let x : ForkItem B := ⟨f.nextPtr, none, false, b⟩
    .ok ({ f.insert P x with head := some x }, x)
  | some head =>
    if P.numFromId (P.id b) ≤ head.num P - size then
      .error "attempting to push a block that is too old"
    else
      match f.link P b with
      | .error e => .error e
      | .ok prev =>
        let x : ForkItem B := ⟨f.nextPtr, prev, false, b⟩
        if head.num P < x.num P then .ok ((f.insert P x).raiseWith P size x, x)
        else .ok (f.insert P x, head)

theorem pushBlock_eq (f : ForkDatabase B) (b : B) :
    f.pushBlock P b = f.pushBlockWith P maxSize b := rfl

def setHead (f : ForkDatabase B) (x : ForkItem B) : ForkDatabase B := { f with head := some x }

def remove (f : ForkDatabase B) (id : Id) : ForkDatabase B :=
  { f with index := f.index.filter fun x => P.id x.data ≠ id }

/-- `weak_ptr::lock`, while the running call holds the items `held`. -/
def lock (f : ForkDatabase B) (held : List (ForkItem B)) (prev : Option ℕ) : Option (ForkItem B) :=
  prev.bind fun q => (held ++ f.index ++ f.itemsRead).find? fun x => x.ptr = q

/-- `pop_block`. -/
def popBlock (f : ForkDatabase B) (held : List (ForkItem B)) : Except String (ForkDatabase B) :=
  match f.head with
  | none => .error "no blocks to pop"
  | some x =>
    match f.lock held x.prev with
    | none => .error "poping block would leave head block null"
    | some y => .ok { f with head := some y }

/-- The first two loops of `fetch_branch_from`: walk down to a block number. Every pointer leads to
a lower number, so the number of the first item bounds the steps. -/
def descend (f : ForkDatabase B) (held : List (ForkItem B)) (bound : ℕ) :
    ℕ → ForkItem B → Option (List (ForkItem B) × ForkItem B)
  | 0, x => if bound < x.num P then none else some ([], x)
  | n + 1, x =>
    if bound < x.num P then
      (f.lock held x.prev).bind fun y =>
        (descend f held bound n y).map fun r => (x :: r.1, r.2)
    else some ([], x)

/-- The last loop of `fetch_branch_from`: walk down on both sides to a common previous block. -/
def meet (f : ForkDatabase B) (held : List (ForkItem B)) :
    ℕ → ForkItem B → ForkItem B → Option (List (ForkItem B) × List (ForkItem B))
  | 0, x, y => if P.previous x.data = P.previous y.data then some ([x], [y]) else none
  | n + 1, x, y =>
    if P.previous x.data = P.previous y.data then some ([x], [y])
    else
      (f.lock held x.prev).bind fun x' =>
      (f.lock held y.prev).bind fun y' =>
        (meet f held n x' y').map fun r => (x :: r.1, y :: r.2)

/-- `fetch_branch_from`: the two branches down to their common previous block, the newest block
first. -/
def fetchBranchFrom (f : ForkDatabase B) (held : List (ForkItem B)) (first second : Id) :
    Option (List (ForkItem B) × List (ForkItem B)) :=
  (f.fetchBlock P first).bind fun x =>
  (f.fetchBlock P second).bind fun y =>
  (f.descend P held (y.num P) (x.num P) x).bind fun r₁ =>
  (f.descend P held (r₁.2.num P) (y.num P) y).bind fun r₂ =>
  (f.meet P held (r₁.2.num P) r₁.2 r₂.2).map fun m => (r₁.1 ++ m.1, r₂.1 ++ m.2)

/-- The item that is reached by following `n` pointers. -/
def ancestor (f : ForkDatabase B) (held : List (ForkItem B)) :
    ℕ → ForkItem B → Option (ForkItem B)
  | 0, x => some x
  | n + 1, x => (f.lock held x.prev).bind (ancestor f held n)

/-- The pointers of the item can be followed `n` times. -/
def HasAncestors (f : ForkDatabase B) (held : List (ForkItem B)) (n : ℕ) (x : ForkItem B) : Prop :=
  (f.ancestor held n x).isSome = true

instance (f : ForkDatabase B) (held : List (ForkItem B)) (n : ℕ) (x : ForkItem B) :
    Decidable (f.HasAncestors held n x) :=
  inferInstanceAs (Decidable (_ = _))

variable {P}

/-! ### Pointers -/

variable {f : ForkDatabase B} {held : List (ForkItem B)} {y x : ForkItem B} {n : ℕ}
  {h : Option (ForkItem B)}

omit [DecidableEq Id] in
theorem lock_mem {prev : Option ℕ} (h : f.lock held prev = some y) :
    y ∈ held ++ f.index ++ f.itemsRead ∧ prev = some y.ptr := by
  obtain ⟨q, rfl, hq⟩ := Option.bind_eq_some_iff.1 h
  have hptr : y.ptr = q := by simpa using List.find?_some hq
  exact ⟨List.mem_of_find?_eq_some hq, by rw [hptr]⟩

theorem fetchBlock_mem {id : Id} (h : f.fetchBlock P id = some x) :
    x ∈ f.index ∧ P.id x.data = id :=
  ⟨List.mem_of_find?_eq_some h, by simpa using List.find?_some h⟩

omit [DecidableEq Id] in
theorem hasAncestors_zero :
    f.HasAncestors held 0 x := rfl

omit [DecidableEq Id] in
theorem hasAncestors_succ : f.HasAncestors held (n + 1) x ↔
      ∃ y, f.lock held x.prev = some y ∧ f.HasAncestors held n y := by
  rw [HasAncestors, ancestor, Option.isSome_bind, Option.any_eq_true]
  rfl

omit [DecidableEq Id] in
theorem HasAncestors.mono :
    ∀ {m n : ℕ} {x : ForkItem B}, m ≤ n → f.HasAncestors held n x → f.HasAncestors held m x
  | 0, _, _, _, _ => hasAncestors_zero
  | m + 1, n + 1, x, hle, h => by
    obtain ⟨y, hy, h⟩ := hasAncestors_succ.1 h
    exact hasAncestors_succ.2 ⟨y, hy, h.mono (by omega)⟩

omit [DecidableEq Id] in
theorem ancestor_head :
    ∀ {n : ℕ} {x : ForkItem B},
      ({ f with head := h } : ForkDatabase B).ancestor held n x = f.ancestor held n x
  | 0, _ => rfl
  | n + 1, x => by
    rw [ancestor, ancestor]
    congr 1
    funext y
    exact ancestor_head

omit [DecidableEq Id] in
theorem hasAncestors_head :
    ({ f with head := h } : ForkDatabase B).HasAncestors held n x ↔ f.HasAncestors held n x := by
  rw [HasAncestors, ancestor_head]
  rfl

omit [DecidableEq Id] in
theorem popBlock_eq_ok (hhead : f.head = some x) (hlock : f.lock held x.prev = some y) :
    f.popBlock held = .ok { f with head := some y } := by
  simp only [popBlock, hhead, hlock]

omit [DecidableEq Id] in
theorem popBlock_eq_error (hhead : f.head = some x) (hlock : f.lock held x.prev = none) :
    ∃ e, f.popBlock held = .error e := by
  simp only [popBlock, hhead, hlock]
  exact ⟨_, rfl⟩

/-- All the items that are alive between two calls. -/
def strong (f : ForkDatabase B) : List (ForkItem B) := f.head.toList ++ f.index ++ f.itemsRead

end ForkDatabase

/-- A pointer between two of these items leads to the item of the previous block. -/
def LinksOk (P : BlockIds B Id) (l : List (ForkItem B)) : Prop :=
  ∀ x ∈ l, ∀ y ∈ l, x.prev = some y.ptr → P.id y.data = P.previous x.data

omit [DecidableEq Id] in
theorem LinksOk.mono {P : BlockIds B Id} {l l' : List (ForkItem B)} (h : LinksOk P l)
    (hsub : ∀ x ∈ l', x ∈ l) : LinksOk P l' :=
  fun x hx y hy => h x (hsub x hx) y (hsub y hy)

namespace ForkDatabase

variable {P}

/-- Pointers lead to previous blocks, and no address is used twice. -/
structure Sound (P : BlockIds B Id) (f : ForkDatabase B) : Prop where
  links : LinksOk P f.strong
  ptr_inj : ∀ x ∈ f.strong, ∀ y ∈ f.strong, x.ptr = y.ptr → x = y
  ptr_lt : ∀ x ∈ f.strong, x.ptr < f.nextPtr
  prev_lt : ∀ x ∈ f.strong, ∀ q ∈ x.prev, q < f.nextPtr

variable {f f' : ForkDatabase B} {x y : ForkItem B} {b : B} {prev : Option ℕ} {size : ℕ}

theorem strong_insert (h : y ∈ (f.insert P x).strong) : y = x ∨ y ∈ f.strong := by
  have hindex : ∀ y ∈ (f.insert P x).index, y = x ∨ y ∈ f.index := by
    intro y hy
    rw [insert] at hy
    dsimp only at hy
    split at hy
    · exact .inr hy
    · exact List.mem_cons.1 hy
  simp only [strong, List.mem_append] at h ⊢
  rcases h with (h | h) | h
  · exact .inr (.inl (.inl h))
  · exact (hindex y h).imp_right fun h => .inl (.inr h)
  · exact .inr (.inr h)

omit [DecidableEq Id] in
theorem Sound.insert (h : f.Sound P) (prev : Option ℕ) (b : B)
    (hprev : ∀ y ∈ f.strong, prev = some y.ptr → P.id y.data = P.previous b)
    (hlt : ∀ q ∈ prev, q < f.nextPtr)
    (hsub : ∀ x ∈ f'.strong, x = ⟨f.nextPtr, prev, false, b⟩ ∨ x ∈ f.strong)
    (hnext : f'.nextPtr = f.nextPtr + 1) : f'.Sound P := by
  refine ⟨?_, ?_, ?_, ?_⟩
  · intro x hx y hy hxy
    rcases hsub x hx with rfl | hx <;> rcases hsub y hy with rfl | hy
    · -- the new item does not point to itself
      exact absurd (hlt _ hxy) (lt_irrefl _)
    · exact hprev y hy hxy
    · -- no older item points to the new one
      exact absurd (h.prev_lt x hx _ hxy) (lt_irrefl _)
    · exact h.links x hx y hy hxy
  · intro x hx y hy hxy
    rcases hsub x hx with rfl | hx <;> rcases hsub y hy with rfl | hy
    · rfl
    · exact absurd (h.ptr_lt y hy) (by rw [← hxy]; exact lt_irrefl _)
    · exact absurd (h.ptr_lt x hx) (by rw [hxy]; exact lt_irrefl _)
    · exact h.ptr_inj x hx y hy hxy
  · intro x hx
    rw [hnext]
    rcases hsub x hx with rfl | hx
    · exact Nat.lt_succ_self _
    · exact Nat.lt_succ_of_lt (h.ptr_lt x hx)
  · intro x hx q hq
    rw [hnext]
    rcases hsub x hx with rfl | hx
    · exact Nat.lt_succ_of_lt (hlt q hq)
    · exact Nat.lt_succ_of_lt (h.prev_lt x hx q hq)

theorem mem_strong_of_index (h : x ∈ f.index) : x ∈ f.strong := by
  simp [strong, h]

theorem mem_insert (h : y ∈ f.index) : y ∈ (f.insert P x).index := by
  rw [insert]
  dsimp only
  split
  · exact h
  · exact List.mem_cons_of_mem _ h

theorem mem_raise_insert (h : f.fetchBlock P (P.id x.data) = none) :
    x ∈ ((f.insert P x).raise P x).index := by
  refine List.mem_filter.2 ⟨?_, ?_⟩
  · rw [insert, h]
    exact List.mem_cons_self
  · simp

theorem link_cases (hlink : f.link P b = .ok prev) :
    (P.previous b = P.null ∧ prev = none) ∨
      ∃ p ∈ f.index, P.id p.data = P.previous b ∧ prev = some p.ptr := by
  rw [link] at hlink
  split at hlink
  · rename_i hnull
    exact .inl ⟨hnull, (Except.ok.inj hlink).symm⟩
  · rcases hfetch : f.fetchBlock P (P.previous b) with _ | p
    · simp [hfetch] at hlink
    · rw [hfetch] at hlink
      dsimp only at hlink
      split at hlink
      · simp at hlink
      · obtain ⟨hp, hid⟩ := fetchBlock_mem hfetch
        exact .inr ⟨p, hp, hid, (Except.ok.inj hlink).symm⟩

theorem link_spec (h : f.Sound P) (hlink : f.link P b = .ok prev) :
    (∀ y ∈ f.strong, prev = some y.ptr → P.id y.data = P.previous b) ∧
      ∀ q ∈ prev, q < f.nextPtr := by
  rcases link_cases hlink with ⟨-, rfl⟩ | ⟨p, hp, hid, rfl⟩
  · simp
  · have hp' := mem_strong_of_index hp
    refine ⟨fun y hy hptr => ?_, fun q hq => ?_⟩
    · obtain rfl := h.ptr_inj p hp' y hy (Option.some.inj hptr)
      exact hid
    · obtain rfl : p.ptr = q := by simpa using hq
      exact h.ptr_lt p hp'

/-- All that `push_block` can do: the new item becomes the head, or it is inserted below it. -/
theorem pushBlockWith_cases (h : f.pushBlockWith P size b = .ok (f', x)) :
    (f.head = none ∧ x = ⟨f.nextPtr, none, false, b⟩ ∧ f' = { f.insert P x with head := some x }) ∨
    ∃ head prev, f.head = some head ∧ f.link P b = .ok prev ∧
      head.num P - size < P.numFromId (P.id b) ∧
      (head.num P < P.numFromId (P.id b) ∧ x = ⟨f.nextPtr, prev, false, b⟩ ∧
          f' = (f.insert P x).raiseWith P size x ∨
        P.numFromId (P.id b) ≤ head.num P ∧ x = head ∧
          f' = f.insert P ⟨f.nextPtr, prev, false, b⟩) := by
  rw [pushBlockWith] at h
  rcases hhead : f.head with _ | head
  · simp only [hhead, Except.ok.injEq, Prod.mk.injEq] at h
    obtain ⟨rfl, rfl⟩ := h
    exact .inl ⟨rfl, rfl, rfl⟩
  · refine .inr ?_
    simp only [hhead] at h
    split at h
    · simp at h
    · rename_i hold
      rcases hlink : f.link P b with e | prev
      · simp [hlink] at h
      · simp only [hlink] at h
        refine ⟨head, prev, rfl, rfl, by omega, ?_⟩
        split at h
        · rename_i hnum
          rw [Except.ok.injEq, Prod.mk.injEq] at h
          obtain ⟨rfl, rfl⟩ := h
          exact .inl ⟨hnum, rfl, rfl⟩
        · rename_i hnum
          rw [Except.ok.injEq, Prod.mk.injEq] at h
          obtain ⟨rfl, rfl⟩ := h
          exact .inr ⟨Nat.le_of_not_lt hnum, rfl, rfl⟩

theorem pushBlock_cases (h : f.pushBlock P b = .ok (f', x)) :
    (f.head = none ∧ x = ⟨f.nextPtr, none, false, b⟩ ∧ f' = { f.insert P x with head := some x }) ∨
    ∃ head prev, f.head = some head ∧ f.link P b = .ok prev ∧
      head.num P - maxSize < P.numFromId (P.id b) ∧
      (head.num P < P.numFromId (P.id b) ∧ x = ⟨f.nextPtr, prev, false, b⟩ ∧
          f' = (f.insert P x).raise P x ∨
        P.numFromId (P.id b) ≤ head.num P ∧ x = head ∧
          f' = f.insert P ⟨f.nextPtr, prev, false, b⟩) :=
  pushBlockWith_cases h

theorem head_pushBlockWith (h : f.pushBlockWith P size b = .ok (f', x)) : f'.head = some x := by
  rcases pushBlockWith_cases h with
    ⟨-, -, rfl⟩ | ⟨head, prev, hhead, -, -, ⟨-, -, rfl⟩ | ⟨-, rfl, rfl⟩⟩
  · rfl
  · rfl
  · exact hhead

theorem head_pushBlock (h : f.pushBlock P b = .ok (f', x)) : f'.head = some x :=
  head_pushBlockWith h

/-- **Pushing a block keeps the fork database sound.** -/
theorem Sound.pushBlock (h : f.Sound P) (hpush : f.pushBlock P b = .ok (f', x)) : f'.Sound P := by
  rcases pushBlock_cases hpush with
    ⟨-, hx, rfl⟩ | ⟨head, prev, -, hlink, -, ⟨-, hx, rfl⟩ | ⟨-, -, rfl⟩⟩
  · refine h.insert none b (by simp) (by simp) ?_ rfl
    intro y hy
    have hy' : y = x ∨ y ∈ (f.insert P x).strong := by
      simp only [strong, Option.toList_some, List.mem_append, List.mem_singleton] at hy ⊢
      tauto
    rcases hy' with rfl | hy'
    · exact .inl hx
    · exact hx ▸ strong_insert hy'
  · obtain ⟨hprev, hlt⟩ := link_spec h hlink
    refine h.insert prev b hprev hlt ?_ rfl
    intro y hy
    have hy' : y = x ∨ y ∈ (f.insert P x).strong := by
      simp only [strong, raise, Option.toList_some, List.mem_append, List.mem_singleton,
        List.mem_filter] at hy ⊢
      tauto
    rcases hy' with rfl | hy'
    · exact .inl hx
    · exact hx ▸ strong_insert hy'
  · obtain ⟨hprev, hlt⟩ := link_spec h hlink
    exact h.insert prev b hprev hlt (fun y hy => strong_insert hy) rfl

/-- Items have been forgotten and the head has been moved among those that are left. -/
def Within (f f' : ForkDatabase B) : Prop :=
  f'.nextPtr = f.nextPtr ∧ ∀ x ∈ f'.strong, x ∈ f.strong

omit [DecidableEq Id] in
theorem Sound.within (h : f.Sound P) (hw : f.Within f') : f'.Sound P where
  links := h.links.mono hw.2
  ptr_inj := fun x hx y hy => h.ptr_inj x (hw.2 x hx) y (hw.2 y hy)
  ptr_lt := fun x hx => hw.1 ▸ h.ptr_lt x (hw.2 x hx)
  prev_lt := fun x hx => hw.1 ▸ h.prev_lt x (hw.2 x hx)

namespace Within

variable {f f' : ForkDatabase B} {x : ForkItem B}

theorem refl (f : ForkDatabase B) : f.Within f := ⟨rfl, fun _ hx => hx⟩

theorem setHead (h : f.Within f') (hx : x ∈ f.strong) :
    f.Within ({ f' with head := some x } : ForkDatabase B) := by
  refine ⟨h.1, fun y hy => ?_⟩
  simp only [strong, Option.toList_some, List.mem_append, List.mem_singleton] at hy
  rcases hy with (rfl | hy) | hy
  · exact hx
  · exact h.2 y (by simp [strong, hy])
  · exact h.2 y (by simp [strong, hy])

theorem remove (h : f.Within f') (id : Id) : f.Within (f'.remove P id) := by
  refine ⟨h.1, fun y hy => h.2 y ?_⟩
  simp only [strong, ForkDatabase.remove, List.mem_append, List.mem_filter] at hy ⊢
  tauto

end Within

/-! ### Branches -/

/-- Each block is followed by the block before it. -/
def Linked (P : BlockIds B Id) (l : List (ForkItem B)) : Prop :=
  l.IsChain fun x y => P.id y.data = P.previous x.data

/-- What `fetch_branch_from` returns when the first block has the larger number. -/
structure Branches (P : BlockIds B Id) (f : ForkDatabase B) (held : List (ForkItem B))
    (a b : Id) (first second : List (ForkItem B)) : Prop where
  first_top : ∃ x rest, first = x :: rest ∧ f.fetchBlock P a = some x
  second_top : ∃ y rest, second = y :: rest ∧ f.fetchBlock P b = some y
  first_linked : Linked P first
  second_linked : Linked P second
  /-- Both branches start from the same block. -/
  base : ∃ target, (∀ x ∈ first.getLast?, P.previous x.data = target) ∧
    ∀ y ∈ second.getLast?, P.previous y.data = target
  /-- The second block is not on the first branch, unless the branches are one. -/
  apart : ∀ x ∈ first, P.id x.data = b → second.length = 1 ∧ first.getLast? = some x
  alive : ∀ x ∈ first ++ second, x ∈ held ++ f.index ++ f.itemsRead

section Walk

variable {f : ForkDatabase B} {held : List (ForkItem B)}

omit [DecidableEq Id]

variable {x y : ForkItem B} {A : List (ForkItem B)}

theorem lock_spec (hl : LinksOk P (held ++ f.index ++ f.itemsRead))
    (hx : x ∈ held ++ f.index ++ f.itemsRead) (h : f.lock held x.prev = some y) :
    y ∈ held ++ f.index ++ f.itemsRead ∧ P.id y.data = P.previous x.data ∧
      y.num P + 1 = x.num P := by
  obtain ⟨hy, hprev⟩ := lock_mem h
  have hid := hl x hx y hy hprev
  exact ⟨hy, hid, by rw [ForkItem.num, ForkItem.num, P.num_id x.data, hid]⟩

/-- Walking down to a number that is not above the start reaches an item with that number. -/
theorem descend_spec (hl : LinksOk P (held ++ f.index ++ f.itemsRead)) {bound : ℕ} :
    ∀ {n : ℕ} {x y : ForkItem B} {l : List (ForkItem B)},
      x ∈ held ++ f.index ++ f.itemsRead → bound ≤ x.num P →
      f.descend P held bound n x = some (l, y) →
      Linked P (l ++ [y]) ∧ (l ++ [y]).head? = some x ∧ y.num P = bound ∧
        (∀ z ∈ l, bound < z.num P) ∧ ∀ z ∈ l ++ [y], z ∈ held ++ f.index ++ f.itemsRead := by
  -- where the walk ends
  have hstop : ∀ {x y : ForkItem B} {l : List (ForkItem B)},
      x ∈ held ++ f.index ++ f.itemsRead → bound ≤ x.num P → ¬ bound < x.num P →
      some ([], x) = some (l, y) →
      Linked P (l ++ [y]) ∧ (l ++ [y]).head? = some x ∧ y.num P = bound ∧
        (∀ z ∈ l, bound < z.num P) ∧ ∀ z ∈ l ++ [y], z ∈ held ++ f.index ++ f.itemsRead := by
    intro x y l hx hle hlt h
    obtain ⟨rfl, rfl⟩ : [] = l ∧ x = y := by simpa using h
    exact ⟨List.isChain_singleton _, rfl, by omega, by simp, by simpa using hx⟩
  intro n
  induction n with
  | zero =>
    intro x y l hx hle h
    rw [descend] at h
    split at h
    · simp at h
    · rename_i hlt
      exact hstop hx hle hlt h
  | succ n ih =>
    intro x y l hx hle h
    rw [descend] at h
    split at h
    · rename_i hlt
      obtain ⟨x', hx', h⟩ := Option.bind_eq_some_iff.1 h
      obtain ⟨⟨l', y'⟩, h', heq⟩ := Option.map_eq_some_iff.1 h
      obtain ⟨rfl, rfl⟩ : x :: l' = l ∧ y' = y := by simpa using heq
      obtain ⟨hmem, hid, hnum⟩ := lock_spec hl hx hx'
      obtain ⟨hlinked, hhead, hy, habove, halive⟩ := ih hmem (by omega) h'
      refine ⟨?_, rfl, hy, ?_, ?_⟩
      · rw [List.cons_append]
        rcases hl' : l' ++ [y'] with _ | ⟨z, rest⟩
        · simp at hl'
        · rw [hl'] at hhead hlinked
          obtain rfl : z = x' := by simpa using hhead
          exact List.isChain_cons_cons.2 ⟨hid, hlinked⟩
      · intro z hz
        rcases List.mem_cons.1 hz with rfl | hz
        · exact hlt
        · exact habove z hz
      · intro z hz
        rcases List.mem_cons.1 hz with rfl | hz
        · exact hx
        · exact halive z hz
    · rename_i hlt
      exact hstop hx hle hlt h

/-- What the last loop of `fetch_branch_from` returns for two items with the same number. -/
structure Met (P : BlockIds B Id) (A : List (ForkItem B)) (x y : ForkItem B)
    (l m : List (ForkItem B)) : Prop where
  left : ∃ rest, l = x :: rest ∧ ∀ z ∈ rest, z.num P < x.num P
  right : ∃ rest, m = y :: rest
  linked : Linked P l ∧ Linked P m
  base : ∃ target, (∀ z ∈ l.getLast?, P.previous z.data = target) ∧
    ∀ z ∈ m.getLast?, P.previous z.data = target
  length : l.length = m.length
  apart : P.previous x.data = P.previous y.data → m.length = 1
  alive : ∀ z ∈ l ++ m, z ∈ A

theorem Met.single (hx : x ∈ A) (hy : y ∈ A) (h : P.previous x.data = P.previous y.data) :
    Met P A x y [x] [y] where
  left := ⟨[], rfl, by simp⟩
  right := ⟨[], rfl⟩
  linked := ⟨List.isChain_singleton _, List.isChain_singleton _⟩
  base := ⟨P.previous x.data, by simp, by simp [h]⟩
  length := rfl
  apart := fun _ => rfl
  alive := by simp [hx, hy]

theorem Met.cons {x' y' : ForkItem B} {l m : List (ForkItem B)} (h : Met P A x' y' l m) (hx : x ∈ A)
    (hy : y ∈ A) (hne : P.previous x.data ≠ P.previous y.data)
    (hidx : P.id x'.data = P.previous x.data) (hidy : P.id y'.data = P.previous y.data)
    (hnum : x'.num P + 1 = x.num P) : Met P A x y (x :: l) (y :: m) := by
  obtain ⟨rest, rfl, hlow⟩ := h.left
  obtain ⟨rest', rfl⟩ := h.right
  refine ⟨⟨_, rfl, ?_⟩, ⟨_, rfl⟩, ⟨List.isChain_cons_cons.2 ⟨hidx, h.linked.1⟩,
    List.isChain_cons_cons.2 ⟨hidy, h.linked.2⟩⟩, ?_, by simp [h.length], fun he => absurd he hne, ?_⟩
  · intro z hz
    rcases List.mem_cons.1 hz with rfl | hz
    · omega
    · have := hlow z hz
      omega
  · obtain ⟨target, ht₁, ht₂⟩ := h.base
    exact ⟨target, by simpa using ht₁, by simpa using ht₂⟩
  · intro z hz
    have halive := h.alive z
    simp only [List.mem_append, List.mem_cons] at hz halive
    rcases hz with (rfl | hz) | (rfl | hz)
    · exact hx
    · exact halive (.inl hz)
    · exact hy
    · exact halive (.inr hz)

variable [DecidableEq Id]

theorem meet_spec (hl : LinksOk P (held ++ f.index ++ f.itemsRead)) :
    ∀ {n : ℕ} {x y : ForkItem B} {l m : List (ForkItem B)},
      x ∈ held ++ f.index ++ f.itemsRead → y ∈ held ++ f.index ++ f.itemsRead →
      f.meet P held n x y = some (l, m) → Met P (held ++ f.index ++ f.itemsRead) x y l m
  | 0, x, y, l, m, hx, hy, h => by
    rw [meet] at h
    split at h
    · rename_i heq
      obtain ⟨rfl, rfl⟩ : [x] = l ∧ [y] = m := by simpa using h
      exact .single hx hy heq
    · simp at h
  | n + 1, x, y, l, m, hx, hy, h => by
    rw [meet] at h
    split at h
    · rename_i heq
      obtain ⟨rfl, rfl⟩ : [x] = l ∧ [y] = m := by simpa using h
      exact .single hx hy heq
    · rename_i hne
      obtain ⟨x', hx', h⟩ := Option.bind_eq_some_iff.1 h
      obtain ⟨y', hy', h⟩ := Option.bind_eq_some_iff.1 h
      obtain ⟨⟨l', m'⟩, h', heq⟩ := Option.map_eq_some_iff.1 h
      obtain ⟨rfl, rfl⟩ : x :: l' = l ∧ y :: m' = m := by simpa using heq
      obtain ⟨hmx, hidx, hnx⟩ := lock_spec hl hx hx'
      obtain ⟨hmy, hidy, -⟩ := lock_spec hl hy hy'
      exact (meet_spec hl hmx hmy h').cons hx hy hne hidx hidy hnx

/-- **The branches that `fetch_branch_from` returns**, when the first block has the larger
number. -/
theorem fetchBranchFrom_spec (hl : LinksOk P (held ++ f.index ++ f.itemsRead)) {a b : Id}
    {first second : List (ForkItem B)} (hnum : P.numFromId b < P.numFromId a)
    (h : f.fetchBranchFrom P held a b = some (first, second)) :
    Branches P f held a b first second := by
  obtain ⟨x, hx, h⟩ := Option.bind_eq_some_iff.1 h
  obtain ⟨y, hy, h⟩ := Option.bind_eq_some_iff.1 h
  obtain ⟨⟨l₁, x'⟩, h₁, h⟩ := Option.bind_eq_some_iff.1 h
  obtain ⟨⟨l₂, y'⟩, h₂, h⟩ := Option.bind_eq_some_iff.1 h
  obtain ⟨⟨m₁, m₂⟩, hm, h⟩ := Option.map_eq_some_iff.1 h
  obtain ⟨rfl, rfl⟩ : l₁ ++ m₁ = first ∧ l₂ ++ m₂ = second := by simpa using h
  obtain ⟨hxi, hxa⟩ := fetchBlock_mem hx
  obtain ⟨hyi, hyb⟩ := fetchBlock_mem hy
  have hnx : x.num P = P.numFromId a := by rw [ForkItem.num, hxa]
  have hny : y.num P = P.numFromId b := by rw [ForkItem.num, hyb]
  obtain ⟨hl₁, hhead, hx', habove, halive₁⟩ :=
    descend_spec hl (by simp [hxi]) (by omega) h₁
  -- the second branch has nothing to walk down
  obtain ⟨hl₂, hhead₂, hy', habove₂, halive₂⟩ :=
    descend_spec hl (by simp [hyi]) (le_of_eq hx') h₂
  have hnil : l₂ = [] := by
    rcases l₂ with _ | ⟨z, rest⟩
    · rfl
    · obtain rfl : z = y := by simpa using hhead₂
      have := habove₂ z List.mem_cons_self
      omega
  subst hnil
  obtain rfl : y' = y := by simpa using hhead₂
  have hmet := meet_spec hl (halive₁ x' (by simp)) (by simp [hyi]) hm
  obtain ⟨rest, rfl, hlow⟩ := hmet.left
  obtain ⟨rest', rfl⟩ := hmet.right
  refine ⟨?_, ⟨y', rest', rfl, hy⟩, ?_, hmet.linked.2, ?_, ?_, ?_⟩
  · rcases l₁ with _ | ⟨z, l₁⟩
    · obtain rfl : x' = x := by simpa using hhead
      exact ⟨x', rest, rfl, hx⟩
    · obtain rfl : z = x := by simpa using hhead
      exact ⟨z, l₁ ++ x' :: rest, rfl, hx⟩
  · have hrest : Linked P ([x'] ++ rest) := hmet.linked.1
    have hall := List.IsChain.append_overlap hl₁ hrest (by simp)
    simpa [Linked] using hall
  · obtain ⟨target, ht₁, ht₂⟩ := hmet.base
    exact ⟨target, by simpa using ht₁, by simpa using ht₂⟩
  · intro z hz hzb
    have hnz : z.num P = P.numFromId b := by rw [ForkItem.num, hzb]
    rcases List.mem_append.1 hz with hz | hz
    · have := habove z hz
      omega
    · rcases List.mem_cons.1 hz with rfl | hz
      · have hdata : z.data = y'.data := P.id_injective (hzb.trans hyb.symm)
        have hone := hmet.apart (by rw [hdata])
        have hlen := hmet.length
        rw [hone, List.length_cons] at hlen
        obtain rfl : rest = [] := List.length_eq_zero_iff.1 (by omega)
        exact ⟨hone, by simp⟩
      · have := hlow z hz
        omega
  · intro z hz
    simp only [List.nil_append, List.mem_append] at hz
    rcases hz with (hz | hz) | hz
    · exact halive₁ z (List.mem_append_left _ hz)
    · exact hmet.alive z (List.mem_append_left _ hz)
    · exact hmet.alive z (List.mem_append_right _ hz)

end Walk

end ForkDatabase

/-- A chain in which blocks are labels on paths and their ids are the paths to them. -/
def pathIds : BlockIds (ℕ × List ℕ) (List ℕ) where
  id b := b.1 :: b.2
  previous b := b.2
  numFromId := List.length
  null := []
  id_injective := by
    rintro ⟨m, p⟩ ⟨n, q⟩ h
    obtain ⟨rfl, rfl⟩ := List.cons.inj h
    rfl
  num_null := rfl
  num_id _ := rfl

end Whitecoin.Chain
