import Whitecoin.Chain.ForkDatabase

/-!
# The tree of forks

A fork database starts with one block. Every other block that is pushed must link to an item of the
index, unless it has no previous block, and must not be too far below the head. A block above the
head becomes the head, and items that are then too far below it are forgotten. How far is the
maximum size, which can be changed at any time; a smaller one forgets items at once, and a larger
one does not bring them back.

So an item may have lost its predecessor although the predecessor's number is within the size that
holds now. It has lost it only to a bound that held before.
-/

namespace Whitecoin.Chain

variable {B Id : Type} [DecidableEq Id]

namespace ForkDatabase

variable (P : BlockIds B Id)

/-- A fork database without blocks. -/
def empty : ForkDatabase B := ⟨[], none, [], 0⟩

/-- `start_block`. -/
def startBlock (f : ForkDatabase B) (b : B) : ForkDatabase B :=
  let x : ForkItem B := ⟨f.nextPtr, none, false, b⟩
  { f.insert P x with head := some x }

/-- What holds of the items: `past` are those that have been in the index, `gone` those that may
have been forgotten, and `low` is below all numbers. -/
structure Items (past gone : ForkItem B → Prop) (start : B) (low : ℕ) (f : ForkDatabase B) :
    Prop where
  seen : ∀ x ∈ f.index, past x
  le : ∀ x ∈ f.index, low ≤ x.num P
  lt : ∀ x ∈ f.index, x.ptr < f.nextPtr
  ids : ∀ x ∈ f.index, ∀ y ∈ f.index, P.id x.data = P.id y.data → x = y
  /-- Pointers are missing at the start, and lead to the item of the previous block otherwise. -/
  linked : ∀ x ∈ f.index, (x.prev = none ∧ (x.data = start ∨ P.previous x.data = P.null)) ∨
    ∃ p, past p ∧ x.prev = some p.ptr ∧ P.id p.data = P.previous x.data ∧ (p ∈ f.index ∨ gone p)

/-- The head has the largest number, and is the first item with that number. -/
structure Top (f : ForkDatabase B) (h : ForkItem B) : Prop where
  head : f.head = some h
  mem : h ∈ f.index
  largest : ∀ x ∈ f.index, x.num P ≤ h.num P
  first : ∀ x ∈ f.index, x.num P = h.num P → h.ptr ≤ x.ptr

/-- The items with a number that is not below the bound. -/
def trim (f : ForkDatabase B) (bound : ℕ) : ForkDatabase B :=
  { f with index := f.index.filter fun x => bound ≤ x.num P }

variable {P} {past past' gone gone' : ForkItem B → Prop} {start b : B} {low bound : ℕ}
  {f : ForkDatabase B} {x h : ForkItem B} {prev : Option ℕ}

omit [DecidableEq Id] in
theorem mem_trim : x ∈ (f.trim P bound).index ↔ x ∈ f.index ∧ bound ≤ x.num P := by
  simp [trim]

theorem mem_index_insert {y : ForkItem B} :
    y ∈ (f.insert P x).index ↔
      y ∈ f.index ∨ y = x ∧ ∀ z ∈ f.index, P.id z.data ≠ P.id x.data := by
  rw [insert]
  dsimp only
  rcases hfetch : f.fetchBlock P (P.id x.data) with _ | z
  · have hnone : ∀ z ∈ f.index, P.id z.data ≠ P.id x.data := by
      simpa [fetchBlock] using hfetch
    simp only [Option.isSome_none, Bool.false_eq_true, if_false, List.mem_cons]
    tauto
  · obtain ⟨hz, hid⟩ := fetchBlock_mem hfetch
    simp only [Option.isSome_some, if_true]
    constructor
    · exact .inl
    · rintro (hy | ⟨-, hall⟩)
      · exact hy
      · exact absurd hid (hall z hz)

theorem Items.insert (hf : Items P past gone start low f) (hlink : f.link P b = .ok prev)
    (hlow : low ≤ P.numFromId (P.id b))
    (hpast : ∀ y, past y ∨ y ∈ (f.insert P ⟨f.nextPtr, prev, false, b⟩).index → past' y) :
    Items P past' gone start low (f.insert P ⟨f.nextPtr, prev, false, b⟩) where
  seen y hy := hpast y (.inr hy)
  le y hy := by
    rcases mem_index_insert.mp hy with hy | ⟨rfl, -⟩
    · exact hf.le y hy
    · exact hlow
  lt y hy := by
    rcases mem_index_insert.mp hy with hy | ⟨rfl, -⟩
    · exact Nat.lt_succ_of_lt (hf.lt y hy)
    · exact Nat.lt_succ_self _
  ids y hy z hz hid := by
    rcases mem_index_insert.mp hy with hy | ⟨rfl, hnew⟩ <;>
      rcases mem_index_insert.mp hz with hz | ⟨rfl, hnew'⟩
    · exact hf.ids y hy z hz hid
    · exact absurd hid (hnew' y hy)
    · exact absurd hid.symm (hnew z hz)
    · rfl
  linked y hy := by
    rcases mem_index_insert.mp hy with hy | ⟨rfl, -⟩
    · refine (hf.linked y hy).imp_right ?_
      rintro ⟨p, hp, hprev, hid, hthere⟩
      exact ⟨p, hpast p (.inl hp), hprev, hid, hthere.imp_left mem_insert⟩
    · rcases link_cases hlink with ⟨hnull, rfl⟩ | ⟨p, hp, hid, rfl⟩
      · exact .inl ⟨rfl, .inr hnull⟩
      · exact .inr ⟨p, hpast p (.inl (hf.seen p hp)), rfl, hid, .inl (mem_insert hp)⟩

omit [DecidableEq Id] in
theorem Items.trim (hf : Items P past gone start low f) (hgone : ∀ p, gone p → gone' p)
    (hbound : ∀ p : ForkItem B, p.num P < bound → gone' p) :
    Items P past gone' start bound (f.trim P bound) where
  seen y hy := hf.seen y (mem_trim.mp hy).1
  le y hy := (mem_trim.mp hy).2
  lt y hy := hf.lt y (mem_trim.mp hy).1
  ids y hy z hz hid := hf.ids y (mem_trim.mp hy).1 z (mem_trim.mp hz).1 hid
  linked y hy := by
    refine (hf.linked y (mem_trim.mp hy).1).imp_right ?_
    rintro ⟨p, hp, hprev, hid, hthere⟩
    refine ⟨p, hp, hprev, hid, ?_⟩
    rcases hthere with hp | hp
    · rcases Nat.lt_or_ge (p.num P) bound with hlt | hge
      · exact .inr (hbound p hlt)
      · exact .inl (mem_trim.mpr ⟨hp, hge⟩)
    · exact .inr (hgone p hp)

omit [DecidableEq Id] in
theorem Items.setHead (hf : Items P past gone start low f) (head : Option (ForkItem B)) :
    Items P past gone start low { f with head := head } :=
  ⟨hf.seen, hf.le, hf.lt, hf.ids, hf.linked⟩

omit [DecidableEq Id] in
theorem Items.mono (hf : Items P past gone start low f) (hpast : ∀ y, past y → past' y)
    (hgone : ∀ y, gone y → gone' y) : Items P past' gone' start low f where
  seen y hy := hpast y (hf.seen y hy)
  le := hf.le
  lt := hf.lt
  ids := hf.ids
  linked y hy := by
    refine (hf.linked y hy).imp_right ?_
    rintro ⟨p, hp, hprev, hid, hthere⟩
    exact ⟨p, hpast p hp, hprev, hid, hthere.imp_right (hgone p)⟩

theorem Top.below (ht : Top P f h) (hle : P.numFromId (P.id b) ≤ h.num P)
    (hlt : h.ptr < f.nextPtr) : Top P (f.insert P ⟨f.nextPtr, prev, false, b⟩) h where
  head := ht.head
  mem := mem_insert ht.mem
  largest y hy := by
    rcases mem_index_insert.mp hy with hy | ⟨rfl, -⟩
    · exact ht.largest y hy
    · exact hle
  first y hy hnum := by
    rcases mem_index_insert.mp hy with hy | ⟨rfl, -⟩
    · exact ht.first y hy hnum
    · exact Nat.le_of_lt hlt

theorem Top.raise (ht : Top P f h) (hlt : h.num P < x.num P) :
    Top P { f.insert P x with head := some x } x where
  head := rfl
  mem := by
    refine mem_index_insert.mpr (.inr ⟨rfl, fun z hz hid => ?_⟩)
    have hnum : z.num P = x.num P := congrArg P.numFromId hid
    have := ht.largest z hz
    omega
  largest y hy := by
    rcases mem_index_insert.mp hy with hy | ⟨rfl, -⟩
    · have := ht.largest y hy
      omega
    · exact Nat.le_refl _
  first y hy hnum := by
    rcases mem_index_insert.mp hy with hy | ⟨rfl, -⟩
    · have := ht.largest y hy
      omega
    · exact Nat.le_refl _

omit [DecidableEq Id] in
theorem Top.trim (ht : Top P f h) (hbound : bound ≤ h.num P) : Top P (f.trim P bound) h where
  head := ht.head
  mem := mem_trim.mpr ⟨ht.mem, hbound⟩
  largest y hy := ht.largest y (mem_trim.mp hy).1
  first y hy := ht.first y (mem_trim.mp hy).1

theorem Top.pushBlockWith {size : ℕ} {f' : ForkDatabase B} (ht : Top P f h)
    (hf : Items P past gone start (h.num P - size) f)
    (hpush : f.pushBlockWith P size b = .ok (f', x))
    (hpast : ∀ y, past y ∨ y ∈ f'.index → past' y) (hgone : ∀ y, gone y → gone' y)
    (hbound : ∀ y : ForkItem B, y.num P < x.num P - size → gone' y) :
    Top P f' x ∧ Items P past' gone' start (x.num P - size) f' := by
  rcases pushBlockWith_cases hpush with
    ⟨hnone, -⟩ | ⟨h', prev, hhead, hlink, hage, hcases⟩
  · rw [ht.head] at hnone
    cases hnone
  obtain rfl : h = h' := Option.mem_unique ht.head hhead
  rcases hcases with ⟨hlt, hx, rfl⟩ | ⟨hle, rfl, rfl⟩
  · -- the new block is the head, and items below it are forgotten
    have hnum : x.num P = P.numFromId (P.id b) := by rw [hx, ForkItem.num]
    have hraise : (f.insert P x).raiseWith P size x =
        ({ f.insert P x with head := some x } : ForkDatabase B).trim P (x.num P - size) := by
      rw [ForkDatabase.trim, show x.num P - size = x.num P - min size (x.num P) by omega]
      rfl
    have htop := (ht.raise (x := x) (by omega)).trim (Nat.sub_le (x.num P) size)
    rw [hraise] at hpast ⊢
    refine ⟨htop, ?_⟩
    have hins : Items P past' gone start (h.num P - size) (f.insert P x) := by
      subst hx
      refine hf.insert hlink (Nat.le_of_lt hage) ?_
      rintro y (hy | hy)
      · exact hpast y (.inl hy)
      · rcases mem_index_insert.mp hy with hy | ⟨rfl, -⟩
        · exact hpast y (.inl (hf.seen y hy))
        · exact hpast _ (.inr htop.mem)
    exact (hins.setHead (some x)).trim hgone hbound
  · refine ⟨ht.below hle (hf.lt x ht.mem), ?_⟩
    exact (hf.insert hlink (Nat.le_of_lt hage) hpast).mono (fun _ hy => hy) hgone

end ForkDatabase

/-! ### Runs -/

/-- A fork database with its maximum size. -/
structure ForkTree (B : Type) extends ForkDatabase B where
  size : ℕ

/-- A call after `start_block`. -/
inductive TreeCall (B : Type) where
  | pushBlock (b : B)
  | setMaxSize (size : ℕ)

namespace ForkTree

variable (P : BlockIds B Id)

/-- Items with a number below this are forgotten. -/
def bound (t : ForkTree B) : ℕ := t.head.elim 0 fun h => h.num P - t.size

/-- `start_block` on an empty fork database. -/
def started (size : ℕ) (start : B) : ForkTree B := ⟨ForkDatabase.empty.startBlock P start, size⟩

/-- `set_max_size`. -/
def setMaxSize (t : ForkTree B) (size : ℕ) : ForkTree B :=
  match t.head with
  | none => { t with size := size }
  | some h => ⟨t.trim P (h.num P - size), size⟩

/-- A call; a block that is rejected leaves the fork database as it is. -/
def apply (t : ForkTree B) : TreeCall B → ForkTree B
  | .pushBlock b =>
    match t.pushBlockWith P t.size b with
    | .ok (f, _) => ⟨f, t.size⟩
    | .error _ => t
  | .setMaxSize size => t.setMaxSize P size

/-- The states that are reached. -/
def history (t : ForkTree B) : List (TreeCall B) → List (ForkTree B)
  | [] => [t]
  | c :: calls => t :: history (t.apply P c) calls

/-- **A well-formed tree**, after the states `past`. -/
structure WellFormed (start : B) (past : List (ForkTree B)) (t : ForkTree B) : Prop where
  /-- An item was linked to the item of the previous block. That item is in the index, unless its
  number has been below the bound. -/
  linked : ∀ x ∈ t.index, x.data ≠ start → P.previous x.data ≠ P.null →
    ∃ p, (∃ s ∈ past, p ∈ s.index) ∧ x.prev = some p.ptr ∧ P.id p.data = P.previous x.data ∧
      p.num P + 1 = x.num P ∧ (p ∈ t.index ∨ ∃ s ∈ past, p.num P < s.bound P)
  bounded : ∀ x ∈ t.index, t.bound P ≤ x.num P
  head : ∃ h ∈ t.index, t.head = some h ∧ ∀ x ∈ t.index, x.num P ≤ h.num P ∧
    (x.num P = h.num P → h.ptr ≤ x.ptr)

/-- What the calls keep. -/
def Grown (start : B) (past : List (ForkTree B)) (t : ForkTree B) : Prop :=
  ∃ h, ForkDatabase.Top P t.toForkDatabase h ∧
    ForkDatabase.Items P (fun x => ∃ s ∈ past, x ∈ s.index)
      (fun x => ∃ s ∈ past, x.num P < s.bound P) start (h.num P - t.size) t.toForkDatabase

variable {P} {start : B} {past : List (ForkTree B)} {t : ForkTree B}

omit [DecidableEq Id] in
theorem bound_eq {f : ForkDatabase B} {h : ForkItem B} (size : ℕ) (hh : f.head = some h) :
    bound P ⟨f, size⟩ = h.num P - size := by
  rw [bound, hh]
  rfl

omit [DecidableEq Id] in
theorem Grown.wellFormed (hg : Grown P start past t) : WellFormed P start past t := by
  obtain ⟨h, htop, hitems⟩ := hg
  refine ⟨?_, ?_, h, htop.mem, htop.head, fun x hx => ⟨htop.largest x hx, htop.first x hx⟩⟩
  · intro x hx hstart hnull
    rcases hitems.linked x hx with ⟨-, hdata | hdata⟩ | ⟨p, hp, hprev, hid, hthere⟩
    · exact absurd hdata hstart
    · exact absurd hdata hnull
    · refine ⟨p, hp, hprev, hid, ?_, hthere⟩
      rw [ForkItem.num, ForkItem.num, P.num_id x.data, hid]
  · intro x hx
    rw [bound_eq t.size htop.head]
    exact hitems.le x hx

theorem Grown.apply (hg : Grown P start past t) (c : TreeCall B) :
    Grown P start (past ++ [t.apply P c]) (t.apply P c) := by
  obtain ⟨h, htop, hitems⟩ := hg
  have hpast {u : ForkTree B} {Q : ForkTree B → Prop} (hQ : ∃ s ∈ past, Q s) :
      ∃ s ∈ past ++ [u], Q s := by
    obtain ⟨s, hs, hQ⟩ := hQ
    exact ⟨s, List.mem_append_left _ hs, hQ⟩
  have hnew {u : ForkTree B} {Q : ForkTree B → Prop} (hQ : Q u) : ∃ s ∈ past ++ [u], Q s :=
    ⟨u, List.mem_append_right _ (List.mem_singleton_self u), hQ⟩
  cases c with
  | pushBlock b =>
    rw [ForkTree.apply]
    rcases hpush : t.pushBlockWith P t.size b with e | ⟨f, x⟩
    · exact ⟨h, htop, hitems.mono (fun y => hpast) fun y => hpast⟩
    · have hbound := bound_eq (P := P) t.size (ForkDatabase.head_pushBlockWith hpush)
      obtain ⟨htop', hitems'⟩ := htop.pushBlockWith hitems hpush
        (fun y hy => hy.elim hpast fun hy => hnew (u := ⟨f, t.size⟩) hy) (fun y => hpast)
        fun y hy => hnew (u := ⟨f, t.size⟩) (by rwa [hbound])
      exact ⟨x, htop', hitems'⟩
  | setMaxSize size =>
    have happly : t.apply P (.setMaxSize size) = ⟨t.trim P (h.num P - size), size⟩ := by
      rw [ForkTree.apply, setMaxSize, htop.head]
    have htop' := htop.trim (Nat.sub_le (h.num P) size)
    have hbound := bound_eq (P := P) size htop'.head
    rw [happly]
    refine ⟨h, htop', ?_⟩
    refine (hitems.mono (fun y => hpast) fun y hy => hy).trim (fun y => hpast) fun y hy => ?_
    exact hnew (by rwa [hbound])

theorem grown_history (calls : List (TreeCall B)) (hg : Grown P start (past ++ [t]) t) :
    Grown P start (past ++ history P t calls) (calls.foldl (ForkTree.apply P) t) := by
  induction calls generalizing past t with
  | nil => exact hg
  | cons c calls ih =>
    have := ih (hg.apply c)
    rwa [List.append_assoc] at this

theorem grown_started (size : ℕ) (start : B) :
    Grown P start ([] ++ [started P size start]) (started P size start) := by
  have hindex : (started P size start).index = [⟨0, none, false, start⟩] := rfl
  refine ⟨⟨0, none, false, start⟩, ⟨rfl, ?_, ?_, ?_⟩, ⟨?_, ?_, ?_, ?_, ?_⟩⟩
  all_goals simp only [hindex, List.mem_singleton, forall_eq, List.nil_append, exists_eq_left]
  all_goals simp [started, ForkDatabase.startBlock, ForkDatabase.empty, ForkDatabase.insert]

variable (P) in
/-- **The fork tree stays well formed** after `start_block` and any calls. -/
theorem fork_tree_wellFormed (size : ℕ) (start : B) (calls : List (TreeCall B)) :
    WellFormed P start (history P (started P size start) calls)
      (calls.foldl (apply P) (started P size start)) :=
  (grown_history calls (grown_started size start)).wellFormed

/-- **A predecessor within the bound may be missing.** The maximum size becomes smaller and larger
again after four blocks; the predecessor of the third is not in the index, and no bound holds. -/
theorem predecessor_forgotten :
    let t := [.pushBlock (2, [1]), .pushBlock (3, [2, 1]), .pushBlock (4, [3, 2, 1]),
      .setMaxSize 1, .setMaxSize 1500].foldl (apply pathIds) (started pathIds 1500 (1, []))
    t.bound pathIds = 0 ∧ ∃ x ∈ t.index, x.data = (3, [2, 1]) ∧
      ∀ y ∈ t.index, pathIds.id y.data ≠ pathIds.previous x.data := by
  decide +kernel

end ForkTree

end Whitecoin.Chain
