import Mathlib.Data.List.Nodup
import Whitecoin.Chain.ForkTree
import Whitecoin.Lib.Check

/-!
# The fork tree in a file

`save_to_file` writes the items of the index in any order, each with the id of its previous block,
and the id of the head. `from_file` builds the items again. It first puts them into a map whose key
is the id of the previous block, then sets the pointers among the items in the map, and then puts
these into the index.

A map keeps one item for each key, so of several blocks after the same block only one is restored.
The pointers are set wherever the previous block is there. That is also done for the block that was
pushed first, which had no pointer.
-/

namespace Whitecoin.Chain

open Check

/-- `serializable_fork_item`. -/
structure SavedItem (B Id : Type) where
  prev : Id
  num : ℕ
  invalid : Bool
  id : Id
  data : B

/-- `fork_data`. -/
structure ForkData (B Id : Type) where
  items : List (SavedItem B Id)
  head : Id

namespace ForkDatabase

variable {B Id : Type} [DecidableEq Id] (P : BlockIds B Id)

/-! ### The calls -/

def savedItem (x : ForkItem B) : SavedItem B Id :=
  ⟨P.previous x.data, x.num P, x.invalid, P.id x.data, x.data⟩

/-- `save_to_file`; `dump` are the items of the index in the order of the hash table, and `file` is
what the file has before. -/
def saveToFile (f : ForkDatabase B) (dump : List (ForkItem B)) (file : Option (ForkData B Id)) :
    Option (ForkData B Id) :=
  match f.head with
  | none => file
  | some h => if dump.isEmpty then file else some ⟨dump.map (savedItem P), P.id h.data⟩

/-- The first loop of `from_file`: an item is put into `items_read` unless the key is there, and it
is the head if it has the head's id. -/
def readItem (head : Id) (f : ForkDatabase B) (it : SavedItem B Id) : ForkDatabase B :=
  let x : ForkItem B := ⟨f.nextPtr, none, it.invalid, it.data⟩
  { f with
    itemsRead :=
      if f.itemsRead.any fun y => P.previous y.data = it.prev then f.itemsRead
      else f.itemsRead ++ [x]
    head := if it.id = head then some x else f.head
    nextPtr := f.nextPtr + 1 }

/-- The pointer of an item is set to the item that has the id of its previous block. -/
def relink (items : List (ForkItem B)) (x : ForkItem B) : ForkItem B :=
  { x with
    prev := items.foldl (fun q y => if P.previous x.data = P.id y.data then some y.ptr else q)
      x.prev }

/-- The second loop. The head is one of the items, if it has been put into the map. -/
def linkItems (f : ForkDatabase B) : ForkDatabase B :=
  { f with
    itemsRead := f.itemsRead.map (relink P f.itemsRead)
    head := f.head.map fun h =>
      if f.itemsRead.any fun y => y.ptr = h.ptr then relink P f.itemsRead h else h }

/-- Set the pointer of an item, wherever it is. -/
def setPrev (f : ForkDatabase B) (ptr prev : ℕ) : ForkDatabase B :=
  let set (x : ForkItem B) : ForkItem B := if x.ptr = ptr then { x with prev := some prev } else x
  { f with
    index := f.index.map set
    head := f.head.map set
    itemsRead := f.itemsRead.map set }

/-- The third loop: an item is put into the index. If there is one with the same id, its pointer is
set instead. -/
def indexItem (f : ForkDatabase B) (x : ForkItem B) : Except String (ForkDatabase B) :=
  match f.fetchBlock P (P.id x.data) with
  | none => .ok { f with index := x :: f.index }
  | some front =>
    match f.fetchBlock P (P.previous x.data) with
    | none => .error "back != idx.end()"
    | some back => .ok (f.setPrev front.ptr back.ptr)

/-- `from_file`. -/
def fromFile (f : ForkDatabase B) (file : Option (ForkData B Id)) :
    Except String (ForkDatabase B) :=
  match file with
  | none => .ok f
  | some data =>
    let f := linkItems P (data.items.foldl (readItem P data.head) f)
    f.itemsRead.foldlM (indexItem P) f

/-- Push a block; one that is rejected leaves the database as it is. -/
def push (f : ForkDatabase B) (b : B) : ForkDatabase B :=
  attempted f ((f.pushBlock P b).map Prod.fst)

/-- A fork database that was built by pushing blocks. -/
def pushed (blocks : List B) : ForkDatabase B := blocks.foldl (push P) empty

/-- The same items, with the same links, and the same head. -/
structure Same (f g : ForkDatabase B) : Prop where
  items : ∀ b invalid, (∃ x ∈ f.index, x.data = b ∧ x.invalid = invalid) ↔
    ∃ y ∈ g.index, y.data = b ∧ y.invalid = invalid
  links : ∀ x ∈ f.index, ∀ y ∈ g.index, x.data = y.data →
    (f.lock [] x.prev).map ForkItem.data = (g.lock [] y.prev).map ForkItem.data
  head : f.head.map ForkItem.data = g.head.map ForkItem.data

/-! ### Loading -/

/-- After the items `dump` have been read. -/
structure Read (head : Id) (dump : List (ForkItem B)) (f : ForkDatabase B) : Prop where
  index : f.index = []
  sub : ∀ z ∈ f.itemsRead, ∃ x ∈ dump, z.data = x.data ∧ z.invalid = x.invalid
  cover : ∀ x ∈ dump, ∃ z ∈ f.itemsRead, P.previous z.data = P.previous x.data
  keys : (f.itemsRead.map fun z => P.previous z.data).Nodup
  lt : ∀ z ∈ f.itemsRead, z.ptr < f.nextPtr
  ptrs : (f.itemsRead.map ForkItem.ptr).Nodup
  prev : ∀ z ∈ f.itemsRead, z.prev = none
  head : ∀ x ∈ dump, P.id x.data = head → ∃ z, f.head = some z ∧ P.id z.data = head

variable {P} {head : Id} {dump : List (ForkItem B)} {f g : ForkDatabase B} {x y z : ForkItem B}

theorem Read.readItem (h : Read P head dump f) (x : ForkItem B) :
    Read P head (dump ++ [x]) (readItem P head f (savedItem P x)) := by
  have hhead : ∀ y ∈ dump ++ [x], P.id y.data = head →
      ∃ z, (if P.id x.data = head then some (⟨f.nextPtr, none, x.invalid, x.data⟩ : ForkItem B)
        else f.head) = some z ∧ P.id z.data = head := by
    intro y hy hid
    by_cases hx : P.id x.data = head
    · exact ⟨_, if_pos hx, hx⟩
    · rw [if_neg hx]
      rcases List.mem_append.mp hy with hy | hy
      · exact h.head y hy hid
      · rw [List.mem_singleton.mp hy] at hid
        exact absurd hid hx
  by_cases hany : (f.itemsRead.any fun y => P.previous y.data = P.previous x.data) = true
  · have hread : (ForkDatabase.readItem P head f (savedItem P x)).itemsRead = f.itemsRead :=
      if_pos hany
    refine ⟨h.index, ?_, ?_, ?_, ?_, ?_, ?_, hhead⟩
    all_goals rw [hread]
    · intro z hz
      obtain ⟨y, hy, hdata⟩ := h.sub z hz
      exact ⟨y, List.mem_append_left _ hy, hdata⟩
    · intro y hy
      rcases List.mem_append.mp hy with hy | hy
      · exact h.cover y hy
      · obtain ⟨z, hz, hprev⟩ := List.any_eq_true.mp hany
        rw [List.mem_singleton.mp hy]
        exact ⟨z, hz, of_decide_eq_true hprev⟩
    · exact h.keys
    · exact fun z hz => Nat.lt_succ_of_lt (h.lt z hz)
    · exact h.ptrs
    · exact h.prev
  · have hread : (ForkDatabase.readItem P head f (savedItem P x)).itemsRead =
        f.itemsRead ++ [⟨f.nextPtr, none, x.invalid, x.data⟩] := if_neg hany
    have hnew : ∀ y ∈ f.itemsRead, P.previous y.data ≠ P.previous x.data := by
      simpa using hany
    refine ⟨h.index, ?_, ?_, ?_, ?_, ?_, ?_, hhead⟩
    all_goals rw [hread]
    · intro z hz
      rcases List.mem_append.mp hz with hz | hz
      · obtain ⟨y, hy, hdata⟩ := h.sub z hz
        exact ⟨y, List.mem_append_left _ hy, hdata⟩
      · rw [List.mem_singleton.mp hz]
        exact ⟨x, List.mem_append_right _ (List.mem_singleton_self x), rfl, rfl⟩
    · intro y hy
      rcases List.mem_append.mp hy with hy | hy
      · obtain ⟨z, hz, hprev⟩ := h.cover y hy
        exact ⟨z, List.mem_append_left _ hz, hprev⟩
      · rw [List.mem_singleton.mp hy]
        exact ⟨_, List.mem_append_right _ (List.mem_singleton_self _), rfl⟩
    · rw [List.map_append]
      exact List.nodup_append.mpr ⟨h.keys, List.nodup_singleton _, by simpa using hnew⟩
    · intro z hz
      rcases List.mem_append.mp hz with hz | hz
      · exact Nat.lt_succ_of_lt (h.lt z hz)
      · rw [List.mem_singleton.mp hz]
        exact Nat.lt_succ_self _
    · rw [List.map_append]
      refine List.nodup_append.mpr ⟨h.ptrs, List.nodup_singleton _, ?_⟩
      intro q hq r hr
      obtain ⟨y, hy, rfl⟩ := List.mem_map.mp hq
      rw [List.mem_singleton.mp hr]
      exact Nat.ne_of_lt (h.lt y hy)
    · intro z hz
      rcases List.mem_append.mp hz with hz | hz
      · exact h.prev z hz
      · rw [List.mem_singleton.mp hz]

theorem Read.foldl (h : Read P head dump f) (l : List (ForkItem B)) :
    Read P head (dump ++ l) ((l.map (savedItem P)).foldl (ForkDatabase.readItem P head) f) := by
  induction l generalizing dump f with
  | nil => simpa using h
  | cons x l ih =>
    have := ih (h.readItem x)
    rwa [List.append_assoc] at this

theorem foldl_link (x : ForkItem B) (items : List (ForkItem B)) (q : Option ℕ) :
    (∃ y ∈ items, P.previous x.data = P.id y.data ∧
        items.foldl (fun q y => if P.previous x.data = P.id y.data then some y.ptr else q) q =
          some y.ptr) ∨
      (∀ y ∈ items, P.previous x.data ≠ P.id y.data) ∧
        items.foldl (fun q y => if P.previous x.data = P.id y.data then some y.ptr else q) q =
          q := by
  induction items generalizing q with
  | nil => exact .inr ⟨by simp, rfl⟩
  | cons z items ih =>
    rw [List.foldl_cons]
    rcases ih (if P.previous x.data = P.id z.data then some z.ptr else q) with
      ⟨y, hy, hid, heq⟩ | ⟨hall, heq⟩
    · exact .inl ⟨y, List.mem_cons_of_mem _ hy, hid, heq⟩
    · by_cases hz : P.previous x.data = P.id z.data
      · exact .inl ⟨z, List.mem_cons_self .., hz, by rw [heq, if_pos hz]⟩
      · exact .inr ⟨List.forall_mem_cons.mpr ⟨hz, hall⟩, by rw [heq, if_neg hz]⟩

variable {id : Id} {h : ForkItem B} {first : B}

theorem fetchBlock_eq_none (h : ∀ x ∈ f.index, P.id x.data ≠ id) : f.fetchBlock P id = none := by
  rw [fetchBlock, List.find?_eq_none]
  intro x hx
  simpa using h x hx

theorem foldlM_indexItem {l : List (ForkItem B)}
    (hl : l.Pairwise fun x y => P.id x.data ≠ P.id y.data)
    (hf : ∀ x ∈ f.index, ∀ y ∈ l, P.id x.data ≠ P.id y.data) :
    l.foldlM (indexItem P) f = .ok { f with index := l.reverse ++ f.index } := by
  induction l generalizing f with
  | nil => rfl
  | cons x l ih =>
    obtain ⟨hx, hl⟩ := List.pairwise_cons.mp hl
    have hnone := fetchBlock_eq_none fun y hy => hf y hy x (List.mem_cons_self ..)
    rw [List.foldlM_cons, indexItem, hnone, ok_bind, ih hl]
    · simp
    · intro y hy z hz
      rcases List.mem_cons.mp hy with rfl | hy
      · exact hx z hz
      · exact hf y hy z (List.mem_cons_of_mem _ hz)

variable (P) in
/-- What `from_file` makes of the items `dump` with the head `h`. -/
structure Loaded (dump : List (ForkItem B)) (h : ForkItem B) (g : ForkDatabase B) : Prop where
  sub : ∀ z ∈ g.index, ∃ x ∈ dump, z.data = x.data ∧ z.invalid = x.invalid
  cover : ∀ x ∈ dump, ∃ z ∈ g.index, P.previous z.data = P.previous x.data
  keys : ∀ y ∈ g.index, ∀ z ∈ g.index, P.previous y.data = P.previous z.data → y = z
  /-- The pointers lead to the previous block wherever it is there. -/
  links : ∀ z ∈ g.index, (g.lock [] z.prev).map ForkItem.data =
    (g.fetchBlock P (P.previous z.data)).map ForkItem.data
  head : g.head.map ForkItem.data = some h.data

theorem map_fetchBlock (hx : x ∈ f.index) :
    (f.fetchBlock P (P.id x.data)).map ForkItem.data = some x.data := by
  obtain ⟨y, hy⟩ : ∃ y, f.fetchBlock P (P.id x.data) = some y := by
    rw [← Option.isSome_iff_exists, fetchBlock, List.find?_isSome]
    exact ⟨x, hx, by simp⟩
  rw [hy, Option.map_some, P.id_injective (fetchBlock_mem hy).2]

theorem exists_lock (held : List (ForkItem B)) (hx : x ∈ held ++ f.index ++ f.itemsRead) :
    ∃ y, f.lock held (some x.ptr) = some y := by
  rw [← Option.isSome_iff_exists, lock, Option.bind_some, List.find?_isSome]
  exact ⟨x, hx, by simp⟩

theorem lock_relink (hf : Read P head dump f) {w : ForkItem B} (hw : w ∈ f.itemsRead)
    (hindex : ∀ z, z ∈ g.index ↔ z ∈ f.itemsRead.map (relink P f.itemsRead))
    (hread : g.itemsRead = f.itemsRead.map (relink P f.itemsRead)) :
    (g.lock [] (relink P f.itemsRead w).prev).map ForkItem.data =
      (g.fetchBlock P (P.previous w.data)).map ForkItem.data := by
  rcases foldl_link (P := P) w f.itemsRead w.prev with ⟨r, hr, hid, hprev⟩ | ⟨hall, hprev⟩
  · have hmem : relink P f.itemsRead r ∈ g.index := (hindex _).mpr (List.mem_map_of_mem hr)
    have hmem' : relink P f.itemsRead r ∈ [] ++ g.index ++ g.itemsRead := by simp [hmem]
    obtain ⟨u, hu⟩ := exists_lock [] hmem'
    obtain ⟨humem, huptr⟩ := lock_mem hu
    have hu' : u ∈ f.itemsRead.map (relink P f.itemsRead) := by
      rw [List.nil_append, List.mem_append, hread] at humem
      exact humem.elim (hindex u).mp id
    obtain ⟨v, hv, rfl⟩ := List.mem_map.mp hu'
    obtain rfl : r = v := List.inj_on_of_nodup_map hf.ptrs hr hv (Option.some.inj huptr)
    have hlock : g.lock [] (relink P f.itemsRead w).prev = some (relink P f.itemsRead r) := by
      rw [relink, hprev]
      exact hu
    have hfetch := map_fetchBlock (P := P) hmem
    rw [hlock, hid]
    exact hfetch.symm
  · have hnone : (relink P f.itemsRead w).prev = none := by
      rw [relink, hprev, hf.prev w hw]
    have hfetch : g.fetchBlock P (P.previous w.data) = none := by
      refine fetchBlock_eq_none fun z hz => ?_
      obtain ⟨v, hv, rfl⟩ := List.mem_map.mp ((hindex z).mp hz)
      exact (hall v hv).symm
    rw [hnone, hfetch]
    rfl

theorem Read.loaded (hf : Read P (P.id h.data) dump f) (hh : h ∈ dump) :
    ∃ g, (linkItems P f).itemsRead.foldlM (indexItem P) (linkItems P f) = .ok g ∧
      Loaded P dump h g := by
  have hdistinct : (linkItems P f).itemsRead.Pairwise fun x y => P.id x.data ≠ P.id y.data := by
    have hkeys := List.pairwise_map.mp hf.keys
    exact List.pairwise_map.mpr (hkeys.imp fun hne hid =>
      hne (congrArg P.previous (P.id_injective hid)))
  have hindex : (linkItems P f).index = [] := hf.index
  have hload := foldlM_indexItem (f := linkItems P f) hdistinct (by rw [hindex]; simp)
  rw [hindex, List.append_nil] at hload
  refine ⟨_, hload, ?_, ?_, ?_, ?_, ?_⟩
  · intro z hz
    obtain ⟨w, hw, rfl⟩ := List.mem_map.mp (List.mem_reverse.mp hz)
    exact hf.sub w hw
  · intro x hx
    obtain ⟨w, hw, hprev⟩ := hf.cover x hx
    exact ⟨_, List.mem_reverse.mpr (List.mem_map_of_mem hw), hprev⟩
  · intro y hy z hz hprev
    obtain ⟨v, hv, rfl⟩ := List.mem_map.mp (List.mem_reverse.mp hy)
    obtain ⟨w, hw, rfl⟩ := List.mem_map.mp (List.mem_reverse.mp hz)
    rw [List.inj_on_of_nodup_map hf.keys hv hw hprev]
  · intro z hz
    obtain ⟨w, hw, rfl⟩ := List.mem_map.mp (List.mem_reverse.mp hz)
    exact lock_relink hf hw (fun _ => List.mem_reverse) rfl
  · obtain ⟨u, hu, hid⟩ := hf.head h hh rfl
    have hdata : u.data = h.data := P.id_injective hid
    rw [linkItems, hu, ← hdata]
    simp only [Option.map_some]
    split <;> rfl

/-- **What is loaded after saving.** -/
theorem fromFile_saveToFile (hdump : ∀ x, x ∈ dump ↔ x ∈ f.index) (hhead : f.head = some h)
    (hh : h ∈ f.index) :
    ∃ g, fromFile P empty (saveToFile P f dump none) = .ok g ∧ Loaded P dump h g := by
  have hmem : h ∈ dump := (hdump h).mpr hh
  have hsave : saveToFile P f dump none = some ⟨dump.map (savedItem P), P.id h.data⟩ := by
    rw [saveToFile, hhead]
    refine if_neg ?_
    rw [List.isEmpty_iff]
    exact List.ne_nil_of_mem hmem
  have hread : Read P (P.id h.data) [] (empty : ForkDatabase B) := by
    refine ⟨rfl, ?_, ?_, ?_, ?_, ?_, ?_, ?_⟩ <;> simp [empty]
  rw [hsave]
  exact (hread.foldl dump).loaded hmem

/-! ### Databases that were built by pushing blocks -/

theorem pushBlockWith_index {size : ℕ} {f' : ForkDatabase B} {b : B} (hhead : f.head = some h)
    (hpush : f.pushBlockWith P size b = .ok (f', x)) :
    h.num P - size < P.numFromId (P.id b) ∧ h.num P ≤ x.num P ∧ f'.itemsRead = f.itemsRead ∧
      (∀ y ∈ f'.index, y ∈ f.index ∨ y.data = b ∧ ∀ z ∈ f.index, P.id z.data ≠ P.id b) ∧
      ∀ y ∈ f.index, y ∈ f'.index ∨ y.num P < x.num P - size := by
  rcases pushBlockWith_cases hpush with ⟨hnone, -⟩ | ⟨h', prev, hhead', -, hage, hcases⟩
  · rw [hhead] at hnone
    cases hnone
  obtain rfl : h = h' := Option.mem_unique hhead hhead'
  rcases hcases with ⟨hlt, hx, rfl⟩ | ⟨-, rfl, rfl⟩
  · have hnum : x.num P = P.numFromId (P.id b) := by rw [hx, ForkItem.num]
    refine ⟨hage, by omega, rfl, ?_, ?_⟩
    · intro y hy
      rcases mem_index_insert.mp (List.mem_filter.mp hy).1 with hy | ⟨rfl, hnew⟩
      · exact .inl hy
      · rw [hx] at hnew ⊢
        exact .inr ⟨rfl, hnew⟩
    · intro y hy
      rcases Nat.lt_or_ge (y.num P) (x.num P - size) with hlow | hge
      · exact .inr hlow
      · refine .inl (List.mem_filter.mpr ⟨mem_insert hy, decide_eq_true ?_⟩)
        omega
  · refine ⟨hage, Nat.le_refl _, rfl, ?_, fun y hy => .inl (mem_insert hy)⟩
    intro y hy
    rcases mem_index_insert.mp hy with hy | ⟨rfl, hnew⟩
    · exact .inl hy
    · exact .inr ⟨rfl, hnew⟩

variable (P) in
/-- What holds of a fork database with the head `h` that was built by pushing blocks, the block
`first` before the others. -/
structure Pushed (first : B) (f : ForkDatabase B) (h : ForkItem B) : Prop where
  top : Top P f h
  items : Items P (fun _ => True) (fun y => y.num P < h.num P - maxSize) first
    (h.num P - maxSize) f
  sound : f.Sound P
  read : f.itemsRead = []
  first_prev : ∀ x ∈ f.index, x.data = first → x.prev = none
  first_there : (∃ x ∈ f.index, x.data = first) ∨
    P.numFromId (P.id first) < h.num P - maxSize

theorem Pushed.push (hp : Pushed P first f h) (b : B) : ∃ h', Pushed P first (f.push P b) h' := by
  rw [ForkDatabase.push]
  rcases hpush : f.pushBlock P b with e | ⟨f', x⟩
  · exact ⟨h, hp⟩
  rw [pushBlock_eq] at hpush
  obtain ⟨hage, hle, hread, hnew, hold⟩ := pushBlockWith_index hp.top.head hpush
  obtain ⟨htop, hitems⟩ : Top P f' x ∧ Items P (fun _ => True)
      (fun y => y.num P < x.num P - maxSize) first (x.num P - maxSize) f' :=
    hp.top.pushBlockWith hp.items hpush (fun _ _ => trivial) (fun y hy => by omega) fun y hy => hy
  refine ⟨x, htop, hitems, hp.sound.pushBlock hpush, hread.trans hp.read, ?_, ?_⟩
  · intro y hy hdata
    rcases hnew y hy with hy | ⟨rfl, hall⟩
    · exact hp.first_prev y hy hdata
    · -- the first block is still there, or too old to be pushed again
      rcases hp.first_there with ⟨z, hz, rfl⟩ | hlow
      · exact absurd (congrArg P.id hdata.symm) (hall z hz)
      · rw [hdata] at hage
        omega
  · rcases hp.first_there with ⟨z, hz, rfl⟩ | hlow
    · refine (hold z hz).imp (fun hz => ⟨z, hz, rfl⟩) fun hlow => hlow
    · exact .inr (by omega)

theorem pushed_push_empty (b : B) :
    Pushed P b ((empty : ForkDatabase B).push P b) ⟨0, none, false, b⟩ := by
  have hpush : (empty : ForkDatabase B).push P b =
      ⟨[⟨0, none, false, b⟩], some ⟨0, none, false, b⟩, [], 1⟩ := rfl
  rw [hpush]
  refine ⟨⟨rfl, ?_, ?_, ?_⟩, ⟨?_, ?_, ?_, ?_, ?_⟩, ⟨?_, ?_, ?_, ?_⟩, rfl, ?_, ?_⟩
  all_goals simp [LinksOk, strong]

theorem exists_pushed (first : B) (blocks : List B) :
    ∃ h, Pushed P first (pushed P (first :: blocks)) h := by
  have hrun : ∀ (f : ForkDatabase B) (h : ForkItem B), Pushed P first f h →
      ∃ h', Pushed P first (blocks.foldl (ForkDatabase.push P) f) h' := by
    induction blocks with
    | nil => exact fun f h hp => ⟨h, hp⟩
    | cons b blocks ih =>
      intro f h hp
      obtain ⟨h', hp'⟩ := hp.push b
      exact ih _ h' hp'
  exact hrun _ _ (pushed_push_empty first)

theorem Pushed.map_lock (hp : Pushed P first f h) (hx : x ∈ f.index) (hprev : x.prev ≠ none) :
    (f.lock [] x.prev).map ForkItem.data =
      (f.fetchBlock P (P.previous x.data)).map ForkItem.data := by
  have hmem {u : ForkItem B} (hu : u ∈ [] ++ f.index ++ f.itemsRead) : u ∈ f.index := by
    simpa [hp.read] using hu
  rcases hp.items.linked x hx with ⟨hnone, -⟩ | ⟨p, -, hptr, hid, hthere⟩
  · exact absurd hnone hprev
  rcases hthere with hpi | hgone
  · obtain ⟨u, hu⟩ := exists_lock (f := f) [] (x := p) (by simp [hpi])
    obtain ⟨humem, huptr⟩ := lock_mem hu
    obtain rfl : p = u := hp.sound.ptr_inj p (mem_strong_of_index hpi) u
      (mem_strong_of_index (hmem humem)) (Option.some.inj huptr)
    rw [hptr, hu, ← hid, map_fetchBlock hpi]
    rfl
  · -- the previous block is below the bound, and no item of the index is
    have hnone : ∀ y ∈ f.index, P.id y.data ≠ P.previous x.data := by
      intro y hy hyid
      have hnum : y.num P = p.num P := congrArg P.numFromId (hyid.trans hid.symm)
      have hlow := hp.items.le y hy
      omega
    have hlock : f.lock [] x.prev = none := by
      rw [← Option.not_isSome_iff_eq_none, Option.isSome_iff_exists]
      rintro ⟨u, hu⟩
      obtain ⟨humem, huptr⟩ := lock_mem hu
      have hui := hmem humem
      exact hnone u hui
        (hp.sound.links x (mem_strong_of_index hx) u (mem_strong_of_index hui) huptr)
    rw [hlock, fetchBlock_eq_none hnone]

theorem map_fetchBlock_congr (h : ∀ b, (∃ x ∈ f.index, x.data = b) ↔ ∃ y ∈ g.index, y.data = b) :
    (f.fetchBlock P id).map ForkItem.data = (g.fetchBlock P id).map ForkItem.data := by
  rcases hf : f.fetchBlock P id with _ | x
  · have hnone : g.fetchBlock P id = none := by
      refine fetchBlock_eq_none fun y hy hid => ?_
      obtain ⟨x, hx, hdata⟩ := (h y.data).mpr ⟨y, hy, rfl⟩
      have := List.find?_eq_none.mp hf x hx
      simp [hdata, hid] at this
    rw [hnone]
  · obtain ⟨hx, rfl⟩ := fetchBlock_mem hf
    obtain ⟨y, hy, hdata⟩ := (h x.data).mp ⟨x, hx, rfl⟩
    rw [← hdata, map_fetchBlock hy, hdata]
    rfl

/-- What is lost: other blocks after the same block, and that the first block had no pointer. -/
theorem Loaded.same_iff (hg : Loaded P dump h g) (hp : Pushed P first f h)
    (hdump : ∀ x, x ∈ dump ↔ x ∈ f.index) :
    Same f g ↔ (∀ x ∈ f.index, ∀ y ∈ f.index, P.previous x.data = P.previous y.data → x = y) ∧
      ∀ x ∈ f.index, x.data = first → ∀ y ∈ f.index, P.id y.data ≠ P.previous x.data := by
  constructor
  · intro hs
    have hthere {x : ForkItem B} (hx : x ∈ f.index) : ∃ z ∈ g.index, z.data = x.data := by
      obtain ⟨z, hz, hdata, -⟩ := (hs.items x.data x.invalid).mp ⟨x, hx, rfl, rfl⟩
      exact ⟨z, hz, hdata⟩
    refine ⟨fun x hx y hy hprev => ?_, fun x hx hfirst y hy hid => ?_⟩
    · obtain ⟨u, hu, hux⟩ := hthere hx
      obtain ⟨v, hv, hvy⟩ := hthere hy
      obtain rfl := hg.keys u hu v hv (by rw [hux, hvy, hprev])
      exact hp.items.ids x hx y hy (by rw [← hux, hvy])
    · obtain ⟨u, hu, hux⟩ := hthere hx
      obtain ⟨v, hv, hvy⟩ := hthere hy
      have hlinks := hs.links x hx u hu hux.symm
      rw [hp.first_prev x hx hfirst, hg.links u hu, hux, ← hid, ← hvy, map_fetchBlock hv] at hlinks
      cases hlinks
  · rintro ⟨hsib, hfirst⟩
    have hback {z : ForkItem B} (hz : z ∈ g.index) :
        ∃ x ∈ f.index, x.data = z.data ∧ x.invalid = z.invalid := by
      obtain ⟨x, hx, hdata, hinv⟩ := hg.sub z hz
      exact ⟨x, (hdump x).mp hx, hdata.symm, hinv.symm⟩
    have hthere {x : ForkItem B} (hx : x ∈ f.index) :
        ∃ z ∈ g.index, z.data = x.data ∧ z.invalid = x.invalid := by
      obtain ⟨z, hz, hprev⟩ := hg.cover x ((hdump x).mpr hx)
      obtain ⟨y, hy, hdata, hinv⟩ := hback hz
      obtain rfl := hsib y hy x hx (by rw [hdata, hprev])
      exact ⟨z, hz, hdata.symm, hinv.symm⟩
    refine ⟨fun b invalid => ⟨?_, ?_⟩, fun x hx z hz hdata => ?_, ?_⟩
    · rintro ⟨x, hx, rfl, rfl⟩
      exact hthere hx
    · rintro ⟨z, hz, rfl, rfl⟩
      exact hback hz
    · rw [hg.links z hz, ← hdata]
      by_cases hprev : x.prev = none
      · have hnone : g.fetchBlock P (P.previous x.data) = none := by
          refine fetchBlock_eq_none fun u hu hid => ?_
          obtain ⟨y, hy, hyu, -⟩ := hback hu
          rw [← hyu] at hid
          rcases hp.items.linked x hx with ⟨-, hx' | hnull⟩ | ⟨p, -, hptr, -⟩
          · exact hfirst x hx hx' y hy hid
          · exact P.id_ne_null y.data (hid.trans hnull)
          · rw [hprev] at hptr
            cases hptr
        rw [hprev, hnone]
        rfl
      · rw [hp.map_lock hx hprev]
        refine map_fetchBlock_congr fun b => ⟨?_, ?_⟩
        · rintro ⟨y, hy, rfl⟩
          obtain ⟨u, hu, hyu, -⟩ := hthere hy
          exact ⟨u, hu, hyu⟩
        · rintro ⟨u, hu, rfl⟩
          obtain ⟨y, hy, hyu, -⟩ := hback hu
          exact ⟨y, hy, hyu⟩
    · rw [hg.head, hp.top.head]
      rfl

variable (P) in
/-- **When the fork tree survives a restart.** `from_file` returns, and what it loads is the same
exactly when no two items have the same previous block, and the block that was pushed first has not
got its previous block afterwards. -/
theorem fork_file_restores_iff (blocks : List B) (dump : List (ForkItem B))
    (hdump : dump.Perm (pushed P blocks).index) :
    ∃ g, fromFile P empty (saveToFile P (pushed P blocks) dump none) = .ok g ∧
      (Same (pushed P blocks) g ↔
        (∀ x ∈ (pushed P blocks).index, ∀ y ∈ (pushed P blocks).index,
          P.previous x.data = P.previous y.data → x = y) ∧
        ∀ first ∈ blocks.head?, ∀ x ∈ (pushed P blocks).index, x.data = first →
          ∀ y ∈ (pushed P blocks).index, P.id y.data ≠ P.previous x.data) := by
  cases blocks with
  | nil =>
    refine ⟨empty, rfl, ?_⟩
    have hnil : (pushed P ([] : List B)).index = [] := rfl
    simp only [hnil, List.not_mem_nil, false_implies, implies_true, and_self, iff_true]
    exact ⟨fun _ _ => Iff.rfl, by simp [hnil], rfl⟩
  | cons first blocks =>
    obtain ⟨h, hp⟩ := exists_pushed (P := P) first blocks
    have hmem : ∀ x, x ∈ dump ↔ x ∈ (pushed P (first :: blocks)).index := fun x => hdump.mem_iff
    obtain ⟨g, hload, hg⟩ := fromFile_saveToFile (P := P) hmem hp.top.head hp.top.mem
    refine ⟨g, hload, (hg.same_iff hp hmem).trans ?_⟩
    simp

theorem fork_file_restores_chain : ∃ g,
    fromFile pathIds empty (saveToFile pathIds (pushed pathIds [(1, []), (2, [1]), (3, [2, 1])])
      (pushed pathIds [(1, []), (2, [1]), (3, [2, 1])]).index none) = .ok g ∧
      Same (pushed pathIds [(1, []), (2, [1]), (3, [2, 1])]) g := by
  obtain ⟨g, hload, hiff⟩ :=
    fork_file_restores_iff pathIds [(1, []), (2, [1]), (3, [2, 1])] _ (.refl _)
  exact ⟨g, hload, hiff.mpr (by decide +kernel)⟩

/-- **Competing blocks are lost.** Two blocks are pushed after the same block; one of them is
restored. -/
theorem sibling_lost :
    let f := pushed pathIds [(1, []), (2, [1]), (3, [1])]
    f.index.length = 3 ∧
      (fromFile pathIds empty (saveToFile pathIds f f.index none)).map (fun g => g.index.length) =
        .ok 2 := by
  decide +kernel

end ForkDatabase

end Whitecoin.Chain
