import Whitecoin.Chain.ForkDatabase

/-!
# The block store

`block_database` is two files: the blocks, which are only ever appended, and an index with one entry
for each block number. Storing a block writes the entry of its number, whatever was there; removing
one sets the size of the entry to zero if it is this block's. Since the blocks themselves are never
overwritten, the model keeps the block with its entry; an entry of size zero has none.
-/

namespace Whitecoin.Chain

/-- `index_entry`: the id of the block, and the block unless the size is zero. -/
structure IndexEntry (B Id : Type) where
  blockId : Id
  block : Option B

/-- `block_database`: the entries and how many of them the index file has. -/
structure BlockDatabase (B Id : Type) where
  entries : ℕ → IndexEntry B Id
  length : ℕ

namespace BlockDatabase

variable {B Id : Type} [DecidableEq Id] (P : BlockIds B Id)

/-- `store`. Writing beyond the end of the file extends it. -/
def store (s : BlockDatabase B Id) (id : Id) (b : B) : BlockDatabase B Id where
  entries := Function.update s.entries (P.numFromId id) ⟨id, some b⟩
  length := max s.length (P.numFromId id + 1)

/-- `remove`. -/
def remove (s : BlockDatabase B Id) (id : Id) : Except String (BlockDatabase B Id) :=
  if s.length ≤ P.numFromId id then .error "Block not contained in block database"
  else if (s.entries (P.numFromId id)).blockId = id then
    .ok { s with entries := Function.update s.entries (P.numFromId id) ⟨id, none⟩ }
  else .ok s

/-- `fetch_optional`. -/
def fetchOptional (s : BlockDatabase B Id) (id : Id) : Option B :=
  if s.length ≤ P.numFromId id then none
  else if (s.entries (P.numFromId id)).blockId = id then (s.entries (P.numFromId id)).block
  else none

/-- The block is in the store. -/
def Holds (s : BlockDatabase B Id) (b : B) : Prop :=
  s.entries (P.numFromId (P.id b)) = ⟨P.id b, some b⟩ ∧ P.numFromId (P.id b) < s.length

variable {P} {s : BlockDatabase B Id}

omit [DecidableEq Id] in
theorem entries_store_of_ne {n : ℕ} {id : Id} {b : B} (h : n ≠ P.numFromId id) :
    (s.store P id b).entries n = s.entries n :=
  Function.update_of_ne h ..

omit [DecidableEq Id] in
theorem holds_store (s : BlockDatabase B Id) (b : B) : (s.store P (P.id b) b).Holds P b := by
  refine ⟨by simp [store], ?_⟩
  show P.numFromId (P.id b) < max _ _
  omega

omit [DecidableEq Id] in
theorem Holds.store {b c : B} (h : s.Holds P b)
    (hne : P.numFromId (P.id b) ≠ P.numFromId (P.id c)) : (s.store P (P.id c) c).Holds P b := by
  refine ⟨?_, ?_⟩
  · show Function.update _ _ _ _ = _
    rw [Function.update_of_ne hne, h.1]
  · show P.numFromId (P.id b) < max _ _
    have := h.2
    omega

theorem Holds.fetchOptional {b : B} (h : s.Holds P b) : s.fetchOptional P (P.id b) = some b := by
  rw [BlockDatabase.fetchOptional, if_neg (by have := h.2; omega), h.1, if_pos rfl]

theorem Holds.remove {b : B} (h : s.Holds P b) :
    s.remove P (P.id b) =
      .ok { s with
        entries := Function.update s.entries (P.numFromId (P.id b)) ⟨P.id b, none⟩ } := by
  rw [BlockDatabase.remove, if_neg (by have := h.2; omega), h.1, if_pos rfl]

end BlockDatabase

end Whitecoin.Chain
