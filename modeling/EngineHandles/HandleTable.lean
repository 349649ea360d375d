/-
# Handle tables

A table lends out 64-bit handles for values that it owns.  A handle packs the index
of an entry, in the upper half, with the generation of the entry, in the lower
half.  Removing a value raises the generation, so the old handle no longer resolves
even after the entry is used again; the entry vacated last is used again first.  An
entry whose generation would wrap is retired.  Generations start at `1`, so `0` is
never a handle.
-/

namespace EngineHandles

/-- A place for a value, and the generation under which it is lent out. -/
structure HandleEntry (α : Type) where
  generation : UInt32
  value : Option α
deriving DecidableEq, Repr

/-- Values lent out under handles; `vacant` lists the free entries, the one vacated
last first. -/
structure HandleTable (α : Type) where
  entries : Array (HandleEntry α) := #[]
  vacant : List UInt32 := []
deriving DecidableEq, Repr

namespace HandleTable

variable {α : Type}

/-- The generation of an entry that was never vacated. -/
def firstGeneration : UInt32 := 1

/-- The handle of an entry at a generation. -/
def pack (index generation : UInt32) : UInt64 := index.toUInt64 <<< 32 ||| generation.toUInt64

/-- The index of the entry that a handle names. -/
def indexOf (handle : UInt64) : UInt32 := (handle >>> 32).toUInt32

/-- The generation that a handle names. -/
def generationOf (handle : UInt64) : UInt32 := handle.toUInt32

/-- The entry at an index. -/
def entry? (t : HandleTable α) (index : UInt32) : Option (HandleEntry α) := t.entries[index.toNat]?

/-- The entry that a handle names, if its generation is current. -/
def resolve? (t : HandleTable α) (handle : UInt64) : Option (HandleEntry α) :=
  (t.entry? (indexOf handle)).filter fun e => e.generation == generationOf handle

/-- Changes the entry at an index. -/
def update (t : HandleTable α) (index : UInt32) (f : HandleEntry α → HandleEntry α) :
    HandleTable α :=
  { t with entries := t.entries.modify index.toNat f }

/-- Takes a value and lends out a handle for it. -/
def insert (t : HandleTable α) (v : α) : UInt64 × HandleTable α :=
  match t.vacant with
  | i :: rest =>
    let generation := ((t.entry? i).map HandleEntry.generation).getD firstGeneration
    (pack i generation, { t.update i fun e => { e with value := some v } with vacant := rest })
  | [] =>
    (pack (.ofNat t.entries.size) firstGeneration,
      { t with entries := t.entries.push ⟨firstGeneration, some v⟩ })

/-- The value behind a handle. -/
def get? (t : HandleTable α) (handle : UInt64) : Option α :=
  (t.resolve? handle).bind HandleEntry.value

/-- Gives back the value behind a handle, which no longer resolves. -/
def remove (t : HandleTable α) (handle : UInt64) : Option α × HandleTable α :=
  match t.get? handle with
  | none => (none, t)
  | some v =>
    let i := indexOf handle
    let g := generationOf handle + 1
    let t' := t.update i fun _ => ⟨g, none⟩
    (some v, if g = 0 then t' else { t' with vacant := i :: t'.vacant })

/-- The number of retired entries. -/
def retired (t : HandleTable α) : Nat :=
  t.entries.countP fun e => e.generation == 0 && e.value.isNone

/-- The number of values lent out. -/
def size (t : HandleTable α) : Nat := t.entries.size - t.vacant.length - t.retired

end HandleTable
end EngineHandles
