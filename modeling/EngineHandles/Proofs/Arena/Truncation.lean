/-
# Cutting back to a position

An address denotes a position of an arena that is in use if it is the address of the slot
there, the end of a slab that has another one behind it, the end of the arena now, or the
end that the arena had when it held so many slots, whatever was added, cut away and edited
since (`Arena.Denotes`).  All these addresses are read alike, as they are all the end of
so many slots or the slot behind it (`ArenaConfig.IsValid.cut?_slotAt`, `cut?_nextFree`).

So cutting back to an address keeps the slots below the position that it denotes, and lets
go what the others hold, the last one first (`Slot.lettingGo`).  How many slabs there are
afterwards, where they end and how much room they have is a matter of the position alone
(`Stores.extent_eq`).  Taking everything away, also with the arena itself, is cutting back
to position zero (`run_delete_truncates`).
-/

import EngineHandles.Proofs.Arena.Refinement
import EngineHandles.Proofs.Arena.Holdings
import EngineHandles.Isolate.Basic

namespace EngineHandles

namespace Slot

/-- The release of the reference that a slot holds. -/
def letGo? (x : Slot) : Option TallyOp := x.object.map fun o => .release o x.kind

/-- The releases of the references that slots hold, the last slot first. -/
def lettingGo (xs : List Slot) : List TallyOp := xs.reverse.filterMap letGo?

theorem lettingGo_cons (x : Slot) (xs : List Slot) :
    lettingGo (x :: xs) = lettingGo xs ++ x.letGo?.toList := by
  rw [lettingGo, List.reverse_cons, List.filterMap_append, ← lettingGo]
  cases hx : x.letGo? with
  | none => rw [List.filterMap_cons_none hx]; rfl
  | some op => rw [List.filterMap_cons_some hx]; rfl

theorem release_eq_settle (x : Slot) (h : Heap) : (x.release h).2.2 = h.settle x.letGo?.toList := by
  obtain ⟨object, kind⟩ := x
  cases object with
  | none => rfl
  | some o => exact (Heap.settle_release o kind h).symm

/-- **Releasing slots** is running their releases, each with what it sets off. -/
theorem releaseFromEnd_eq_settle (xs : List Slot) (h : Heap) :
    releaseFromEnd xs h = h.settle (lettingGo xs) := by
  induction xs with
  | nil => rfl
  | cons x xs ih =>
    rw [releaseFromEnd, List.foldr_cons, ← releaseFromEnd, ih, lettingGo_cons,
      Heap.settle_append, release_eq_settle]

end Slot

/-- How far an arena reaches: its slabs, where it will write next, and the number of slots
for which its slabs have room. -/
structure Extent where
  slabs : Nat
  frontier : Frontier
  reserved : Nat
deriving DecidableEq

namespace ArenaConfig

/-- How far an arena of `n` slots reaches. -/
def extentAt (c : ArenaConfig) (n : Nat) : Extent :=
  let slabs := (n + (c.slabSize.toNat - 1)) / c.slabSize.toNat
  ⟨slabs, c.frontierAt n, slabs * c.slabSize.toNat⟩

variable {c : ArenaConfig}

/-- Cutting back to the address of a slot leaves the slots below it. -/
theorem IsValid.cut?_slotAt (h : c.IsValid) {n k : Nat} (hk : k < n) (hn : n ≤ c.capacity) :
    c.cut? n (c.slotAt k) = some k := by
  have hcap : k < c.capacity := Nat.lt_of_lt_of_le hk hn
  have hne : c.slotAt k ≠ (c.frontierAt n).nextFree := fun he => by
    have hle : (c.frontierAt n).nextFree ≤ c.slotAt k := by
      rw [he, SlotAddr.le_iff]
    rw [h.nextFree_le_slotAt hn hcap] at hle
    omega
  -- inside a slab there is one address for a position
  have hoff : (c.slotAt k).offset ≠ c.slabSize := fun he => by
    have hr := h.mod_width_lt k
    rw [← (h.toNat_slotAt hcap.le).2, he] at hr
    exact Nat.lt_irrefl _ hr
  rw [cut?, if_neg hne, normalize, if_neg hoff, h.position?_slotAt hcap.le, Option.filter_some,
    if_pos (by simpa using hk)]

/-- The end of a slab is the end of so many slots as there are up to there. -/
theorem IsValid.nextFree_mul_width (h : c.IsValid) (s : Nat) :
    (c.frontierAt ((s + 1) * c.width)).nextFree = .ofParts (.ofNat s) c.slabSize := by
  have hw := h.width_pos
  have hpos : (s + 1) * c.width ≠ 0 := Nat.mul_ne_zero (Nat.succ_ne_zero s) (by omega)
  rw [h.nextFree_of_mod_eq_zero hpos (Nat.mul_mod_left _ _), Nat.mul_div_cancel _ hw,
    Nat.add_sub_cancel, SlotAddr.ofCounts, width, UInt32.ofNat_toNat]

/-- **An end further on** than that of the arena is refused. -/
theorem IsValid.cut?_nextFree_of_lt (h : c.IsValid) {n p : Nat} (hp : n < p)
    (hcap : p ≤ c.capacity) : c.cut? n (c.frontierAt p).nextFree = none := by
  have hne : (c.frontierAt p).nextFree ≠ (c.frontierAt n).nextFree := fun he => by
    have := h.nextFree_inj hcap (by omega) he
    omega
  rw [cut?, if_neg hne, h.normalize_nextFree hcap, h.position?_slotAt hcap, Option.filter_some,
    if_neg (by simp; omega)]

end ArenaConfig

namespace Arena

variable {σ : Type} {c : ArenaConfig} {xs : List Slot} {a : Arena}

/-- How far the arena reaches. -/
def extent (a : Arena) : Extent := ⟨a.slabs.size, a.frontier, a.reserved⟩

namespace Stores

theorem reserved_eq (h : a.Stores c xs) : a.reserved = a.slabs.size * c.slabSize.toNat := by
  have hcap : ∀ slab ∈ a.slabs.toList, slab.capacity = c.slabSize := by
    intro slab hmem
    obtain ⟨s, hs⟩ := List.getElem?_of_mem hmem
    rw [Array.getElem?_toList, h.slab?] at hs
    split at hs
    · cases hs
      rfl
    · cases hs
  rw [reserved, ← Array.foldl_toList, ← Array.length_toList]
  generalize a.slabs.toList = slabs at hcap
  rw [← Nat.zero_add (slabs.length * c.slabSize.toNat)]
  generalize 0 = n
  induction slabs generalizing n with
  | nil => simp
  | cons slab slabs ih =>
    rw [List.foldl_cons, ih (fun s hs => hcap s (List.mem_cons_of_mem _ hs)),
      hcap slab List.mem_cons_self, List.length_cons, Nat.succ_mul]
    omega

/-- **How far an arena reaches** is a function of the number of its slots. -/
theorem extent_eq (h : a.Stores c xs) : a.extent = c.extentAt xs.length := by
  rw [extent, h.reserved_eq, h.slabs_size_eq, h.frontier_eq, ArenaConfig.extentAt]
  rfl

/-- The slot at a position, with its address. -/
theorem getElem?_entries (h : a.Stores c xs) (k : Nat) :
    a.entries[k]? = xs[k]?.map fun x => (c.slotAt k, x) := by
  rw [h.entries_eq, List.getElem?_map, List.getElem?_zipIdx, Option.map_map, Nat.zero_add]
  rfl

/-- **Cutting back to an address** that stands for position `p`. -/
theorem delete_eq (h : a.Stores c xs) {addr : SlotAddr} {p : Nat} (hp : p ≤ xs.length)
    (hcut : c.cut? xs.length addr = some p) (heap : Heap) :
    ∃ a', a.delete addr heap
        = (.ok (a.size - p), a',
            heap.settle (Slot.lettingGo ((a.entries.drop p).map Prod.snd))) ∧
      a'.entries = a.entries.take p ∧ a'.extent = c.extentAt p ∧
      a'.ReadsAs c ((a.entries.take p).map Prod.snd) := by
  obtain ⟨a', hdel, hs'⟩ := h.delete_of_cut? hcut heap
  refine ⟨a', ?_, ?_, ?_, ?_⟩
  · rw [hdel, Slot.releaseFromEnd_eq_settle, List.map_drop, h.map_snd_entries, h.size_eq]
  · refine List.ext_getElem? fun k => ?_
    rw [hs'.getElem?_entries, List.getElem?_take, List.getElem?_take, h.getElem?_entries]
    split <;> rfl
  · rw [hs'.extent_eq, List.length_take_of_le hp]
  · rw [List.map_take, h.map_snd_entries]
    exact hs'.readsAs

end Stores

/-- The position that an address denotes after a run. -/
inductive Denotes (c : ArenaConfig) (w : Heap × σ) (calls : List (ArenaCall σ)) :
    SlotAddr → Nat → Prop where
  /-- The address of the slot there. -/
  | slot {k : Nat} {addr : SlotAddr} {x : Slot}
      (h : (run { config := c } w calls).2.1.entries[k]? = some (addr, x)) :
    Denotes c w calls addr k
  /-- The end of a slab that has another one behind it. -/
  | limit {s : Nat} (h : s + 1 < (run { config := c } w calls).2.1.slabs.size) :
    Denotes c w calls (.ofParts (.ofNat s) c.slabSize) ((s + 1) * c.slabSize.toNat)
  /-- Where the arena ends. -/
  | frontier :
    Denotes c w calls (run { config := c } w calls).2.1.frontier.nextFree
      (run { config := c } w calls).2.1.size
  /-- Where the arena ended at some time of the run. -/
  | checkpoint {before after : List (ArenaCall σ)} (h : calls = before ++ after) :
    Denotes c w calls (run { config := c } w before).2.1.checkpoint.nextFree
      (run { config := c } w before).2.1.size

section

variable {w : Heap × σ} {calls : List (ArenaCall σ)} {addr : SlotAddr} {p : Nat}

theorem stores_run (hc : c.IsValid) (w : Heap × σ) (calls : List (ArenaCall σ)) :
    (run { config := c } w calls).2.1.Stores c (SlotList.run c [] w calls).2.1 :=
  ((stores_of_ofConfig? (ofConfig?_eq_ok hc)).run w calls).2.1

/-- **An address that denotes a position** is the end of so many slots, or the slot there. -/
theorem Denotes.cut?_eq (h : Denotes c w calls addr p) (hc : c.IsValid) {xs : List Slot}
    (hs : (run { config := c } w calls).2.1.Stores c xs) :
    c.cut? xs.length addr = if p ≤ xs.length then some p else none := by
  have hend : ∀ q ≤ c.capacity, c.cut? xs.length (c.frontierAt q).nextFree
      = if q ≤ xs.length then some q else none := by
    intro q hq
    split
    · next hle => exact hc.cut?_nextFree hle hs.fits
    · next hlt => exact hc.cut?_nextFree_of_lt (Nat.lt_of_not_le hlt) hq
  cases h with
  | @slot k addr x he =>
    rw [hs.getElem?_entries, Option.map_eq_some_iff] at he
    obtain ⟨y, hy, he⟩ := he
    obtain ⟨rfl, -⟩ := Prod.mk.inj he
    have hk := (List.getElem?_eq_some_iff.1 hy).1
    rw [if_pos hk.le]
    exact hc.cut?_slotAt hk hs.fits
  | @limit s hlt =>
    have hle : (s + 1) * c.width ≤ c.capacity := by
      have := (hs.lt_slabs_size (s + 1)).1 hlt
      rw [Nat.mul_comm] at this
      exact (Nat.le_of_lt this).trans hs.fits
    rw [← hc.nextFree_mul_width s]
    exact hend _ hle
  | frontier =>
    rw [hs.frontier_eq, hs.size_eq]
    exact hend _ hs.fits
  | @checkpoint before after he =>
    have hb := stores_run hc w before
    rw [Arena.checkpoint, Checkpoint.nextFree, hb.frontier_eq, hb.size_eq]
    exact hend _ hb.fits

/-- **Cutting back cuts exactly at the position.**  Whatever an arena went through, and
whatever the heap is like: cutting it back to an address that denotes position `p`, with at
least `p` slots stored, succeeds and tells how many slots are gone.  The slots below `p` are
left as they were, the references that the others hold are released, each with its kind and
in descending order of the addresses, and the arena reaches as far as one of `p` slots does
and reads as one.  With fewer slots the address is refused and nothing changes.  Taking
everything away, as a call, with a scope stack or with a store of persistent handles, is
cutting back to position zero. -/
theorem run_delete_truncates (hc : c.IsValid) (w : Heap × σ) (calls : List (ArenaCall σ))
    (heap : Heap) :
    let a := (run { config := c } w calls).2.1
    (a.entries.map Prod.fst).Pairwise (· < ·) ∧ a.entries.length = a.size ∧
    a.extent = c.extentAt a.size ∧
    (∀ addr p, Denotes c w calls addr p → p ≤ a.size → ∃ a',
      a.delete addr heap = (.ok (a.size - p), a',
        heap.settle (Slot.lettingGo ((a.entries.drop p).map Prod.snd))) ∧
      a'.entries = a.entries.take p ∧ a'.extent = c.extentAt p ∧
      a'.ReadsAs c ((a.entries.take p).map Prod.snd)) ∧
    (∀ addr p, Denotes c w calls addr p → a.size < p →
      a.delete addr heap = (.error (.addressOutOfRange (c.normalize addr)), a, heap)) ∧
    ∃ a' heap', a'.entries = [] ∧ a'.extent = c.extentAt 0 ∧
      heap' = heap.settle (Slot.lettingGo (a.entries.map Prod.snd)) ∧
      a.delete (.ofParts 0 0) heap = (.ok a.size, a', heap') ∧
      (∀ st : σ, a.call (heap, st) (.delete none) = (.deleted (.ok a.size), a', heap', st)) ∧
      a.clear heap = (a.size, a', heap') ∧
      (∀ frames, (ScopeStack.mk a frames).discard heap = heap') ∧
      ∀ records live, (PersistentStore.mk a records live).discard heap = heap' := by
  intro a
  have hs := stores_run hc w calls
  change a.Stores c _ at hs
  generalize (SlotList.run c [] w calls).2.1 = xs at hs
  refine ⟨hs.addresses_increasing, ?_, ?_, ?_, ?_, ?_⟩
  · rw [hs.size_eq, ← List.length_map Prod.snd, hs.map_snd_entries]
  · rw [hs.size_eq]
    exact hs.extent_eq
  · intro addr p hp hle
    rw [hs.size_eq] at hle
    exact hs.delete_eq hle (by rw [hp.cut?_eq hc hs, if_pos hle]) heap
  · intro addr p hp hlt
    rw [hs.size_eq] at hlt
    exact hs.delete_of_cut?_eq_none (by rw [hp.cut?_eq hc hs, if_neg (Nat.not_le_of_lt hlt)]) heap
  · -- the address of the first slot is also the end of no slots
    have hzero : c.cut? xs.length (.ofParts 0 0) = some 0 :=
      hc.cut?_nextFree (Nat.zero_le _) hs.fits
    obtain ⟨a', hclear, hs'⟩ := hs.clear heap
    obtain ⟨a'', hdel, hs''⟩ := hs.delete_of_cut? hzero heap
    rw [List.take_zero] at hs''
    obtain rfl := hs''.unique hs'
    rw [List.drop_zero, Nat.sub_zero] at hdel
    rw [hs.map_snd_entries, hs.size_eq, ← Slot.releaseFromEnd_eq_settle]
    refine ⟨a'', _, ?_, hs'.extent_eq, rfl, hdel, fun st => ?_, hclear, fun frames => ?_,
      fun records live => ?_⟩
    · rw [hs'.entries_eq]
      rfl
    · rw [call, hclear]
    · rw [ScopeStack.discard, hclear]
    · rw [PersistentStore.discard, hclear]

/-- Two slots a slab.  The checkpoint was taken when the first slab was just full; then a
slot was cut away and two were added, the latter in the next slab. -/
theorem run_delete_truncates_regrown :
    let calls : List (ArenaCall Unit) := [.add ⟨0⟩, .add ⟨1⟩, .delete (some (.ofCounts 0 1)),
      .add ⟨2⟩, .add ⟨3⟩]
    let a := (run { config := ⟨2, 4⟩ } ({}, ()) calls).2.1
    ArenaConfig.IsValid ⟨2, 4⟩ ∧ Denotes ⟨2, 4⟩ ({}, ()) calls (.ofCounts 0 2) 2 ∧ 2 ≤ a.size ∧
      ∃ a', a.delete (.ofCounts 0 2) {} = (.ok 1, a', Heap.settle {} [.release ⟨3⟩ .strong]) ∧
        a'.entries = [(.ofCounts 0 0, .holding ⟨0⟩ .strong), (.ofCounts 0 1, .holding ⟨2⟩ .strong)] ∧
        a'.extent = ⟨1, ⟨.ofCounts 0 2, .ofCounts 0 2⟩, 2⟩ := by
  intro calls a
  have hc : ArenaConfig.IsValid ⟨2, 4⟩ := by decide
  have hp : Denotes ⟨2, 4⟩ ({}, ()) calls (.ofCounts 0 2) 2 :=
    @Denotes.checkpoint _ _ _ _ [.add ⟨0⟩, .add ⟨1⟩] _ rfl
  have hle : 2 ≤ a.size := by decide
  obtain ⟨-, -, -, hcut, -⟩ := run_delete_truncates hc ({}, ()) calls {}
  obtain ⟨a', hdel, hentries, hextent, -⟩ := hcut _ _ hp hle
  exact ⟨hc, hp, hle, a', hdel, hentries, hextent⟩

end

end Arena
end EngineHandles
