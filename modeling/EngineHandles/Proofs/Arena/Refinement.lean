/-
# An arena refines a list of slots

On every run an arena gives the answers of the list and leaves the heap as the list does
(`Stores.call` for one call, `Stores.run` for a run).  What can then be seen of the arena
is what can be seen of the list (`Stores.readsAs`): full slabs with a last one that is not
empty, counts, addresses, the frontier, and what the next slot will meet.

The one operation that walks the slabs in the machine's own way is a visit.  Its slabs are
followed from the last one down to the first (`Stores.visitSlabs_drop`).

An address outside all of this is refused without a trace (`run_delete_outside`), except
the end of the slab that has the greatest ordinal: the arena reads it as its first slot.
-/

import EngineHandles.Proofs.Arena.SlotList

namespace EngineHandles

variable {σ τ : Type} {c : ArenaConfig} {xs : List Slot}

namespace Arena

variable {a : Arena}

/-- Inside a slab the visitor is given the addresses of the positions. -/
theorem visitSlots_eq (visitor : SlotAddr → Slot → τ → Slot × τ) (s j : Nat) {ys : List Slot}
    (hj : j + ys.length ≤ c.width) (st : τ) :
    visitSlots visitor s j ys st = SlotList.visitFrom c visitor (c.width * s + j) ys st := by
  induction ys generalizing j st with
  | nil => rfl
  | cons y ys ih =>
    rw [List.length_cons] at hj
    have haddr : c.slotAt (c.width * s + j) = .ofCounts s j := by
      rw [ArenaConfig.slotAt, Nat.mul_add_div (by omega), Nat.mul_add_mod,
        Nat.div_eq_of_lt (by omega), Nat.mod_eq_of_lt (by omega), Nat.add_zero]
    simp only [visitSlots, SlotList.visitFrom, haddr]
    rw [ih (j + 1) (by omega), Nat.add_assoc]

/-- Slabs are, in order, those of a list of slots. -/
def Pages (c : ArenaConfig) (slabs : List Slab) (ys : List Slot) : Prop :=
  ∀ i, slabs[i]? = if c.width * i < ys.length then some (c.slabAt ys i) else none

theorem pages_nil : Pages c [] [] := fun _ => rfl

/-- A slab in front, which is full unless it is the only one. -/
theorem Pages.cons {slabs : List Slab} {ys zs : List Slot} (h : Pages c slabs zs) (hne : ys ≠ [])
    (hle : ys.length ≤ c.width) (hfull : zs ≠ [] → ys.length = c.width) :
    Pages c (⟨c.slabSize, ys.toArray⟩ :: slabs) (ys ++ zs) := by
  have hpos := List.length_pos_iff.2 hne
  intro i
  by_cases hz : zs = []
  · subst hz
    rw [List.append_nil]
    cases i with
    | zero =>
      rw [List.getElem?_cons_zero, Nat.mul_zero, if_pos hpos, ArenaConfig.slabAt, Nat.mul_zero,
        List.drop_zero, List.take_of_length_le hle]
    | succ i =>
      have hmul : c.width * (i + 1) = c.width * i + c.width := Nat.mul_succ _ _
      rw [List.getElem?_cons_succ, h, if_neg (by simp), if_neg (by omega)]
  · have hlen := hfull hz
    cases i with
    | zero =>
      rw [List.getElem?_cons_zero, Nat.mul_zero, if_pos (by rw [List.length_append]; omega),
        ArenaConfig.slabAt, Nat.mul_zero, List.drop_zero, List.take_left' hlen]
    | succ i =>
      have hslab : c.slabAt (ys ++ zs) (i + 1) = c.slabAt zs i := by
        rw [ArenaConfig.slabAt, ArenaConfig.slabAt, Nat.mul_succ, Nat.add_comm,
          ← List.drop_drop, List.drop_left' hlen]
      have hlt : c.width * (i + 1) < (ys ++ zs).length ↔ c.width * i < zs.length := by
        rw [List.length_append, Nat.mul_succ]
        omega
      rw [List.getElem?_cons_succ, h, hslab]
      simp only [hlt]

namespace Stores

/-- The slabs from ordinal `s` on, visited one after another, are the slabs of the slots
from there on, visited one after another. -/
theorem visitSlabs_drop (h : a.Stores c xs) (visitor : SlotAddr → Slot → τ → Slot × τ) (s : Nat)
    (st : τ) :
    let slabs := visitSlabs visitor s (a.slabs.toList.drop s) st
    let slots := SlotList.visitFrom c visitor (c.width * s) (xs.drop (c.width * s)) st
    Pages c slabs.1 slots.1 ∧ slabs.2 = slots.2 := by
  -- from the last slab down to slab `s`
  induction hk : a.slabs.size - s generalizing s st with
  | zero =>
    have hs : a.slabs.size ≤ s := by omega
    have := h.lt_slabs_size s
    rw [List.drop_eq_nil_of_le (by simpa using hs), List.drop_eq_nil_of_le (by omega)]
    exact ⟨pages_nil, rfl⟩
  | succ k ih =>
    have hs : s < a.slabs.size := by omega
    have hlt := (h.lt_slabs_size s).1 hs
    have hslab := h.slab? s
    rw [if_pos hlt, Array.getElem?_eq_getElem hs] at hslab
    -- the slots of slab `s`, and those behind it
    have hsplit : xs.drop (c.width * s)
        = (c.slabAt xs s).slots.toList ++ xs.drop (c.width * (s + 1)) := by
      rw [Nat.mul_succ, ← List.drop_drop]
      exact (List.take_append_drop _ _).symm
    have hlen : (c.slabAt xs s).slots.toList.length = min c.width (xs.length - c.width * s) := by
      rw [Array.length_toList, size_slabAt]
    have hback : xs.drop (c.width * (s + 1)) = [] ∨
        (c.slabAt xs s).slots.toList.length = c.width := by
      rw [List.drop_eq_nil_iff, Nat.mul_succ]
      omega
    have hw := h.valid.width_pos
    rw [hsplit, List.drop_eq_getElem_cons (by simpa using hs), Array.getElem_toList,
      Option.some.inj hslab, SlotList.visitFrom_append]
    simp only [visitSlabs]
    rw [visitSlots_eq (c := c) visitor s 0 (by omega), Nat.add_zero]
    generalize (c.slabAt xs s).slots.toList = front at *
    have hnext : SlotList.visitFrom c visitor (c.width * s + front.length)
          (xs.drop (c.width * (s + 1)))
        = SlotList.visitFrom c visitor (c.width * (s + 1)) (xs.drop (c.width * (s + 1))) := by
      rcases hback with hnil | hfull
      · rw [hnil]
        rfl
      · rw [hfull, Nat.mul_succ]
    have hfront := SlotList.length_visitFrom c visitor (c.width * s) front st
    obtain ⟨hpages, hst⟩ := ih (s + 1) (SlotList.visitFrom c visitor (c.width * s) front st).2
      (by omega)
    rw [hnext]
    refine ⟨hpages.cons (List.length_pos_iff.1 (by omega)) (by omega) fun hne => ?_, hst⟩
    have hsome := List.length_pos_iff.2 hne
    rw [SlotList.length_visitFrom] at hsome
    rcases hback with hnil | hfull
    · rw [hnil] at hsome
      exact absurd hsome (Nat.lt_irrefl 0)
    · rw [hfront, hfull]

/-- **A visit** is a visit of the list. -/
theorem visit (h : a.Stores c xs) (visitor : SlotAddr → Slot → τ → Slot × τ) (st : τ) :
    (a.visit visitor st).1.Stores c (SlotList.visitFrom c visitor 0 xs st).1 ∧
      (a.visit visitor st).2 = (SlotList.visitFrom c visitor 0 xs st).2 := by
  obtain ⟨hpages, hst⟩ := h.visitSlabs_drop visitor 0 st
  rw [Nat.mul_zero, List.drop_zero] at hpages hst
  rw [List.drop_zero] at hpages hst
  refine ⟨⟨h.config_eq, h.valid, fun s => ?_, ?_⟩, hst⟩
  · rw [Arena.visit]
    simpa using hpages s
  · rw [SlotList.length_visitFrom]
    exact h.fits

/-- A slot is found where the list has it. -/
theorem find? (h : a.Stores c xs) (addr : SlotAddr) :
    a.get? addr = (SlotList.find? c xs addr).map Prod.snd := by
  rw [h.get?_eq, SlotList.find?]
  cases c.position? addr with
  | none => rfl
  | some k => simp [Function.comp_def]

/-- **A slot at the end,** or a refusal. -/
theorem append_eq (h : a.Stores c xs) (x : Slot) :
    ∃ a', a.append x = ((SlotList.append c xs x).1, a') ∧
      a'.Stores c (SlotList.append c xs x).2 := by
  rw [SlotList.append]
  by_cases hlt : xs.length < c.capacity
  · rw [if_pos hlt]
    exact h.append_ok x hlt
  · have := h.fits
    rw [if_neg hlt]
    exact ⟨a, h.append_full x (by omega), h⟩

/-- **Taking everything away.** -/
theorem clear (h : a.Stores c xs) (heap : Heap) :
    ∃ a', a.clear heap = (xs.length, a', Slot.releaseFromEnd xs heap) ∧ a'.Stores c [] := by
  refine ⟨{ a with slabs := #[] }, by rw [Arena.clear, h.slotsFrom_zero], h.config_eq, h.valid,
    fun s => by simp, Nat.zero_le _⟩

/-- **One call** does to the arena what it does to the list. -/
theorem call (h : a.Stores c xs) (w : Heap × σ) (call : ArenaCall σ) :
    (a.call w call).1 = (SlotList.call c xs w call).1 ∧
      (a.call w call).2.1.Stores c (SlotList.call c xs w call).2.1 ∧
      (a.call w call).2.2 = (SlotList.call c xs w call).2.2 := by
  cases call with
  | add o =>
    obtain ⟨a', ha, hs⟩ := h.append_eq (.holding o .strong)
    simp only [Arena.call, Arena.add, SlotList.call, ha]
    generalize SlotList.append c xs (.holding o .strong) = r at *
    obtain ⟨e | added, ys⟩ := r <;> exact ⟨rfl, hs, rfl⟩
  | adopt o =>
    obtain ⟨a', ha, hs⟩ := h.append_eq (.holding o .strong)
    simp only [Arena.call, Arena.adopt, SlotList.call, ha]
    generalize SlotList.append c xs (.holding o .strong) = r at *
    obtain ⟨e | added, ys⟩ := r <;> exact ⟨rfl, hs, rfl⟩
  | delete target =>
    cases target with
    | none =>
      obtain ⟨a', ha, hs⟩ := h.clear w.1
      simp only [Arena.call, SlotList.call, ha]
      exact ⟨trivial, hs, trivial⟩
    | some target =>
      simp only [Arena.call, SlotList.call]
      cases hp : c.cut? xs.length target with
      | none =>
        rw [h.delete_of_cut?_eq_none hp]
        exact ⟨rfl, h, rfl⟩
      | some p =>
        obtain ⟨a', ha, hs⟩ := h.delete_of_cut? hp w.1
        rw [ha]
        exact ⟨rfl, hs, rfl⟩
  | clear =>
    obtain ⟨a', ha, hs⟩ := h.clear w.1
    simp only [Arena.call, SlotList.call, ha]
    exact ⟨trivial, hs, trivial⟩
  | edit addr change =>
    simp only [Arena.call, SlotList.call, h.find?]
    cases hf : SlotList.find? c xs addr with
    | none => exact ⟨rfl, h, rfl⟩
    | some found =>
      obtain ⟨k, x⟩ := found
      obtain ⟨rfl, hlt⟩ := SlotList.find?_eq_some hf
      exact ⟨rfl, h.write_slotAt hlt _, rfl⟩
  | visit change =>
    obtain ⟨hs, hst⟩ := h.visit (Slot.noting change) ([], w)
    simp only [Arena.call, SlotList.call, hst, SlotList.visitFrom_noting]
    rw [SlotList.visitFrom_noting] at hs
    exact ⟨by simp [SlotList.entries], hs, trivial⟩
  | host work => exact ⟨rfl, h, rfl⟩

/-- **A run** does to the arena what it does to the list. -/
theorem run (h : a.Stores c xs) (w : Heap × σ) (calls : List (ArenaCall σ)) :
    (a.run w calls).1 = (SlotList.run c xs w calls).1 ∧
      (a.run w calls).2.1.Stores c (SlotList.run c xs w calls).2.1 ∧
      (a.run w calls).2.2 = (SlotList.run c xs w calls).2.2 := by
  induction calls generalizing a xs w with
  | nil => exact ⟨rfl, h, rfl⟩
  | cons call rest ih =>
    obtain ⟨hr, hs, hw⟩ := h.call w call
    obtain ⟨hrs, hs', hw'⟩ := ih hs (a.call w call).2.2
    rw [hw] at hrs hs' hw'
    simp only [Arena.run, SlotList.run, hr, hw, hrs, hw', true_and, and_true]
    exact hs'

end Stores

/-- What can be seen of an arena that stands for a list of slots. -/
structure ReadsAs (a : Arena) (c : ArenaConfig) (xs : List Slot) : Prop where
  /-- Every slab but the last is full. -/
  full : ∀ s slab, s + 1 < a.slabs.size → a.slabs[s]? = some slab →
    slab.slots.size = c.slabSize.toNat
  /-- The last slab is not empty. -/
  last : ∀ slab, a.slabs.back? = some slab → slab.slots.size ≠ 0
  /-- The number of slabs is rounded up. -/
  slabs_size : a.slabs.size = (xs.length + (c.slabSize.toNat - 1)) / c.slabSize.toNat
  slabs_le : a.slabs.size ≤ c.maxSlabs.toNat
  size_eq : a.size = xs.length
  /-- The slots in order, each at its address. -/
  entries_eq : a.entries = xs.zipIdx.map fun (x, k) => (c.slotAt k, x)
  /-- A visit sees every slot once, in order. -/
  visit_eq : ∀ {τ : Type} (visitor : SlotAddr → Slot → τ → Slot × τ) (st : τ),
    (a.visit (Slot.noting visitor) ([], st)).2.1.reverse = a.entries
  /-- The address of a position. -/
  address : ∀ k < xs.length, (c.slotAt k).slab.toNat = k / c.slabSize.toNat ∧
    (c.slotAt k).offset.toNat = k % c.slabSize.toNat
  get_slotAt : ∀ k < xs.length, a.get? (c.slotAt k) = xs[k]?
  get_outside : ∀ addr, (∀ k < xs.length, addr ≠ c.slotAt k) → a.get? addr = none
  /-- Without slots the frontier is the empty one, otherwise it lies behind the last slot. -/
  frontier_empty : xs = [] → a.frontier = .empty
  frontier_eq : xs ≠ [] →
    a.frontier.nextFree.slab.toNat = (xs.length - 1) / c.slabSize.toNat ∧
    a.frontier.nextFree.offset.toNat = (xs.length - 1) % c.slabSize.toNat + 1 ∧
    a.frontier.limit.slab.toNat = (xs.length - 1) / c.slabSize.toNat ∧
    a.frontier.limit.offset.toNat = c.slabSize.toNat
  /-- With room the next slot goes to the next position, and the others stay where they are. -/
  room : xs.length < c.slabSize.toNat * c.maxSlabs.toNat → ∀ o h, ∃ a',
    a.add o h = (.ok ⟨c.slotAt xs.length, a'.frontier⟩, a', h.retain o .strong) ∧
    a.adopt o h = (.ok ⟨c.slotAt xs.length, a'.frontier⟩, a', h) ∧
    a'.get? (c.slotAt xs.length) = some (.holding o .strong) ∧
    ∀ addr, addr ≠ c.slotAt xs.length → a'.get? addr = a.get? addr
  /-- Without room it is refused. -/
  noRoom : xs.length = c.slabSize.toNat * c.maxSlabs.toNat → ∀ o h,
    a.add o h = (.error (.capacityExceeded c.maxSlabs.toNat c.maxSlabs.toNat), a, h) ∧
    a.adopt o h = (.error (.capacityExceeded c.maxSlabs.toNat c.maxSlabs.toNat), a,
      (h.release o .strong).2)
  /-- There are never more slots than there is room for. -/
  fits : xs.length ≤ c.slabSize.toNat * c.maxSlabs.toNat

namespace Stores

/-- The slabs but the last are full. -/
theorem size_of_lt (h : a.Stores c xs) {s : Nat} (hs : s + 1 < a.slabs.size) {slab : Slab}
    (hslab : a.slabs[s]? = some slab) : slab.slots.size = c.width := by
  have hlt := (h.lt_slabs_size (s + 1)).1 hs
  rw [Nat.mul_succ] at hlt
  rw [h.slab?, if_pos (by omega)] at hslab
  cases hslab
  rw [size_slabAt]
  omega

/-- The number of slabs, rounded up. -/
theorem slabs_size_eq (h : a.Stores c xs) :
    a.slabs.size = (xs.length + (c.width - 1)) / c.width := by
  have hw := h.valid.width_pos
  by_cases hn : xs = []
  · subst hn
    rw [h.slabs_eq_empty, List.length_nil, Nat.zero_add, Nat.div_eq_of_lt (by omega)]
    rfl
  · have hpos := List.length_pos_iff.2 hn
    rw [h.slabs_size hn, show xs.length + (c.width - 1) = xs.length - 1 + c.width by omega,
      Nat.add_div_right _ hw]

/-- **An arena that stores a list** reads as the list. -/
theorem readsAs (h : a.Stores c xs) : a.ReadsAs c xs := by
  have hw := h.valid.width_pos
  have hw' := h.valid.width_lt
  have hm := h.valid.maxSlabs_lt
  have hfits := h.fits
  refine
    { full := fun s slab hs hslab => h.size_of_lt hs hslab
      last := ?_, slabs_size := h.slabs_size_eq, slabs_le := ?_, size_eq := h.size_eq
      entries_eq := h.entries_eq, visit_eq := ?_, address := ?_
      get_slotAt := fun k => h.get?_slotAt, get_outside := ?_
      frontier_empty := ?_, frontier_eq := ?_, room := ?_, noRoom := ?_, fits := hfits }
  · intro slab hslab
    have hn : xs ≠ [] := fun hn => by
      subst hn
      rw [h.slabs_eq_empty] at hslab
      cases hslab
    rw [h.back?_eq hn] at hslab
    cases hslab
    rw [h.size_last hn]
    omega
  · rw [h.slabs_size_eq]
    refine Nat.le_of_lt_succ (Nat.div_lt_of_lt_mul ?_)
    rw [Nat.mul_succ]
    rw [ArenaConfig.capacity] at hfits
    omega
  · intro τ visitor st
    rw [(h.visit (Slot.noting visitor) ([], st)).2, SlotList.visitFrom_noting, h.entries_eq]
    simp
  · exact fun k hk => h.valid.toNat_slotAt (by omega)
  · intro addr hne
    rw [h.get?_eq, Option.bind_eq_none_iff]
    intro k hk
    refine List.getElem?_eq_none ?_
    by_contra hlt
    exact hne k (by omega) (ArenaConfig.slotAt_of_position? hk).symm
  · rintro rfl
    rw [h.frontier_eq]
    rfl
  · intro hn
    have hpos := List.length_pos_iff.2 hn
    have hq := ArenaConfig.div_width_lt (c := c) (k := xs.length - 1) (by omega)
    have hr := h.valid.mod_width_lt (xs.length - 1)
    rw [h.frontier_eq, ArenaConfig.frontierAt, if_neg (by omega)]
    refine ⟨SlotAddr.toNat_slab_ofCounts (by omega) _,
      SlotAddr.toNat_offset_ofCounts _ (by omega), ?_, ?_⟩
    · rw [SlotAddr.slab_ofParts, UInt32.toNat_ofNat_of_lt' (show _ < 2 ^ 32 by omega)]
      rfl
    · rw [SlotAddr.offset_ofParts]
  · intro hlt o heap
    obtain ⟨a', ha, -, hget, hframe⟩ := h.append_frame hlt (.holding o .strong)
    exact ⟨a', by rw [add, ha], by rw [adopt, ha], hget, hframe⟩
  · intro hfull o heap
    have ha := h.append_full (.holding o .strong) hfull
    exact ⟨by rw [add, ha], by rw [adopt, ha]⟩

end Stores

/-- An arena without slots stands for the empty list. -/
theorem ofConfig?_eq_ok (hc : c.IsValid) : ofConfig? c = .ok { config := c } := by
  rw [ofConfig?, hc]

/-- **An arena refines a list of slots.**  For every valid configuration and on every run,
the arena gives the answers of the list and leaves the heap and the embedder's state as the
list does, and at the end of the run it reads as the list. -/
theorem run_refines_list (hc : c.IsValid) (w : Heap × σ) (calls : List (ArenaCall σ)) :
    ∃ a, ofConfig? c = .ok a ∧
      let after := a.run w calls
      let list := SlotList.run c [] w calls
      after.1 = list.1 ∧ after.2.2 = list.2.2 ∧ after.2.1.ReadsAs c list.2.1 := by
  have ha := ofConfig?_eq_ok hc
  obtain ⟨hr, hs, hw⟩ := (stores_of_ofConfig? ha).run w calls
  exact ⟨_, ha, hr, hw, hs.readsAs⟩

/-- Of two slabs of two slots the second is cut away together with a slot of the first. -/
theorem run_refines_list_twoSlabs :
    let calls : List (ArenaCall Unit) := [.add ⟨0⟩, .add ⟨1⟩, .add ⟨2⟩,
      .delete (some (.ofCounts 0 1)), .adopt ⟨3⟩,
      .edit (.ofCounts 0 0) fun x w => (x.emptied, w)]
    ArenaConfig.IsValid ⟨2, 2⟩ ∧
      (run { config := ⟨2, 2⟩ } ({}, ()) calls).2.1.ReadsAs ⟨2, 2⟩
        [⟨none, .strong⟩, .holding ⟨3⟩ .strong] := by
  intro calls
  have hc : ArenaConfig.IsValid ⟨2, 2⟩ := by decide
  obtain ⟨a, ha, -, -, h⟩ := run_refines_list hc ({}, ()) calls
  cases ha
  exact ⟨hc, h⟩

/-- **Addresses outside are refused,** and nothing changes, on every arena that a run
reaches: those of no slot that are neither the end of an allocated slab nor the place where
the arena ends.  The one exception is the end of the slab with the greatest ordinal, which
the arena reads as its first slot, so that all of it is deleted. -/
theorem run_delete_outside (hc : c.IsValid) (w : Heap × σ) (calls : List (ArenaCall σ))
    (heap : Heap) (addr : SlotAddr) :
    let a := (run { config := c } w calls).2.1
    a.get? addr = none → (∀ s < a.slabs.size, addr ≠ .ofParts (.ofNat s) c.slabSize) →
    addr ≠ a.frontier.nextFree →
    a.delete addr heap
      = if addr = .ofParts ArenaConfig.greatestWord c.slabSize ∧ a.size ≠ 0 then
          (.ok a.size, (a.clear heap).2)
        else (.error (.addressOutOfRange (c.normalize addr)), a, heap) := by
  intro a hget hlimit hend
  obtain ⟨-, hs, -⟩ := (stores_of_ofConfig? (ofConfig?_eq_ok hc)).run w calls
  change a.Stores c _ at hs
  generalize (SlotList.run c [] w calls).2.1 = xs at hs
  have hcut : c.cut? xs.length addr
      = if addr = .ofParts ArenaConfig.greatestWord c.slabSize ∧ 0 < xs.length then some 0
        else none := by
    refine hc.cut?_of_outside (fun k hk he => ?_)
      (fun s hlt => hlimit s ((hs.lt_slabs_size s).2 hlt)) (by rwa [← hs.frontier_eq])
    rw [he, hs.get?_slotAt hk, List.getElem?_eq_getElem hk] at hget
    cases hget
  simp only [hs.size_eq, ← Nat.pos_iff_ne_zero]
  split at hcut
  · next hwrap =>
    obtain ⟨a', hdel, hs'⟩ := hs.delete_of_cut? hcut heap
    obtain ⟨a'', hclear, hs''⟩ := hs.clear heap
    rw [List.take_zero] at hs'
    rw [if_pos hwrap, hdel, hclear, hs'.unique hs'', Nat.sub_zero, List.drop_zero]
  · next hplain =>
    rw [if_neg hplain, hs.delete_of_cut?_eq_none hcut]

/-- One slot is stored, and the address is the start of the next slab. -/
theorem run_delete_outside_nextSlab :
    let calls : List (ArenaCall Unit) := [.add ⟨0⟩]
    let a := (run { config := ⟨2, 4⟩ } ({}, ()) calls).2.1
    ArenaConfig.IsValid ⟨2, 4⟩ ∧ a.get? (.ofCounts 1 0) = none ∧
      (∀ s < a.slabs.size, SlotAddr.ofCounts 1 0 ≠ .ofParts (.ofNat s) 2) ∧
      SlotAddr.ofCounts 1 0 ≠ a.frontier.nextFree ∧
      a.delete (.ofCounts 1 0) {} = (.error (.addressOutOfRange (.ofCounts 1 0)), a, {}) := by
  intro calls a
  have hc : ArenaConfig.IsValid ⟨2, 4⟩ := by decide
  have hget : a.get? (.ofCounts 1 0) = none := by decide
  have hlimit : ∀ s < a.slabs.size, SlotAddr.ofCounts 1 0 ≠ .ofParts (.ofNat s) 2 := by decide
  have hend : SlotAddr.ofCounts 1 0 ≠ a.frontier.nextFree := by decide
  exact ⟨hc, hget, hlimit, hend,
    run_delete_outside hc ({}, ()) calls {} (.ofCounts 1 0) hget hlimit hend⟩

/-- The end of the slab with the greatest ordinal, of which nothing is allocated, takes
the one stored slot with it. -/
theorem not_delete_outside_refused :
    ¬ ∀ (c : ArenaConfig), c.IsValid → ∀ (calls : List (ArenaCall Unit)) (heap : Heap)
      (addr : SlotAddr),
      let a := (run { config := c } ({}, ()) calls).2.1
      a.get? addr = none → (∀ s < a.slabs.size, addr ≠ .ofParts (.ofNat s) c.slabSize) →
      addr ≠ a.frontier.nextFree →
      ∃ e, a.delete addr heap = (.error (.addressOutOfRange e), a, heap) := by
  intro h
  obtain ⟨e, he⟩ := h ⟨2, 4⟩ (by decide) [.add ⟨0⟩] {} (.ofParts 4294967295 2) (by decide)
    (by decide) (by decide)
  exact absurd (congrArg Prod.fst he) nofun

end Arena
end EngineHandles
