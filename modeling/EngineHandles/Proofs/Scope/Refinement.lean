/-
# A scope stack is a stack of lists

A scope stack keeps no list for a scope, only the frontier at which it was opened; the
slots of a scope are told from those of its neighbours by comparing addresses.  `Shows`
says how the two pictures hang together: the arena stores the concatenation of the
lists, and the frontier of a frame is the one of an arena that holds the lists below.

Since frontiers are functions of lengths, an address lies between the frontiers of two
neighbouring frames just if its position lies in the list between them, also where one
of the frontiers is the end of a slab and the slot it bounds is at the start of the next
(`Shows.owns_iff`).  Every call keeps the two pictures together and answers the same
(`Shows.call`), a whole run by induction (`Shows.run`).

So a stack that is used from its beginning, each scope under an id of its own, answers
like the lists throughout, and what it holds can be read off them (`run_refines_levels`).
-/

import EngineHandles.Proofs.Scope.Levels

namespace EngineHandles

namespace Levels

/-- The frames of open scopes: each remembers the frontier behind the lists below it. -/
def frames (c : ArenaConfig) : Levels → List Frame
  | [] => []
  | l :: below => ⟨l.id, ⟨c.frontierAt (objects below).length⟩⟩ :: frames c below

variable {c : ArenaConfig}

@[simp] theorem frames_nil : frames c [] = [] := rfl

@[simp] theorem frames_cons (l : Level) (below : Levels) :
    frames c (l :: below) = ⟨l.id, ⟨c.frontierAt (objects below).length⟩⟩ :: frames c below := rfl

/-- The frames of the scopes below come last, under those of the scopes above. -/
theorem exists_frames_append (above M : Levels) :
    ∃ fs, frames c (above ++ M) = fs ++ frames c M := by
  induction above with
  | nil => exact ⟨[], rfl⟩
  | cons l above ih =>
    obtain ⟨fs, hfs⟩ := ih
    exact ⟨_ :: fs, by rw [List.cons_append, frames_cons, hfs, List.cons_append]⟩

theorem frames_map_id (L : Levels) : (frames c L).map Frame.id = L.ids := by
  induction L with
  | nil => rfl
  | cons l L ih => rw [frames_cons, List.map_cons, ih, ids_cons]

/-- The slots that hold the objects of open scopes. -/
def slots (L : Levels) : List Slot := L.objects.map fun o => .holding o .strong

@[simp] theorem length_slots (L : Levels) : L.slots.length = L.objects.length := List.length_map _

theorem slots_cons (l : Level) (below : Levels) :
    slots (l :: below) = slots below ++ l.objects.map fun o => .holding o .strong := by
  rw [slots, objects_cons, List.map_append, slots]

end Levels

/-- The scope stack is the picture of a stack of lists. -/
structure ScopeStack.Shows (s : ScopeStack) (c : ArenaConfig) (L : Levels) : Prop where
  stores : s.locals.Stores c L.slots
  frames_eq : s.frames = L.frames c

namespace Slot

/-- Releasing strong slots releases their objects. -/
theorem releaseFromEnd_holding (os : List ObjectId) (h : Heap) :
    releaseFromEnd (os.map fun o => .holding o .strong) h = h.releaseAll os := by
  induction os with
  | nil => rfl
  | cons o os ih =>
    rw [List.map_cons, releaseFromEnd, List.foldr_cons, ← releaseFromEnd, ih]
    rfl

/-- An emptied slot among strong ones is released as if it were not there. -/
theorem releaseFromEnd_set_emptied (os : List ObjectId) {j : Nat} (hj : j < os.length)
    (k : RefKind) (h : Heap) :
    releaseFromEnd ((os.map fun o => Slot.holding o .strong).set j ⟨none, k⟩) h
      = h.releaseAll (os.eraseIdx j) := by
  induction os generalizing j with
  | nil => cases hj
  | cons o os ih =>
    cases j with
    | zero =>
      rw [List.map_cons, List.set_cons_zero, releaseFromEnd, List.foldr_cons, ← releaseFromEnd,
        releaseFromEnd_holding]
      rfl
    | succ j =>
      rw [List.map_cons, List.set_cons_succ, releaseFromEnd, List.foldr_cons, ← releaseFromEnd,
        ih (Nat.lt_of_succ_lt_succ hj)]
      rfl

end Slot

namespace ScopeStack

variable {s : ScopeStack} {c : ArenaConfig} {L : Levels}

/-- Removing the innermost frame cuts the arena back to the slots below it. -/
theorem popFrame_eq {xs : List Slot} {id : ScopeId} {p : Nat} {below : List Frame}
    (hs : s.locals.Stores c xs) (hf : s.frames = ⟨id, ⟨c.frontierAt p⟩⟩ :: below)
    (hp : p ≤ xs.length) (h : Heap) :
    ∃ a', s.popFrame h
        = (.ok (xs.length - p), ⟨a', below⟩, Slot.releaseFromEnd (xs.drop p) h) ∧
      a'.Stores c (xs.take p) := by
  obtain ⟨a', hdel, hs'⟩ := hs.delete_nextFree hp h
  simp only [popFrame, hf, Checkpoint.nextFree, hs.frontier_eq]
  by_cases he : (c.frontierAt xs.length).nextFree = (c.frontierAt p).nextFree
  · obtain rfl := hs.valid.nextFree_inj hs.fits (by have := hs.fits; omega) he
    refine ⟨s.locals, ?_, by rwa [List.take_length]⟩
    rw [if_pos rfl, Nat.sub_self, List.drop_length]
    rfl
  · rw [if_neg he, hdel]
    exact ⟨a', rfl, hs'⟩

namespace Shows

theorem size_eq (h : s.Shows c L) : s.size = L.objects.length := by
  rw [size, h.stores.size_eq, Levels.length_slots]

theorem fits (h : s.Shows c L) : L.objects.length ≤ c.capacity := by
  rw [← Levels.length_slots]
  exact h.stores.fits

theorem innermost?_eq (h : s.Shows c L) : s.innermost? = L.ids.head? := by
  rw [innermost?, h.frames_eq, ← Levels.frames_map_id (c := c), List.head?_map]

theorem isOpen_iff (h : s.Shows c L) (id : ScopeId) : s.isOpen id = true ↔ id ∈ L.ids := by
  rw [isOpen, h.frames_eq, ← Levels.frames_map_id (c := c), List.any_eq_true, List.mem_map]
  simp only [beq_iff_eq]

/-- Why a scope may not be closed: it is not the one on top. -/
theorem closeFault?_cons {l : Level} {below : Levels} (h : s.Shows c (l :: below)) (id : ScopeId) :
    s.closeFault? id = if l.id = id then none else some (Levels.closeError l below id) := by
  rw [closeFault?, h.innermost?_eq]
  dsimp only [Levels.ids_cons, List.head?_cons]
  by_cases he : l.id = id
  · rw [if_pos he, if_pos he]
  · have hopen : s.isOpen id = true ↔ id ∈ Levels.ids below := by
      rw [h.isOpen_iff, Levels.ids_cons, List.mem_cons]
      exact or_iff_right fun hh => he hh.symm
    rw [if_neg he, if_neg he, Levels.closeError]
    by_cases hm : id ∈ Levels.ids below
    · rw [if_pos (hopen.2 hm), if_pos hm]
    · rw [if_neg (mt hopen.1 hm), if_neg hm]

theorem closeFault?_nil (h : s.Shows c []) (id : ScopeId) :
    s.closeFault? id = some (.scopeAlreadyClosed id) := by
  rw [closeFault?, h.innermost?_eq]
  rfl

/-- A scope that is not open has no bounds. -/
theorem bounds?_of_not_mem (h : s.Shows c L) {id : ScopeId} (hid : id ∉ L.ids) :
    s.bounds? id = none := by
  have hall : ∀ f ∈ s.frames.reverse, (f.id != id) = true := by
    intro f hf
    rw [List.mem_reverse, h.frames_eq] at hf
    rw [bne_iff_ne]
    rintro rfl
    exact hid (Levels.frames_map_id (c := c) L ▸ List.mem_map_of_mem hf)
  rw [bounds?, ← List.append_nil s.frames.reverse, List.dropWhile_append_of_pos hall]
  rfl

/-- **Where the slots of an open scope begin and end:** behind the lists below it, and
behind its own. -/
theorem bounds?_eq {above below : Levels} {l : Level} (h : s.Shows c (above ++ l :: below))
    (hid : l.id ∉ Levels.ids below) :
    s.bounds? l.id = some ((c.frontierAt (Levels.objects below).length).nextFree,
      (c.frontierAt (Levels.objects (l :: below)).length).nextFree) := by
  have hbelow : ∀ f ∈ (Levels.frames c below).reverse, (f.id != l.id) = true := by
    intro f hf
    rw [bne_iff_ne]
    intro he
    have := List.mem_map_of_mem (f := Frame.id) (List.mem_reverse.1 hf)
    rw [Levels.frames_map_id, he] at this
    exact hid this
  rcases List.eq_nil_or_concat above with rfl | ⟨above, m, rfl⟩
  · rw [List.nil_append] at h
    rw [bounds?, h.frames_eq, Levels.frames_cons, List.reverse_cons,
      List.dropWhile_append_of_pos hbelow]
    simp only [List.dropWhile_cons, bne_self_eq_false, Bool.false_eq_true, if_false,
      Checkpoint.nextFree, h.stores.frontier_eq, Levels.length_slots]
  · obtain ⟨fs, hfs⟩ := Levels.exists_frames_append (c := c) above (m :: l :: below)
    rw [List.concat_eq_append, List.append_assoc, List.singleton_append] at h
    rw [bounds?, h.frames_eq, hfs, Levels.frames_cons, Levels.frames_cons, List.reverse_append,
      List.reverse_cons, List.reverse_cons, List.append_assoc, List.append_assoc,
      List.dropWhile_append_of_pos hbelow, List.singleton_append]
    simp only [List.dropWhile_cons, bne_self_eq_false, Bool.false_eq_true, if_false]
    rfl

/-- **Which slots a scope owns:** those at the positions of its list. -/
theorem owns_iff {above below : Levels} {l : Level} (h : s.Shows c (above ++ l :: below))
    (hid : l.id ∉ Levels.ids below) (slot : SlotAddr) :
    s.owns l.id slot = true
      ↔ ∃ j < l.objects.length, c.slotAt ((Levels.objects below).length + j) = slot := by
  have hv := h.stores.valid
  have hcap := h.fits
  have hlen : (Levels.objects (above ++ l :: below)).length
      = (Levels.objects below).length + l.objects.length + (Levels.objects above).length := by
    rw [Levels.objects_append, Levels.objects_cons, List.length_append, List.length_append]
  have hget : ∀ k, k < (Levels.objects (above ++ l :: below)).length →
      (s.locals.get? (c.slotAt k)).isSome = true := by
    intro k hk
    rw [h.stores.get?_slotAt (by rwa [Levels.length_slots]),
      List.getElem?_eq_getElem (by rwa [Levels.length_slots])]
    rfl
  rw [owns, h.bounds?_eq hid]
  simp only [Bool.and_eq_true, decide_eq_true_eq, Levels.objects_cons, List.length_append]
  constructor
  · rintro ⟨⟨hstart, hstop⟩, hsome⟩
    obtain ⟨x, hx⟩ := Option.isSome_iff_exists.1 hsome
    obtain ⟨k, rfl, hk⟩ := h.stores.exists_of_get? hx
    have hk' := (List.getElem?_eq_some_iff.1 hk).1
    rw [Levels.length_slots] at hk'
    rw [hv.nextFree_le_slotAt (by omega) (by omega)] at hstart
    rw [hv.slotAt_lt_nextFree (by omega) (by omega)] at hstop
    exact ⟨k - (Levels.objects below).length, by omega, by rw [Nat.add_sub_cancel' hstart]⟩
  · rintro ⟨j, hj, rfl⟩
    refine ⟨⟨(hv.nextFree_le_slotAt (by omega) (by omega)).2 (by omega),
      (hv.slotAt_lt_nextFree (by omega) (by omega)).2 (by omega)⟩, hget _ (by omega)⟩

/-- The slot at the position of a local holds its object. -/
theorem get?_slotAt {above below : Levels} {l : Level} (h : s.Shows c (above ++ l :: below))
    {j : Nat} (hj : j < l.objects.length) :
    s.locals.get? (c.slotAt ((Levels.objects below).length + j))
      = some (.holding l.objects[j] .strong) := by
  have hlen : (Levels.objects below).length + j
      < (Levels.objects (above ++ l :: below)).length := by
    rw [Levels.objects_append, Levels.objects_cons, List.length_append, List.length_append]
    omega
  rw [h.stores.get?_slotAt (by rwa [Levels.length_slots]), Levels.slots, List.getElem?_map,
    Levels.objects_append, Levels.objects_cons, List.append_assoc,
    List.getElem?_append_right (by omega), Nat.add_sub_cancel_left,
    List.getElem?_append_left hj, List.getElem?_eq_getElem hj, Option.map_some]

/-! ### The calls, one by one -/

theorem enter (h : s.Shows c L) (id : ScopeId) : (s.enter id).Shows c (L.enter id) := by
  constructor
  · have : (L.enter id).slots = L.slots := by
      rw [Levels.enter, Levels.slots_cons, List.map_nil, List.append_nil]
    rw [this]
    exact h.stores
  · rw [ScopeStack.enter, Levels.enter, Levels.frames_cons, h.frames_eq, Arena.checkpoint,
      h.stores.frontier_eq, Levels.length_slots]

theorem leave (h : s.Shows c L) (id : ScopeId) (heap : Heap) :
    (s.leave id heap).1 = (L.leave id heap).1 ∧
      (s.leave id heap).2.1.Shows c (L.leave id heap).2.1 ∧
      (s.leave id heap).2.2 = (L.leave id heap).2.2 := by
  cases L with
  | nil =>
    rw [ScopeStack.leave, h.closeFault?_nil, Levels.leave]
    exact ⟨rfl, h, rfl⟩
  | cons l below =>
    by_cases he : l.id = id
    · obtain ⟨a', hpop, hs'⟩ := popFrame_eq (p := (Levels.objects below).length) h.stores
        h.frames_eq (by
          rw [Levels.length_slots, Levels.objects_cons, List.length_append]
          omega) heap
      rw [Levels.slots_cons, List.take_left' (Levels.length_slots below)] at hs'
      rw [Levels.slots_cons, List.drop_left' (Levels.length_slots below),
        Slot.releaseFromEnd_holding, ← Levels.slots_cons, Levels.length_slots] at hpop
      have hshow : ScopeStack.Shows ⟨a', Levels.frames c below⟩ c below := ⟨hs', rfl⟩
      rw [ScopeStack.leave, h.closeFault?_cons, if_pos he, Levels.leave]
      dsimp only
      rw [hpop, if_pos he]
      refine ⟨?_, hshow, rfl⟩
      dsimp only
      rw [h.size_eq, hshow.size_eq, Levels.objects_cons, List.length_append,
        Nat.add_sub_cancel_left]
    · rw [ScopeStack.leave, h.closeFault?_cons, if_neg he, Levels.leave, if_neg he]
      exact ⟨rfl, h, rfl⟩

theorem add (h : s.Shows c L) (o : ObjectId) (heap : Heap) :
    (s.add o heap).1 = (L.add c o heap).1 ∧
      (s.add o heap).2.1.Shows c (L.add c o heap).2.1 ∧
      (s.add o heap).2.2 = (L.add c o heap).2.2 := by
  rw [ScopeStack.add, h.innermost?_eq]
  cases L with
  | nil => exact ⟨rfl, h, rfl⟩
  | cons l below =>
    dsimp only [Levels.ids_cons, List.head?_cons]
    rw [Levels.add, Arena.add]
    by_cases hlt : (Levels.objects (l :: below)).length < c.capacity
    · obtain ⟨a', happ, hs'⟩ := h.stores.append_ok (.holding o .strong)
        (by rwa [Levels.length_slots])
      rw [happ, if_pos hlt]
      refine ⟨?_, ⟨?_, h.frames_eq⟩, rfl⟩
      · dsimp only
        rw [h.size_eq, Levels.length_slots]
      · show a'.Stores c (Levels.slots (⟨l.id, l.objects ++ [o]⟩ :: below))
        rw [Levels.slots_cons, List.append_assoc] at hs'
        rw [Levels.slots_cons, List.map_append]
        exact hs'
    · have hn : (Levels.slots (l :: below)).length = c.capacity := by
        have := h.fits
        rw [Levels.length_slots]
        omega
      rw [h.stores.append_full _ hn, if_neg hlt]
      exact ⟨rfl, h, rfl⟩

/-- Cutting the innermost list away while one of its slots is emptied releases all the
references in it but that one. -/
theorem popFrame_emptied {l : Level} {below : Levels} (h : s.Shows c (l :: below)) {j : Nat}
    (hj : j < l.objects.length) (k : RefKind) (heap : Heap) :
    ∃ n a', popFrame
        ⟨s.locals.write (c.slotAt ((Levels.objects below).length + j)) ⟨none, k⟩, s.frames⟩ heap
        = (.ok n, ⟨a', Levels.frames c below⟩, heap.releaseAll (l.objects.eraseIdx j)) ∧
      ScopeStack.Shows ⟨a', Levels.frames c below⟩ c below := by
  have hpos : (Levels.objects below).length + j < (Levels.slots (l :: below)).length := by
    rw [Levels.length_slots, Levels.objects_cons, List.length_append]
    omega
  have hset : (Levels.slots (l :: below)).set ((Levels.objects below).length + j) ⟨none, k⟩
      = Levels.slots below ++ (l.objects.map fun o => Slot.holding o .strong).set j ⟨none, k⟩ := by
    rw [Levels.slots_cons, List.set_append_right _ _ (by rw [Levels.length_slots]; omega),
      Levels.length_slots, Nat.add_sub_cancel_left]
  have hwrite := h.stores.write_slotAt hpos ⟨none, k⟩
  rw [hset] at hwrite
  have hle : (Levels.objects below).length ≤ (Levels.slots below
      ++ (l.objects.map fun o => Slot.holding o .strong).set j ⟨none, k⟩).length := by
    rw [List.length_append, Levels.length_slots]
    omega
  obtain ⟨a', hpop, hs'⟩ := popFrame_eq (s := ⟨_, s.frames⟩) hwrite h.frames_eq hle heap
  rw [List.take_left' (Levels.length_slots _)] at hs'
  rw [List.drop_left' (Levels.length_slots _), Slot.releaseFromEnd_set_emptied _ hj] at hpop
  exact ⟨_, a', hpop, hs', rfl⟩

/-- Storing the reference that was taken out puts it at the end of the list that is now
on top, without counting it again. -/
theorem adopt {l : Level} {below : Levels} (h : s.Shows c (l :: below)) (o : ObjectId)
    (hlt : (Levels.objects (l :: below)).length < c.capacity) (heap : Heap) :
    ∃ a', s.locals.adopt o heap
        = (.ok ⟨c.slotAt (Levels.objects (l :: below)).length,
            c.frontierAt ((Levels.objects (l :: below)).length + 1)⟩, a', heap) ∧
      ScopeStack.Shows ⟨a', s.frames⟩ c (⟨l.id, l.objects ++ [o]⟩ :: below) := by
  obtain ⟨a', happ, hs'⟩ := h.stores.append_ok (.holding o .strong) (by rwa [Levels.length_slots])
  rw [Levels.length_slots] at happ
  rw [Levels.slots_cons, List.append_assoc] at hs'
  refine ⟨a', by rw [Arena.adopt, happ], ?_, h.frames_eq⟩
  rw [Levels.slots_cons, List.map_append]
  exact hs'

theorem escape (h : s.Shows c L) (hnd : L.ids.Nodup) (id : ScopeId) (slot : SlotAddr)
    (heap : Heap) :
    (s.escape id slot heap).1 = (L.escape c id slot heap).1 ∧
      (s.escape id slot heap).2.1.Shows c (L.escape c id slot heap).2.1 ∧
      (s.escape id slot heap).2.2 = (L.escape c id slot heap).2.2 := by
  cases L with
  | nil =>
    rw [ScopeStack.escape, h.closeFault?_nil, Levels.escape]
    exact ⟨rfl, h, rfl⟩
  | cons l below =>
    rw [ScopeStack.escape, h.closeFault?_cons, Levels.escape.eq_def]
    rcases (Decidable.em (l.id = id)).symm with he | rfl
    · dsimp only
      rw [if_neg he, if_pos he]
      exact ⟨rfl, h, rfl⟩
    dsimp only
    rw [if_pos rfl, if_neg (not_not_intro rfl), h.frames_eq]
    cases below with
    | nil => exact ⟨rfl, h, rfl⟩
    | cons parent rest =>
      have htop : s.Shows c ([] ++ l :: parent :: rest) := h
      have howns := htop.owns_iff (List.nodup_cons.1 hnd).1 slot
      simp only [Levels.frames_cons, List.getElem?_cons_succ, List.getElem?_cons_zero]
      cases hidx : Levels.index? c l (parent :: rest) slot with
      | none =>
        have : s.owns l.id slot = false := by
          rw [Bool.eq_false_iff, Ne, howns]
          rintro ⟨j, hj, hs⟩
          exact Levels.index?_eq_none_iff.1 hidx j hj hs
        rw [this]
        exact ⟨rfl, h, rfl⟩
      | some j =>
        obtain ⟨hj, rfl⟩ := (Levels.index?_eq_some_iff h.stores.valid h.fits).1 hidx
        obtain ⟨n, a', hpop, hs'⟩ := h.popFrame_emptied hj .strong heap
        have hroom : (Levels.objects (parent :: rest)).length < c.capacity := by
          have := h.fits
          rw [Levels.objects_cons, List.length_append] at this
          omega
        obtain ⟨a'', hadopt, hs''⟩ := hs'.adopt l.objects[j] hroom
          (heap.releaseAll (l.objects.eraseIdx j))
        rw [h.frames_eq, Levels.frames_cons, Levels.frames_cons] at hpop
        rw [howns.2 ⟨j, hj, rfl⟩, htop.get?_slotAt hj]
        simp only [Bool.not_true, Bool.false_eq_true, if_false, Option.map_some, Slot.take,
          Slot.holding, Slot.emptied, hpop, hadopt, List.getElem?_eq_getElem hj]
        refine ⟨?_, hs'', trivial⟩
        have hsize : ScopeStack.size ⟨a'', Levels.frames c (parent :: rest)⟩
            = (Levels.objects (parent :: rest)).length + 1 := by
          rw [hs''.size_eq, Levels.objects_cons, ← List.append_assoc, List.length_append]
          rfl
        rw [h.size_eq, ← hsize]
        rfl

theorem get (h : s.Shows c L) (hnd : L.ids.Nodup) (id : ScopeId) (slot : SlotAddr) :
    s.get id slot = L.get c id slot := by
  by_cases hid : id ∈ L.ids
  · obtain ⟨l, hl, rfl⟩ := List.mem_map.1 hid
    obtain ⟨above, below, rfl⟩ := List.append_of_mem hl
    rw [Levels.ids_append, Levels.ids_cons, List.nodup_append] at hnd
    obtain ⟨-, hbelow, habove⟩ := hnd
    have hl : l.id ∉ Levels.ids below := (List.nodup_cons.1 hbelow).1
    have hcap := h.fits
    rw [Levels.objects_append, List.length_append] at hcap
    rw [Levels.get_append_of_not_mem fun hm => habove _ hm _ List.mem_cons_self rfl,
      Levels.get, if_pos rfl, ScopeStack.get]
    cases hidx : Levels.index? c l below slot with
    | none =>
      have : ¬ s.owns l.id slot = true := by
        rw [h.owns_iff hl]
        rintro ⟨j, hj, hs⟩
        exact Levels.index?_eq_none_iff.1 hidx j hj hs
      rw [if_neg this]
      rfl
    | some j =>
      obtain ⟨hj, rfl⟩ := (Levels.index?_eq_some_iff h.stores.valid (by omega)).1 hidx
      rw [if_pos ((h.owns_iff hl _).2 ⟨j, hj, rfl⟩), h.get?_slotAt hj, Option.bind_some,
        Option.bind_some, List.getElem?_eq_getElem hj]
      rfl
  · rw [Levels.get_of_not_mem hid, ScopeStack.get, owns, h.bounds?_of_not_mem hid]
    rfl

theorem references (h : s.Shows c L) : s.references = L.references c := by
  rw [ScopeStack.references, h.stores.entries_eq, Levels.slots, Levels.references, List.zipIdx_map,
    List.map_map, List.filterMap_map, ← List.filterMap_eq_map]
  rfl

/-- **Every call shows the same on a scope stack and on the lists it stands for.** -/
theorem call (h : s.Shows c L) (hnd : L.ids.Nodup) (call : ScopeCall) (heap : Heap) :
    (s.call heap call).1 = (L.call c heap call).1 ∧
      (s.call heap call).2.1.Shows c (L.call c heap call).2.1 ∧
      (s.call heap call).2.2 = (L.call c heap call).2.2 := by
  cases call with
  | enter id => exact ⟨rfl, h.enter id, rfl⟩
  | leave id =>
    obtain ⟨hr, hs, hh⟩ := h.leave id heap
    exact ⟨congrArg ScopeReply.left hr, hs, hh⟩
  | add o =>
    obtain ⟨hr, hs, hh⟩ := h.add o heap
    exact ⟨congrArg ScopeReply.added hr, hs, hh⟩
  | escape id slot =>
    obtain ⟨hr, hs, hh⟩ := h.escape hnd id slot heap
    exact ⟨congrArg ScopeReply.escaped hr, hs, hh⟩
  | get id slot => exact ⟨congrArg ScopeReply.got (h.get hnd id slot), h, rfl⟩
  | references => exact ⟨congrArg ScopeReply.visited h.references, h, rfl⟩

/-- Every run shows the same, if it opens each scope under an id of its own. -/
theorem run (h : s.Shows c L) (calls : List ScopeCall) (heap : Heap)
    (hnd : (ScopeCall.opened calls ++ L.ids).Nodup) :
    (s.run heap calls).1 = (L.run c heap calls).1 ∧
      (s.run heap calls).2.1.Shows c (L.run c heap calls).2.1 ∧
      (s.run heap calls).2.2 = (L.run c heap calls).2.2 := by
  induction calls generalizing s L heap with
  | nil => exact ⟨rfl, h, rfl⟩
  | cons call rest ih =>
    obtain ⟨hr, hs, hh⟩ := h.call (List.nodup_append.1 hnd).2.1 call heap
    obtain ⟨hrs, hs', hh'⟩ := ih hs (s.call heap call).2.2
      ((Levels.moves_call c L heap call).nodup hnd)
    rw [hh] at hrs hs' hh'
    simp only [ScopeStack.run, Levels.run, hr, hh, hrs, hh', true_and, and_true]
    exact hs'

/-- Only one scope stack stands for given lists. -/
theorem unique {s' : ScopeStack} (h : s.Shows c L) (h' : s'.Shows c L) : s = s' := by
  obtain ⟨locals, frames⟩ := s
  obtain ⟨locals', frames'⟩ := s'
  obtain rfl : locals = locals' := h.stores.unique h'.stores
  obtain rfl : frames = frames' := h.frames_eq.trans h'.frames_eq.symm
  rfl

/-- The references come in the order of their addresses. -/
theorem references_increasing (h : s.Shows c L) :
    (s.references.map Prod.fst).Pairwise (· < ·) := by
  have hcap := h.fits
  rw [h.references, Levels.references, List.map_map, List.pairwise_map, List.pairwise_iff_getElem]
  intro i j hi hj hij
  rw [List.length_zipIdx] at hi hj
  simp only [List.getElem_zipIdx, Function.comp, Nat.zero_add]
  exact h.stores.valid.slotAt_lt_slotAt hij (by omega)

theorem map_snd_references (h : s.Shows c L) : s.references.map Prod.snd = L.objects := by
  rw [h.references, Levels.references, List.map_map]
  exact List.zipIdx_map_fst 0 _

/-- **Every slot is resolvable, through one scope only:** the one whose list holds it. -/
theorem get_iff (h : s.Shows c L) (hnd : L.ids.Nodup) {slot : SlotAddr} {x : Slot}
    (hx : s.locals.get? slot = some x) :
    ∃ k id o, slot = c.slotAt k ∧ x = .holding o .strong ∧ L.owner? k = some (id, o) ∧
      ∀ id' o', s.get id' slot = .ok o' ↔ id' = id ∧ o' = o := by
  obtain ⟨k, rfl, hk⟩ := h.stores.exists_of_get? hx
  rw [Levels.slots, List.getElem?_map] at hk
  obtain ⟨o, ho, rfl⟩ := Option.map_eq_some_iff.1 hk
  obtain ⟨hlt, rfl⟩ := List.getElem?_eq_some_iff.1 ho
  obtain ⟨id, hid⟩ := Levels.exists_owner? hlt
  have hcap := h.fits
  refine ⟨k, id, _, rfl, rfl, hid, fun id' o' => ?_⟩
  rw [h.get hnd, Levels.get_eq_ok_iff h.stores.valid hcap hnd]
  constructor
  · rintro ⟨k', hs, hk'⟩
    obtain rfl := h.stores.valid.slotAt_inj (by have := Levels.owner?_eq_some hk'; omega)
      (by omega) hs
    cases hid.symm.trans hk'
    exact ⟨rfl, rfl⟩
  · rintro ⟨rfl, rfl⟩
    exact ⟨k, rfl, hid⟩

/-- Without a scope there is no slot. -/
theorem size_eq_zero (h : s.Shows c L) (hf : s.frames = []) : s.size = 0 := by
  rw [h.frames_eq] at hf
  cases L with
  | nil => exact h.size_eq
  | cons l below => cases hf

end Shows

theorem run_append (s : ScopeStack) (heap : Heap) (xs ys : List ScopeCall) :
    (s.run heap (xs ++ ys)).2 = ((s.run heap xs).2.1.run (s.run heap xs).2.2 ys).2 := by
  induction xs generalizing s heap with
  | nil => rfl
  | cons x xs ih => exact ih _ _

theorem shows_of_ofConfig? (h : ofConfig? c = .ok s) : s.Shows c [] := by
  unfold ofConfig? at h
  split at h
  · cases h
  · next ha =>
    cases h
    exact ⟨Arena.stores_of_ofConfig? ha, rfl⟩

/-- Closing a scope puts the stack back to what it was when the scope was opened. -/
theorem leave_restores (hs : s.Shows c L) (heap : Heap) (id : ScopeId) (inner : List ScopeCall)
    (hnd : (ScopeCall.opened (.enter id :: inner) ++ L.ids).Nodup) {r : Nat × RootTransition}
    (hr : ((s.run heap (.enter id :: inner)).2.1.leave id (s.run heap (.enter id :: inner)).2.2).1
      = .ok r) :
    ((s.run heap (.enter id :: inner)).2.1.leave id (s.run heap (.enter id :: inner)).2.2).2.1
      = s := by
  obtain ⟨-, hshow, hheap⟩ := hs.run (.enter id :: inner) heap hnd
  have hsplit := hnd
  rw [Levels.opened_cons, List.append_assoc, List.nodup_append] at hsplit
  obtain ⟨-, -, hid⟩ := hsplit
  have hsince : Levels.Since id L (Levels.run c L heap (.enter id :: inner)).2.1 :=
    Levels.since_run heap (fun hm => hid id List.mem_cons_self id (List.mem_append_right _ hm) rfl)
      inner (fun hm => hid id List.mem_cons_self id (List.mem_append_left _ hm) rfl)
      (.inl ⟨[], [], rfl⟩)
  have hids := Levels.nodup_run c L heap (.enter id :: inner) [] (by rwa [List.append_nil])
  obtain ⟨hreply, hleft, -⟩ := hshow.leave id (s.run heap (.enter id :: inner)).2.2
  rw [hr] at hreply
  rw [Levels.leave_since hsince hids _ hreply.symm] at hleft
  exact hleft.unique hs

/-- **A scope stack refines a stack of lists:** on every run that opens each scope under an
id of its own it gives the answers and makes the releases that the lists call for.  What it
visits, in the order of addresses, is the concatenation of the lists; every slot resolves
through one open scope only, the one whose list holds it; without an open scope there is no
slot; and to close a scope is to have the stack back as it was when the scope was opened. -/
theorem run_refines_levels (hs : ofConfig? c = .ok s) (heap : Heap) (calls : List ScopeCall)
    (hids : (ScopeCall.opened calls).Nodup) :
    let after := s.run heap calls
    let lists := Levels.run c [] heap calls
    after.1 = lists.1 ∧ after.2.2 = lists.2.2 ∧ after.2.1.Shows c lists.2.1 ∧
    (after.2.1.references.map Prod.snd = lists.2.1.objects ∧
      (after.2.1.references.map Prod.fst).Pairwise (· < ·)) ∧
    (∀ slot x, after.2.1.locals.get? slot = some x →
      ∃ k id o, slot = c.slotAt k ∧ x = .holding o .strong ∧ lists.2.1.owner? k = some (id, o) ∧
        ∀ id' o', after.2.1.get id' slot = .ok o' ↔ id' = id ∧ o' = o) ∧
    (after.2.1.frames = [] → after.2.1.size = 0) ∧
    ∀ before id inner r, calls = before ++ .enter id :: inner →
      (after.2.1.leave id after.2.2).1 = .ok r →
        (after.2.1.leave id after.2.2).2.1 = (s.run heap before).2.1 := by
  intro after lists
  have hs := shows_of_ofConfig? hs
  obtain ⟨hreply, hshow, hheap⟩ := hs.run calls heap (by rwa [Levels.ids_nil, List.append_nil])
  have hnd := Levels.nodup_run c [] heap calls [] (by
    rwa [Levels.ids_nil, List.append_nil, List.append_nil])
  refine ⟨hreply, hheap, hshow, ⟨hshow.map_snd_references, hshow.references_increasing⟩,
    fun slot x hx => hshow.get_iff hnd hx, hshow.size_eq_zero, ?_⟩
  intro before id inner r hcalls hr
  subst hcalls
  obtain ⟨-, hbefore, -⟩ := hs.run before heap (by
    rw [Levels.ids_nil, List.append_nil]
    rw [ScopeCall.opened, List.filterMap_append] at hids
    exact (List.nodup_append.1 hids).1)
  have hinner := Levels.nodup_run c [] heap before (.enter id :: inner) (by
    rwa [Levels.ids_nil, List.append_nil])
  simp only [after, run_append] at hr ⊢
  exact leave_restores hbefore _ id inner hinner hr

/-- An escape across the edge of a slab: of two slots a slab, the inner scope holds the
last one of the first slab and the first one of the next. -/
theorem run_refines_levels_across_slabs :
    let calls : List ScopeCall := [.enter ⟨1⟩, .add ⟨0⟩, .enter ⟨2⟩, .add ⟨1⟩, .add ⟨2⟩,
      .escape ⟨2⟩ (.ofCounts 1 0)]
    ofConfig? ⟨2, 4⟩ = .ok ⟨⟨⟨2, 4⟩, #[]⟩, []⟩ ∧ (ScopeCall.opened calls).Nodup ∧
      (run ⟨⟨⟨2, 4⟩, #[]⟩, []⟩ {} calls).2.1.references.map Prod.snd = [⟨0⟩, ⟨2⟩] :=
  ⟨rfl, by decide, (run_refines_levels (c := ⟨2, 4⟩) rfl {} _ (by decide)).2.2.2.1.1⟩

end ScopeStack
end EngineHandles
