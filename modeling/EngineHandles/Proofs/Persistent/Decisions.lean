/-
# What a sweep does

A sweep asks the callbacks of its slots one after another (`Sweep.decisions`), and what
they decide is all that it does to the store: a slot whose callback revives it holds its
object strongly, any other slot of the sweep is emptied, none of them has a record any
more, and the rest of the store is as it was (`Decided`).  Nothing else calls a callback
(`Heap.weakCalls`).

It does not matter what the callbacks do to the heap.  Each slot that is still to be asked
keeps its content and its record, since only asking it and emptying it touch them
(`ask_asked`, `kept_clear`), and no slot is listed twice.
-/

import EngineHandles.Proofs.Persistent.Order
import Mathlib.Data.List.Nodup

namespace EngineHandles

/-- A callback that was called: what it was told, and what it decided. -/
structure Decision where
  call : WeakCall
  outcome : WeakOutcome
deriving DecidableEq

/-- The slot that a decision is about, and its object. -/
def Decision.about (d : Decision) : SlotAddr × ObjectId := (d.call.slot, d.call.object)

/-! ### Calls in the journal -/

/-- The call of a callback, if a moment is one. -/
def Moment.weakCall? : Moment → Option WeakCall
  | .weakCalled c => some c
  | .payloadDropped _ => none

namespace Heap

/-- The calls of weak callbacks, in order. -/
def weakCalls (h : Heap) : List WeakCall := h.journal.toList.filterMap Moment.weakCall?

@[simp] theorem weakCalls_record (h : Heap) (c : WeakCall) :
    (h.record (.weakCalled c)).weakCalls = h.weakCalls ++ [c] := by
  simp [weakCalls, record, Moment.weakCall?]

theorem weakCalls_letGo (h : Heap) (o : ObjectId) (k : RefKind) :
    (h.letGo o k).2.2.weakCalls = h.weakCalls := by
  rw [weakCalls, journal_letGo, List.filterMap_append]
  split <;> simp [weakCalls, Moment.weakCall?]

/-- Changing tallies calls no callback, whatever it destroys. -/
@[simp] theorem weakCalls_settle (ops : List TallyOp) (h : Heap) :
    (h.settle ops).weakCalls = h.weakCalls := by
  induction ops, h using settle_induction with
  | nil h => rfl
  | cons op rest h ih =>
    rw [settle_cons, ih]
    cases op with
    | release o k => exact h.weakCalls_letGo o k
    | retain o k => rfl
    | weaken o => rfl
    | strengthen o => rfl

@[simp] theorem weakCalls_release (h : Heap) (o : ObjectId) (k : RefKind) :
    (h.release o k).2.weakCalls = h.weakCalls :=
  (weakCalls_settle _ _).trans (h.weakCalls_letGo o k)

end Heap

/-! ### What a store keeps for an address -/

namespace PersistentStore

/-- The slot at an address, and the record kept for it. -/
def kept (s : PersistentStore) (addr : SlotAddr) : Option Slot × Option WeakRecord :=
  (s.slots.get? addr, s.record? addr)

variable {s : PersistentStore} {addr b : SlotAddr}

@[simp] theorem record?_forget_self (s : PersistentStore) (addr : SlotAddr) :
    (s.forget addr).record? addr = none := by
  simp [record?, forget]

theorem record?_forget_of_ne (hne : b ≠ addr) : (s.forget addr).record? b = s.record? b := by
  simp only [record?, forget, List.find?_filter]
  congr 2
  funext r
  by_cases h : r.1 = b
  · simp [h, hne]
  · simp [h]

@[simp] theorem record?_remember_self (s : PersistentStore) (addr : SlotAddr) (r : WeakRecord) :
    (s.remember addr r).record? addr = some r := by
  have hnone := s.record?_forget_self addr
  rw [record?, Option.map_eq_none_iff] at hnone
  simp [record?, remember, List.find?_append, hnone]

theorem record?_remember_of_ne (hne : b ≠ addr) (r : WeakRecord) :
    (s.remember addr r).record? b = s.record? b := by
  rw [← record?_forget_of_ne (s := s) hne]
  simp [record?, remember, List.find?_append, Ne.symm hne]

theorem kept_forget (s : PersistentStore) (addr b : SlotAddr) :
    (s.forget addr).kept b = if b = addr then (s.slots.get? b, none) else s.kept b := by
  split
  · next h => rw [h, kept, record?_forget_self]; rfl
  · next h => rw [kept, record?_forget_of_ne h]; rfl

theorem kept_write_of_ne (hne : b ≠ addr) (x : Slot) : (s.write addr x).kept b = s.kept b := by
  rw [kept, write, Arena.get?_write_of_ne hne]
  rfl

/-- Writing a slot and forgetting its record. -/
theorem kept_write_forget {y : Slot} (hy : s.slots.get? addr = some y) (x : Slot) (b : SlotAddr) :
    ((s.write addr x).forget addr).kept b = if b = addr then (some x, none) else s.kept b := by
  rw [kept_forget]
  split
  · next h =>
    rw [h, write, Arena.get?_write_self hy]
  · next h => exact kept_write_of_ne h x

end PersistentStore

/-! ### Decisions -/

/-- What decisions make of the slots that they are about, while the others stay as they
are: those revived hold their objects strongly, the others are emptied. -/
structure Decided (s s' : PersistentStore) (ds : List Decision) : Prop where
  revived : ∀ d ∈ ds, d.outcome = .revive →
    s'.kept d.call.slot = (some (.holding d.call.object .strong), none)
  released : ∀ d ∈ ds, d.outcome = .release → s'.kept d.call.slot = (some ⟨none, .weak⟩, none)
  others : ∀ addr, (∀ d ∈ ds, addr ≠ d.call.slot) → s'.kept addr = s.kept addr

/-- What asking for decisions makes of the slots: only a revival is carried out at once. -/
structure Asked (s s' : PersistentStore) (ds : List Decision) : Prop where
  revived : ∀ d ∈ ds, d.outcome = .revive →
    s'.kept d.call.slot = (some (.holding d.call.object .strong), none)
  others : ∀ addr, (∀ d ∈ ds, d.outcome = .revive → addr ≠ d.call.slot) →
    s'.kept addr = s.kept addr

/-- The decision is that of a callback, called with the parameter of its record. -/
def Decision.IsOf (d : Decision) (r : WeakRecord) : Prop :=
  d.call.param = r.param ∧ ∃ h : Heap,
    h.journal.back? = some (.weakCalled d.call) ∧ d.outcome = (r.callback d.call h).outcome

section

variable {s s' s'' : PersistentStore} {ds es : List Decision}

theorem Decided.nil (s : PersistentStore) : Decided s s [] :=
  ⟨nofun, nofun, fun _ _ => rfl⟩

theorem Asked.nil (s : PersistentStore) : Asked s s [] := ⟨nofun, fun _ _ => rfl⟩

/-- Records are forgotten, but none is changed. -/
theorem Decided.record?_eq (h : Decided s s' ds) {addr : SlotAddr} {r : WeakRecord}
    (hr : s'.record? addr = some r) : s.record? addr = some r := by
  by_cases ha : ∃ d ∈ ds, addr = d.call.slot
  · obtain ⟨d, hd, rfl⟩ := ha
    have hnone : s'.record? d.call.slot = none := by
      cases ho : d.outcome with
      | release => exact congrArg Prod.snd (h.released d hd ho)
      | revive => exact congrArg Prod.snd (h.revived d hd ho)
    rw [hnone] at hr
    cases hr
  · rw [← hr]
    exact (congrArg Prod.snd (h.others addr fun d hd he => ha ⟨d, hd, he⟩)).symm

theorem Asked.record?_eq (h : Asked s s' ds) {addr : SlotAddr} {r : WeakRecord}
    (hr : s'.record? addr = some r) : s.record? addr = some r := by
  by_cases ha : ∃ d ∈ ds, d.outcome = .revive ∧ addr = d.call.slot
  · obtain ⟨d, hd, ho, rfl⟩ := ha
    rw [show s'.record? d.call.slot = none from congrArg Prod.snd (h.revived d hd ho)] at hr
    cases hr
  · rw [← hr]
    exact (congrArg Prod.snd (h.others addr fun d hd ho he => ha ⟨d, hd, ho, he⟩)).symm

theorem Asked.append (h : Asked s s' ds) (h' : Asked s' s'' es)
    (hne : ∀ d ∈ ds, ∀ e ∈ es, d.call.slot ≠ e.call.slot) : Asked s s'' (ds ++ es) := by
  constructor
  · intro d hd ho
    rcases List.mem_append.1 hd with hd | hd
    · rw [h'.others _ fun e he _ => hne d hd e he, h.revived d hd ho]
    · exact h'.revived d hd ho
  · intro addr ha
    rw [h'.others addr fun e he => ha e (List.mem_append_right _ he),
      h.others addr fun d hd => ha d (List.mem_append_left _ hd)]

/-- Decisions about some slots, and then about others. -/
theorem Decided.append (h : Decided s s' ds) (h' : Decided s' s'' es)
    (hne : ∀ d ∈ ds, ∀ e ∈ es, d.call.slot ≠ e.call.slot) : Decided s s'' (ds ++ es) := by
  constructor
  · intro d hd ho
    rcases List.mem_append.1 hd with hd | hd
    · rw [h'.others _ (hne d hd), h.revived d hd ho]
    · exact h'.revived d hd ho
  · intro d hd ho
    rcases List.mem_append.1 hd with hd | hd
    · rw [h'.others _ (hne d hd), h.released d hd ho]
    · exact h'.released d hd ho
  · intro addr ha
    rw [h'.others addr fun e he => ha e (List.mem_append_right _ he),
      h.others addr fun d hd => ha d (List.mem_append_left _ hd)]

end

namespace Sweep

/-- What the callback of a slot decides, if there is one. -/
def decision? (w : Sweep) (o : ObjectId) (addr : SlotAddr) : Option Decision :=
  (w.store.record? addr).map fun r => ⟨w.callOf o addr r, (w.replyOf o addr r).outcome⟩

/-- What the callbacks of slots decide, one after another. -/
def decideAll (w : Sweep) (o : ObjectId) : List SlotAddr → List Decision
  | [] => []
  | addr :: rest => (w.decision? o addr).toList ++ (w.ask o addr).2.decideAll o rest

/-- What the callbacks for objects decide, one object after another. -/
def decisions (w : Sweep) : List Doomed → List Decision
  | [] => []
  | d :: rest => w.decideAll d.object d.slots ++ (w.judge d).decisions rest

variable {w : Sweep} {o : ObjectId} {addr : SlotAddr}

/-- **Asking a slot** that holds its object weakly and has a record: the callback is called,
and the slot is left for later or revived. -/
theorem ask_asked {r : WeakRecord}
    (hk : w.store.kept addr = (some (.holding o .weak), some r)) :
    ∃ d : Decision, w.decision? o addr = some d ∧ d.about = (addr, o) ∧ d.IsOf r ∧
      (w.ask o addr).1 = (d.outcome == .release) ∧
      Asked w.store (w.ask o addr).2.store [d] ∧
      (w.ask o addr).2.heap.weakCalls = w.heap.weakCalls ++ [d.call] := by
  obtain ⟨hx, hr⟩ := Prod.mk.inj hk
  refine ⟨⟨w.callOf o addr r, (w.replyOf o addr r).outcome⟩, ?_, rfl,
    ⟨rfl, w.heapOf o addr r, ?_, rfl⟩, ?_⟩
  · rw [decision?, hr]
    rfl
  · simp [heapOf, Heap.record]
  · rw [ask_of_some hr]
    cases ho : (w.replyOf o addr r).outcome with
    | release =>
      refine ⟨rfl, ⟨fun d hd hrev => ?_, fun _ _ => rfl⟩, ?_⟩
      · rw [List.mem_singleton.1 hd] at hrev
        cases hrev
      · simp [heapOf]
    | revive =>
      dsimp only
      rw [revive, hx]
      have hkept := PersistentStore.kept_write_forget hx (Slot.holding o .strong)
      refine ⟨rfl, ⟨fun d hd _ => ?_, fun b hb => ?_⟩, ?_⟩
      · rw [List.mem_singleton.1 hd]
        exact (hkept addr).trans (if_pos rfl)
      · exact (hkept b).trans (if_neg (hb _ (List.mem_singleton_self _) rfl))
      · show ((w.heapOf o addr r).settle _).weakCalls = _
        simp [heapOf]

/-- Asking a slot leaves the others as they were. -/
theorem kept_ask_of_ne {b : SlotAddr} {r : WeakRecord}
    (hk : w.store.kept addr = (some (.holding o .weak), some r)) (hne : b ≠ addr) :
    (w.ask o addr).2.store.kept b = w.store.kept b := by
  obtain ⟨d, -, habout, -, -, hasked, -⟩ := ask_asked hk
  refine hasked.others b fun e he _ => ?_
  rwa [List.mem_singleton.1 he, show d.call.slot = addr from congrArg Prod.fst habout]

/-- The slots behind can still be asked. -/
theorem held_ask {rest : List SlotAddr} (hne : addr ∉ rest)
    (hk : ∀ a ∈ addr :: rest, ∃ r, w.store.kept a = (some (.holding o .weak), some r)) :
    ∀ a ∈ rest, ∃ r, (w.ask o addr).2.store.kept a = (some (.holding o .weak), some r) := by
  intro a ha
  obtain ⟨r, hr⟩ := hk addr List.mem_cons_self
  rw [kept_ask_of_ne hr fun he => hne (he ▸ ha)]
  exact hk a (List.mem_cons_of_mem _ ha)

/-- The slots that are about to be emptied: those whose callbacks let them go. -/
def letGo (ds : List Decision) : List SlotAddr :=
  (ds.filter fun d => d.outcome == .release).map fun d => d.call.slot

theorem mem_letGo {ds : List Decision} :
    addr ∈ letGo ds ↔ ∃ d ∈ ds, d.outcome = .release ∧ d.call.slot = addr := by
  simp [letGo, and_assoc]

/-- A slot is let go by each decision that does not revive it. -/
theorem length_eq_add_letGo (ds : List Decision) :
    ds.length = (ds.countP fun d => d.outcome == .revive) + (letGo ds).length := by
  have hsplit : ds.length = ds.countP (fun d => d.outcome == .revive) + _ :=
    List.length_eq_countP_add_countP _
  rw [hsplit, letGo, List.length_map, ← List.countP_eq_length_filter]
  congr 1
  exact List.countP_congr fun d _ => by cases d.outcome <;> decide

theorem slot_mem {ds : List Decision} {ps : List (SlotAddr × ObjectId)}
    (h : ds.map Decision.about = ps) {d : Decision} (hd : d ∈ ds) :
    d.call.slot ∈ ps.map Prod.fst := by
  rw [← h, List.map_map]
  exact List.mem_map_of_mem (f := Prod.fst ∘ Decision.about) hd

/-- Decisions about the slots of one object, in order. -/
theorem slots_decideAll {ds : List Decision} {addrs : List SlotAddr}
    (h : ds.map Decision.about = addrs.map fun a => (a, o)) :
    (ds.map fun d => d.call.slot) = addrs := by
  have := congrArg (List.map Prod.fst) h
  rwa [List.map_map, List.map_map, List.map_id''] at this
  exact fun _ => rfl

theorem object_decideAll {ds : List Decision} {addrs : List SlotAddr}
    (h : ds.map Decision.about = addrs.map fun a => (a, o)) : ∀ d ∈ ds, d.call.object = o := by
  intro d hd
  have hmem := List.mem_map_of_mem (f := Decision.about) hd
  rw [h] at hmem
  obtain ⟨a, -, ha⟩ := List.mem_map.1 hmem
  exact (congrArg Prod.snd ha).symm

/-- **Asking the slots of an object** asks each of them once, in order. -/
theorem askAll_asked {addrs : List SlotAddr} (hnd : addrs.Nodup)
    (hk : ∀ a ∈ addrs, ∃ r, w.store.kept a = (some (.holding o .weak), some r)) :
    let ds := w.decideAll o addrs
    (ds.map Decision.about) = addrs.map (fun a => (a, o)) ∧
      (∀ d ∈ ds, ∃ r, w.store.record? d.call.slot = some r ∧ d.IsOf r) ∧
      (w.askAll o addrs).1 = letGo ds ∧
      Asked w.store (w.askAll o addrs).2.store ds ∧
      (w.askAll o addrs).2.heap.weakCalls = w.heap.weakCalls ++ ds.map Decision.call := by
  induction addrs generalizing w with
  | nil => exact ⟨rfl, nofun, rfl, .nil _, by simp [askAll, decideAll]⟩
  | cons addr rest ih =>
    rw [List.nodup_cons] at hnd
    obtain ⟨r, hr⟩ := hk addr List.mem_cons_self
    obtain ⟨d, hd, habout, hof, hgo, hasked, hcalls⟩ := ask_asked hr
    have hkept : ∀ a ∈ rest, (w.ask o addr).2.store.kept a = w.store.kept a := fun a ha =>
      kept_ask_of_ne hr fun he => hnd.1 (he ▸ ha)
    obtain ⟨habout', hof', hgo', hasked', hcalls'⟩ := ih hnd.2 (held_ask hnd.1 hk)
    have hrest : ∀ e ∈ (w.ask o addr).2.decideAll o rest, e.call.slot ∈ rest := fun e he => by
      have := slot_mem habout' he
      rwa [List.map_map, List.map_id''] at this
      exact fun _ => rfl
    have hslot : d.call.slot = addr := congrArg Prod.fst habout
    simp only [decideAll, hd, Option.toList_some, List.singleton_append]
    refine ⟨?_, ?_, ?_, ?_, ?_⟩
    · rw [List.map_cons, habout, habout', List.map_cons]
    · intro e he
      rcases List.mem_cons.1 he with rfl | he
      · exact ⟨r, by rw [hslot]; exact congrArg Prod.snd hr, hof⟩
      · obtain ⟨r', hr', hof'⟩ := hof' e he
        exact ⟨r', (congrArg Prod.snd (hkept _ (hrest e he))).symm.trans hr', hof'⟩
    · rw [askAll, letGo, List.filter_cons]
      dsimp only
      rw [hgo, hgo', ← hslot]
      split <;> rfl
    · rw [askAll]
      refine hasked.append hasked' fun d' hd' e he => ?_
      rw [List.mem_singleton.1 hd', hslot]
      rintro rfl
      exact hnd.1 (hrest e he)
    · rw [askAll, List.map_cons]
      dsimp only
      rw [hcalls', hcalls, List.append_assoc, List.singleton_append]

/-- Emptying a slot. -/
theorem kept_clear (w : Sweep) (addr b : SlotAddr) :
    (w.clear addr).store.kept b
      = if b = addr then ((w.store.slots.get? b).map Slot.emptied, none) else w.store.kept b := by
  cases hx : (w.store.forget addr).slots.get? addr with
  | none =>
    simp only [Sweep.clear, hx]
    rw [PersistentStore.kept_forget]
    split
    · next h => rw [h, show w.store.slots.get? addr = none from hx]; rfl
    · rfl
  | some x =>
    have hx' : w.store.slots.get? addr = some x := hx
    simp only [Sweep.clear, hx]
    refine (PersistentStore.kept_write_forget hx' (x.release w.heap).2.1 b).trans ?_
    split
    · next h =>
      rw [h, hx', Slot.release_emptied]
      rfl
    · rfl

theorem get?_clear_of_ne {b : SlotAddr} (hne : b ≠ addr) :
    (w.clear addr).store.slots.get? b = w.store.slots.get? b := by
  have hkept := w.kept_clear addr b
  rw [if_neg hne] at hkept
  exact congrArg Prod.fst hkept

/-- Emptying slots. -/
theorem kept_clearAll (w : Sweep) (addrs : List SlotAddr) (b : SlotAddr) :
    (addrs.foldl Sweep.clear w).store.kept b
      = if b ∈ addrs then ((w.store.slots.get? b).map Slot.emptied, none)
        else w.store.kept b := by
  induction addrs generalizing w with
  | nil => simp
  | cons addr rest ih =>
    rw [List.foldl_cons, ih, show (w.clear addr).store.slots.get? b = _ from
      congrArg Prod.fst (w.kept_clear addr b), kept_clear]
    by_cases h : b = addr
    · subst h
      rw [if_pos rfl, Option.map_map, show Slot.emptied ∘ Slot.emptied = Slot.emptied from rfl,
        ite_self, if_pos List.mem_cons_self]
    · simp [h, PersistentStore.kept]

theorem weakCalls_clear (w : Sweep) (addr : SlotAddr) :
    (w.clear addr).heap.weakCalls = w.heap.weakCalls := by
  cases hx : (w.store.forget addr).slots.get? addr with
  | none => simp only [Sweep.clear, hx]
  | some x =>
    simp only [Sweep.clear, hx]
    cases ho : x.object with
    | none => simp [Slot.release, ho]
    | some o => simp [Slot.release, ho]

theorem weakCalls_clearAll (w : Sweep) (addrs : List SlotAddr) :
    (addrs.foldl Sweep.clear w).heap.weakCalls = w.heap.weakCalls := by
  induction addrs generalizing w with
  | nil => rfl
  | cons addr rest ih => rw [List.foldl_cons, ih, weakCalls_clear]

/-- **The slots that are let go** are as they were before their object was asked. -/
theorem kept_letGo {addrs : List SlotAddr} (hnd : addrs.Nodup)
    (hk : ∀ a ∈ addrs, ∃ r, w.store.kept a = (some (.holding o .weak), some r)) :
    (w.askAll o addrs).1.Sublist addrs ∧
      ∀ a ∈ (w.askAll o addrs).1, (w.askAll o addrs).2.store.kept a = w.store.kept a := by
  obtain ⟨habout, -, hgo, hasked, -⟩ := askAll_asked hnd hk
  have hslots := slots_decideAll habout
  rw [hgo]
  constructor
  · have hsub : (letGo (w.decideAll o addrs)).Sublist _ := List.filter_sublist.map _
    rwa [hslots] at hsub
  · rintro a ha
    obtain ⟨e, he, ho, rfl⟩ := mem_letGo.1 ha
    -- a slot is not both revived and let go, since no two decisions are about one slot
    refine hasked.others _ fun e' he' ho' heq => ?_
    obtain rfl : e = e' := List.inj_on_of_nodup_map (by rwa [hslots]) he he' heq
    rw [ho] at ho'
    cases ho'

/-- **Deciding an object** carries out what the callbacks of its slots decide. -/
theorem judge_decided {d : Doomed} (hnd : d.slots.Nodup)
    (hk : ∀ a ∈ d.slots, ∃ r, w.store.kept a = (some (.holding d.object .weak), some r)) :
    let ds := w.decideAll d.object d.slots
    (ds.map Decision.about) = d.slots.map (fun a => (a, d.object)) ∧
      (∀ e ∈ ds, ∃ r, w.store.record? e.call.slot = some r ∧ e.IsOf r) ∧
      Decided w.store (w.judge d).store ds ∧
      (w.judge d).heap.weakCalls = w.heap.weakCalls ++ ds.map Decision.call := by
  intro ds
  obtain ⟨habout, hof, hgo, hasked, hcalls⟩ := askAll_asked hnd hk
  have hslots := slots_decideAll habout
  have hone : ∀ e ∈ ds, ∀ e' ∈ ds, e.call.slot = e'.call.slot → e = e' := fun e he e' he' =>
    List.inj_on_of_nodup_map (by rwa [hslots]) he he'
  have hjudge : ∀ b, (w.judge d).store.kept b = _ := kept_clearAll _ _
  refine ⟨habout, hof, ⟨fun e he ho => ?_, fun e he ho => ?_, fun addr ha => ?_⟩, ?_⟩
  · rw [hjudge, hgo, if_neg, hasked.revived e he ho]
    rw [mem_letGo]
    rintro ⟨e', he', ho', heq⟩
    rw [hone e' he' e he heq, ho] at ho'
    cases ho'
  · have hmem : e.call.slot ∈ (w.askAll d.object d.slots).1 := by
      rw [hgo]
      exact mem_letGo.2 ⟨e, he, ho, rfl⟩
    obtain ⟨r, hr⟩ := hk e.call.slot (by rw [← hslots]; exact List.mem_map_of_mem he)
    rw [hjudge, if_pos hmem,
      show (w.askAll d.object d.slots).2.store.slots.get? e.call.slot = _ from
        congrArg Prod.fst (((kept_letGo hnd hk).2 _ hmem).trans hr)]
    rfl
  · rw [hjudge, hgo, if_neg, hasked.others addr fun e he _ => ha e he]
    rw [mem_letGo]
    rintro ⟨e, he, -, heq⟩
    exact ha e he heq.symm
  · rw [judge, weakCalls_clearAll, hcalls]

/-- Whether objects can be decided: their slots are different ones, each of which holds its
object weakly and has a record. -/
structure Ready (w : Sweep) (ds : List Doomed) : Prop where
  nodup : ((Doomed.pairs ds).map Prod.fst).Nodup
  held : ∀ a o, (a, o) ∈ Doomed.pairs ds →
    ∃ r, w.store.kept a = (some (.holding o .weak), some r)

namespace Ready

variable {d : Doomed} {ds : List Doomed}

theorem head (hr : w.Ready (d :: ds)) :
    d.slots.Nodup ∧ ∀ a ∈ d.slots, ∃ r, w.store.kept a = (some (.holding d.object .weak), some r) := by
  obtain ⟨hnd, hheld⟩ := hr
  rw [Doomed.pairs_cons] at hnd hheld
  rw [List.map_append, Doomed.map_fst_slots, List.nodup_append] at hnd
  exact ⟨hnd.1, fun a ha => hheld a d.object (List.mem_append_left _ (List.mem_map_of_mem ha))⟩

/-- The slots of an object are none of those behind. -/
theorem slot_ne (hr : w.Ready (d :: ds)) :
    ∀ a ∈ d.slots, ∀ b ∈ (Doomed.pairs ds).map Prod.fst, a ≠ b := by
  have hnd := hr.nodup
  rw [Doomed.pairs_cons, List.map_append, Doomed.map_fst_slots, List.nodup_append] at hnd
  exact hnd.2.2

/-- To decide an object leaves the slots behind as they were. -/
theorem kept_judge (hr : w.Ready (d :: ds)) {a : SlotAddr}
    (ha : a ∈ (Doomed.pairs ds).map Prod.fst) : (w.judge d).store.kept a = w.store.kept a := by
  obtain ⟨habout, -, hdecided, -⟩ := judge_decided hr.head.1 hr.head.2
  refine hdecided.others a fun e he heq => hr.slot_ne e.call.slot ?_ a ha heq.symm
  have := slot_mem habout he
  rwa [Doomed.map_fst_slots] at this

/-- **The objects behind can still be decided,** whatever happens to the first one. -/
theorem judge (hr : w.Ready (d :: ds)) : (w.judge d).Ready ds := by
  have hnd := hr.nodup
  rw [Doomed.pairs_cons, List.map_append, Doomed.map_fst_slots, List.nodup_append] at hnd
  refine ⟨hnd.2.1, fun a o ha => ?_⟩
  rw [hr.kept_judge (List.mem_map_of_mem (f := Prod.fst) ha)]
  exact hr.held a o (List.mem_append_right _ ha)

end Ready

/-- **Deciding objects** carries out what the callbacks of their slots decide. -/
theorem judgeAll_decided {ds : List Doomed} (hr : w.Ready ds) :
    (w.decisions ds).map Decision.about = Doomed.pairs ds ∧
      (∀ e ∈ w.decisions ds, ∃ r, w.store.record? e.call.slot = some r ∧ e.IsOf r) ∧
      Decided w.store (ds.foldl Sweep.judge w).store (w.decisions ds) ∧
      (ds.foldl Sweep.judge w).heap.weakCalls
        = w.heap.weakCalls ++ (w.decisions ds).map Decision.call := by
  induction ds generalizing w with
  | nil => exact ⟨rfl, nofun, .nil _, by simp [decisions]⟩
  | cons d ds ih =>
    obtain ⟨habout, hof, hdecided, hcalls⟩ := judge_decided hr.head.1 hr.head.2
    obtain ⟨habout', hof', hdecided', hcalls'⟩ := ih hr.judge
    have hlater : ∀ e ∈ (w.judge d).decisions ds, e.call.slot ∈ (Doomed.pairs ds).map Prod.fst :=
      fun e he => slot_mem habout' he
    rw [decisions]
    refine ⟨?_, fun e he => ?_, ?_, ?_⟩
    · rw [List.map_append, habout, habout', Doomed.pairs_cons]
    · rcases List.mem_append.1 he with he | he
      · exact hof e he
      · obtain ⟨r, hr', hof⟩ := hof' e he
        exact ⟨r, (congrArg Prod.snd (hr.kept_judge (hlater e he))).symm.trans hr', hof⟩
    · refine hdecided.append hdecided' fun e he e' he' => hr.slot_ne _ ?_ _ (hlater e' he')
      have := slot_mem habout he
      rwa [Doomed.map_fst_slots] at this
    · rw [List.foldl_cons, hcalls', hcalls, List.append_assoc, List.map_append]

/-! ### The arena of a sweep

All that a sweep does to the arena, whatever it finds, is to write slots that there are
with the objects that they have or with none. -/

section

variable {P : Arena → Prop} (hP : ∀ {a : Arena} {addr : SlotAddr} {x : Slot}, P a →
  a.get? addr = some x → ∀ y : Slot, y.object = x.object ∨ y.object = none → P (a.write addr y))

include hP

theorem slots_ask (hw : P w.store.slots) (o : ObjectId) (addr : SlotAddr) :
    P (w.ask o addr).2.store.slots := by
  cases hr : w.store.record? addr with
  | none => rwa [ask_of_none hr]
  | some r =>
    rw [ask_of_some hr]
    cases (w.replyOf o addr r).outcome with
    | release => exact hw
    | revive =>
      dsimp only [revive]
      cases hx : w.store.slots.get? addr with
      | none => exact hw
      | some x => exact hP hw hx _ (.inl (Slot.object_makeStrong x _))

theorem slots_askAll (hw : P w.store.slots) (o : ObjectId) (addrs : List SlotAddr) :
    P (w.askAll o addrs).2.store.slots := by
  induction addrs generalizing w with
  | nil => exact hw
  | cons addr rest ih => exact ih (slots_ask hP hw o addr)

theorem slots_clear (hw : P w.store.slots) (addr : SlotAddr) : P (w.clear addr).store.slots := by
  unfold Sweep.clear
  dsimp only
  cases hx : (w.store.forget addr).slots.get? addr with
  | none => exact hw
  | some x => exact hP (a := w.store.slots) hw hx _ (.inr (by rw [Slot.release_emptied]; rfl))

/-- **What writing slots leaves true of the arena** is true after the sweep. -/
theorem slots_judgeAll (hw : P w.store.slots) (ds : List Doomed) :
    P (ds.foldl Sweep.judge w).store.slots := by
  induction ds generalizing w with
  | nil => exact hw
  | cons d ds ih =>
    refine ih ?_
    -- the slots that are let go are cleared one after another
    have hclear : ∀ (addrs : List SlotAddr) (w' : Sweep), P w'.store.slots →
        P (addrs.foldl Sweep.clear w').store.slots := fun addrs => by
      induction addrs with
      | nil => exact fun _ hw' => hw'
      | cons addr rest ih' => exact fun w' hw' => ih' _ (slots_clear hP hw' addr)
    exact hclear _ _ (slots_askAll hP hw d.object d.slots)

end

theorem stored_judgeAll (hs : w.store.IsStored) (ds : List Doomed) :
    (ds.foldl Sweep.judge w).store.IsStored := by
  refine slots_judgeAll (P := fun a => ∃ c xs, a.Stores c xs) ?_ hs ds
  rintro a addr x ⟨c, xs, hs⟩ hx y -
  obtain ⟨k, R, -, -, hw⟩ := hs.write hx
  exact ⟨c, _, (hw y).1⟩

end Sweep

/-- What the callbacks of a sweep decide. -/
def PersistentStore.decisions (s : PersistentStore) (h : Heap) : List Decision :=
  Sweep.decisions { store := s, heap := h } (s.doomed h)

end EngineHandles
