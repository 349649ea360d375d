/-
# The fates of the objects that a sweep decides

A sweep decides the objects that only weak references reach.  The callbacks of an object
turn the references of some of its slots into strong ones (`Sweep.Still.askAll`), and the
others are given up.  The object is destroyed if that was all there was, that is, if none was
revived and no weak reference is held elsewhere (`Dies`).

If no payload owns a reference to an object that is to be decided, what happens to the others
leaves it alone (`Heap.Spares`): its callbacks and slots find the tallies of the beginning, and
the sweep of several objects is that of one after another (`Sweep.Fates.cons`).
-/

import EngineHandles.Proofs.Heap.Cascade
import EngineHandles.Proofs.Persistent.Records

namespace EngineHandles

/-! ### Decisions about one object -/

/-- The number of slots of an object that are revived. -/
def revivals (es : List Decision) (o : ObjectId) : Nat :=
  es.countP fun e => e.call.object == o && e.outcome == .revive

/-- The moments at which the callbacks of an object are called. -/
def callsFor (es : List Decision) (o : ObjectId) : List Moment :=
  (es.filter fun e => e.call.object == o).map fun e => .weakCalled e.call

section

variable {es es' : List Decision} {o : ObjectId}

@[simp] theorem revivals_append (es es' : List Decision) (o : ObjectId) :
    revivals (es ++ es') o = revivals es o + revivals es' o := List.countP_append

@[simp] theorem callsFor_append (es es' : List Decision) (o : ObjectId) :
    callsFor (es ++ es') o = callsFor es o ++ callsFor es' o := by
  rw [callsFor, List.filter_append, List.map_append, callsFor, callsFor]

theorem revivals_of_ne (h : ∀ e ∈ es, e.call.object ≠ o) : revivals es o = 0 := by
  rw [revivals, List.countP_eq_zero]
  intro e he
  simp [h e he]

theorem callsFor_of_ne (h : ∀ e ∈ es, e.call.object ≠ o) : callsFor es o = [] := by
  rw [callsFor, List.map_eq_nil_iff, List.filter_eq_nil_iff]
  intro e he
  simp [h e he]

theorem callsFor_of_eq (h : ∀ e ∈ es, e.call.object = o) :
    callsFor es o = es.map fun e => .weakCalled e.call := by
  rw [callsFor, List.filter_eq_self.2 fun e he => by simp [h e he]]

/-- Each slot of an object is revived or let go. -/
theorem length_letGo (h : ∀ e ∈ es, e.call.object = o) :
    (Sweep.letGo es).length + revivals es o = es.length := by
  rw [Sweep.length_eq_add_letGo es, Nat.add_comm]
  congr 1
  exact List.countP_congr fun e he => by simp [h e he]

end

namespace Sweep

variable {w : Sweep} {o : ObjectId} {addr : SlotAddr} {addrs : List SlotAddr}

/-- Whether no callback changes the heap. -/
def Still (w : Sweep) : Prop := ∀ addr r, w.store.record? addr = some r →
  ∀ (c : WeakCall) (h : Heap), h.settle (r.callback c h).effects = h

theorem Still.mono {w' : Sweep} (hq : w.Still)
    (h : ∀ addr r, w'.store.record? addr = some r → w.store.record? addr = some r) : w'.Still :=
  fun addr r hr => hq addr r (h addr r hr)

/-! ### Asking -/

/-- What it does to ask the slots of an object: as many of its references as are revived
become strong, and the calls are told. -/
structure Moved (o : ObjectId) (w w' : Sweep) (es : List Decision) : Prop where
  recounts : Heap.Recounts o w.heap w'.heap
  strong_eq : (w'.heap.cell o).tally.strong.toNat
    = (w.heap.cell o).tally.strong.toNat + revivals es o
  weak_eq : (w'.heap.cell o).tally.weak.toNat + revivals es o = (w.heap.cell o).tally.weak.toNat
  journal : w'.heap.journal.toList
    = w.heap.journal.toList ++ es.map fun e => .weakCalled e.call
  destroyed_eq : w'.report.destroyed = w.report.destroyed

theorem Moved.nil (o : ObjectId) (w : Sweep) : Moved o w w [] :=
  ⟨.refl o w.heap, rfl, rfl, (List.append_nil _).symm, rfl⟩

theorem Moved.append {w' w'' : Sweep} {es es' : List Decision} (h : Moved o w w' es)
    (h' : Moved o w' w'' es') : Moved o w w'' (es ++ es') := by
  refine ⟨h.recounts.trans h'.recounts, ?_, ?_, ?_, h'.destroyed_eq.trans h.destroyed_eq⟩
  · rw [h'.strong_eq, h.strong_eq, revivals_append, Nat.add_assoc]
  · have := h.weak_eq
    have := h'.weak_eq
    rw [revivals_append]
    omega
  · rw [h'.journal, h.journal, List.append_assoc, List.map_append]

/-- **Asking one slot** moves its reference to the strong tally, or leaves it. -/
theorem Still.ask {r : WeakRecord} (hq : w.Still)
    (hk : w.store.kept addr = (some (.holding o .weak), some r))
    (hweak : 0 < (w.heap.cell o).tally.weak.toNat)
    (hstrong : (w.heap.cell o).tally.strong.toNat + 1 < 2 ^ 32) :
    Moved o w (w.ask o addr).2 (w.decision? o addr).toList := by
  obtain ⟨hx, hr⟩ := Prod.mk.inj hk
  have hsettle : (w.heapOf o addr r).settle (w.replyOf o addr r).effects = w.heapOf o addr r :=
    hq addr r hr _ _
  have hrecord : Heap.Recounts o w.heap (w.heapOf o addr r) := .record w.heap _ o
  have hjournal : (w.heapOf o addr r).journal.toList
      = w.heap.journal.toList ++ [.weakCalled (w.callOf o addr r)] := Array.toList_push
  rw [decision?, hr, ask_of_some hr, hsettle]
  cases ho : (w.replyOf o addr r).outcome with
  | release =>
    have hnone : revivals [⟨w.callOf o addr r, .release⟩] o = 0 := by simp [revivals]
    simp only [Option.map_some, Option.toList_some, ho]
    exact ⟨hrecord, by rw [hnone]; rfl, by rw [hnone]; rfl, hjournal, rfl⟩
  | revive =>
    have hone : revivals [⟨w.callOf o addr r, .revive⟩] o = 1 := by simp [revivals, callOf]
    obtain ⟨hstrengthen, hs, hw⟩ := Heap.strengthen_recounts (h := w.heapOf o addr r) hweak hstrong
    simp only [Option.map_some, Option.toList_some, ho]
    rw [revive, hx]
    exact ⟨hrecord.trans hstrengthen, by rw [hone]; exact hs, by rw [hone]; exact hw, hjournal, rfl⟩

/-- **Asking the slots of an object** moves the references that are revived. -/
theorem Still.askAll (hq : w.Still) (hnd : addrs.Nodup)
    (hk : ∀ a ∈ addrs, ∃ r, w.store.kept a = (some (.holding o .weak), some r))
    (hweak : addrs.length ≤ (w.heap.cell o).tally.weak.toNat)
    (hstrong : (w.heap.cell o).tally.strong.toNat + addrs.length < 2 ^ 32) :
    Moved o w (w.askAll o addrs).2 (w.decideAll o addrs) := by
  induction addrs generalizing w with
  | nil => exact .nil o w
  | cons addr rest ih =>
    rw [List.nodup_cons] at hnd
    rw [List.length_cons] at hweak hstrong
    obtain ⟨r, hr⟩ := hk addr List.mem_cons_self
    obtain ⟨_, -, -, -, -, hasked, -⟩ := ask_asked hr
    have hfirst := hq.ask hr (by omega) (by omega)
    have hle : revivals (w.decision? o addr).toList o ≤ 1 :=
      List.countP_le_length.trans (by cases w.decision? o addr <;> simp)
    have hs := hfirst.strong_eq
    have hw := hfirst.weak_eq
    exact hfirst.append (ih (hq.mono fun _ _ => hasked.record?_eq) hnd.2 (held_ask hnd.1 hk)
      (by omega) (by omega))

/-! ### Emptying -/

/-- Emptying a slot releases its reference. -/
theorem clear_of_holding (hx : w.store.slots.get? addr = some (.holding o .weak)) :
    (w.clear addr).heap = (w.heap.release o .weak).2 ∧
      (w.clear addr).report.destroyed
        = w.report.destroyed + if (w.heap.release o .weak).1 then 1 else 0 := by
  have hx' : (w.store.forget addr).slots.get? addr = some (.holding o .weak) := hx
  simp only [Sweep.clear, hx']
  exact ⟨rfl, rfl⟩

/-- **Emptying slots while other references are left** gives up theirs. -/
theorem clearAll_alive (hnd : addrs.Nodup)
    (hx : ∀ a ∈ addrs, w.store.slots.get? a = some (.holding o .weak))
    (hweak : addrs.length ≤ (w.heap.cell o).tally.weak.toNat)
    (hmore : addrs.length
      < (w.heap.cell o).tally.strong.toNat + (w.heap.cell o).tally.weak.toNat) :
    let w' := addrs.foldl Sweep.clear w
    Heap.Recounts o w.heap w'.heap ∧
      (w'.heap.cell o).tally.strong = (w.heap.cell o).tally.strong ∧
      (w'.heap.cell o).tally.weak.toNat + addrs.length = (w.heap.cell o).tally.weak.toNat ∧
      w'.heap.journal = w.heap.journal ∧ w'.report.destroyed = w.report.destroyed := by
  induction addrs generalizing w with
  | nil => exact ⟨.refl o w.heap, rfl, rfl, rfl, rfl⟩
  | cons addr rest ih =>
    rw [List.nodup_cons] at hnd
    rw [List.length_cons] at hweak hmore
    obtain ⟨hheap, hdestroyed⟩ := clear_of_holding (hx addr List.mem_cons_self)
    obtain ⟨hfalse, hrecounts, hs, hw, hj⟩ :=
      Heap.release_weak_alive (h := w.heap) (o := o) (by omega) (by omega)
    rw [← hheap] at hrecounts hs hw hj
    rw [hfalse] at hdestroyed
    obtain ⟨hrecounts', hs', hw', hj', hdestroyed'⟩ := ih (w := w.clear addr) hnd.2
      (fun a ha => by
        have hne : a ≠ addr := fun he => hnd.1 (he ▸ ha)
        rw [get?_clear_of_ne hne]
        exact hx a (List.mem_cons_of_mem _ ha))
      (by omega) (by rw [hs]; omega)
    refine ⟨hrecounts.trans hrecounts', hs'.trans hs, ?_, hj'.trans hj, hdestroyed'.trans hdestroyed⟩
    rw [List.foldl_cons, List.length_cons]
    omega

/-- **Emptying the slots that hold the last references** destroys the object, with the last
of them. -/
theorem clearAll_dying (hnd : addrs.Nodup) (hne : addrs ≠ [])
    (hx : ∀ a ∈ addrs, w.store.slots.get? a = some (.holding o .weak))
    (hs : w.heap.OwnsStrong) (ho : w.heap.owned o .strong = 0)
    (hd : (w.heap.cell o).isDestroyed = false)
    (hstrong : (w.heap.cell o).tally.strong.toNat = 0)
    (hweak : (w.heap.cell o).tally.weak.toNat = addrs.length) :
    let w' := addrs.foldl Sweep.clear w
    w'.heap.OwnsStrong ∧
      (∀ x, w.heap.owned x .strong = 0 → w'.heap.owned x .strong = 0 ∧
        (x ≠ o → w'.heap.cell x = w.heap.cell x)) ∧
      ((w'.heap.cell o).tally.strong.toNat = 0 ∧ (w'.heap.cell o).tally.weak.toNat = 0 ∧
        (w'.heap.cell o).isDestroyed = true) ∧
      (∃ later, w'.heap.journal.toList = w.heap.journal.toList ++ .payloadDropped o :: later ∧
        ∀ m ∈ later, ∃ x, m = .payloadDropped x ∧ w.heap.owned x .strong ≠ 0) ∧
      w'.report.destroyed = w.report.destroyed + 1 := by
  obtain ⟨init, last, rfl⟩ := (List.eq_nil_or_concat' addrs).resolve_left hne
  rw [List.nodup_append] at hnd
  rw [List.length_append, List.length_singleton] at hweak
  have hlast : last ∉ init := fun hmem => hnd.2.2 last hmem last (List.mem_singleton_self _) rfl
  obtain ⟨hrecounts, hs₁, hw₁, hj₁, hdestroyed₁⟩ := clearAll_alive hnd.1
    (fun a ha => hx a (List.mem_append_left _ ha)) (by omega) (by omega)
  have hx₁ : (init.foldl Sweep.clear w).store.slots.get? last = some (.holding o .weak) := by
    have hkept := w.kept_clearAll init last
    rw [if_neg hlast] at hkept
    exact (congrArg Prod.fst hkept).trans (hx last (by simp))
  obtain ⟨hheap, hdestroyed⟩ := clear_of_holding hx₁
  obtain ⟨htrue, hs', hspared, hcell, later, hj, hlater⟩ := Heap.release_weak_last
    (hrecounts.ownsStrong hs) ((hrecounts.isDestroyed_eq o).trans hd)
    (by rw [hrecounts.owned]; exact ho) (by rw [hs₁]; exact hstrong) (by omega)
  rw [List.foldl_append, List.foldl_cons, List.foldl_nil]
  rw [← hheap] at hs' hspared hcell hj
  rw [hrecounts.owned] at hspared hlater
  refine ⟨hs', fun x hx => ⟨(hspared x hx).1, fun hne => ?_⟩, hcell, ⟨later, ?_, hlater⟩, ?_⟩
  · rw [(hspared x hx).2 hne, hrecounts.others x hne]
  · rw [hj, hj₁]
  · rw [hdestroyed, htrue, hdestroyed₁]
    rfl

end Sweep

/-! ### Deciding -/

/-- An object that only weak references reach, those of its slots among them. -/
structure Doomed.HeldWeakly (h : Heap) (d : Doomed) : Prop where
  slots_ne : d.slots ≠ []
  unowned : h.owned d.object .strong = 0
  strong_eq : (h.cell d.object).tally.strong.toNat = 0
  slots_le : d.slots.length ≤ (h.cell d.object).tally.weak.toNat
  alive : (h.cell d.object).isDestroyed = false

/-- Whether decisions destroy an object of which a sweep decides `k` slots: none is revived,
and no weak reference is held elsewhere. -/
def Dies (h : Heap) (es : List Decision) (o : ObjectId) (k : Nat) : Prop :=
  revivals es o = 0 ∧ (h.cell o).tally.weak.toNat = k

instance (h : Heap) (es : List Decision) (o : ObjectId) (k : Nat) : Decidable (Dies h es o k) :=
  inferInstanceAs (Decidable (_ ∧ _))

/-- What is told of the end of an object: if it dies, the drop of its payload and then only
drops of payloads to which another payload owned a strong reference. -/
def EndTold (h : Heap) (o : ObjectId) (dies : Prop) (ms : List Moment) : Prop :=
  (¬ dies → ms = []) ∧
    (dies → ∃ later, ms = .payloadDropped o :: later ∧
      ∀ m ∈ later, ∃ x, m = .payloadDropped x ∧ h.owned x .strong ≠ 0)

theorem EndTold.congr {h h' : Heap} {o : ObjectId} {p q : Prop} {ms : List Moment}
    (hm : EndTold h' o p ms) (hle : ∀ x, h.owned x .strong = 0 → h'.owned x .strong = 0)
    (hpq : p ↔ q) : EndTold h o q ms := by
  obtain ⟨hno, hyes⟩ := hm
  refine ⟨fun hq => hno (mt hpq.1 hq), fun hq => ?_⟩
  obtain ⟨later, hlater, hm⟩ := hyes (hpq.2 hq)
  refine ⟨later, hlater, fun m hmem => ?_⟩
  obtain ⟨x, rfl, hx⟩ := hm m hmem
  exact ⟨x, rfl, fun h0 => hx (hle x h0)⟩

namespace Sweep

/-- What decisions `es` about objects make of the heap. -/
structure Fates (w w' : Sweep) (ds : List Doomed) (es : List Decision) : Prop where
  ownsStrong : w'.heap.OwnsStrong
  unowned : ∀ x, w.heap.owned x .strong = 0 → w'.heap.owned x .strong = 0
  others : ∀ x, x ∉ ds.map Doomed.object → w.heap.owned x .strong = 0 →
    w'.heap.cell x = w.heap.cell x
  strong_eq : ∀ d ∈ ds, (w'.heap.cell d.object).tally.strong.toNat = revivals es d.object
  weak_eq : ∀ d ∈ ds, (w'.heap.cell d.object).tally.weak.toNat + d.slots.length
    = (w.heap.cell d.object).tally.weak.toNat
  destroyed_iff : ∀ d ∈ ds, (w'.heap.cell d.object).isDestroyed = true
    ↔ Dies w.heap es d.object d.slots.length
  journal : ∃ ends : ObjectId → List Moment,
    w'.heap.journal.toList = w.heap.journal.toList
      ++ ds.flatMap (fun d => callsFor es d.object ++ ends d.object) ∧
    ∀ d ∈ ds, EndTold w.heap d.object (Dies w.heap es d.object d.slots.length) (ends d.object)
  counted : w'.report.destroyed
    = w.report.destroyed + ds.countP fun d => Dies w.heap es d.object d.slots.length

variable {w w' w'' : Sweep} {d : Doomed} {ds : List Doomed} {es es' : List Decision}

theorem Fates.nil (hs : w.heap.OwnsStrong) : Fates w w [] [] :=
  ⟨hs, fun _ hx => hx, fun _ _ _ => rfl, nofun, nofun, nofun, ⟨fun _ => [], by simp, nofun⟩, rfl⟩

theorem Fates.single (ms : List Moment) (hs : w'.heap.OwnsStrong)
    (hunowned : ∀ x, w.heap.owned x .strong = 0 → w'.heap.owned x .strong = 0)
    (hothers : ∀ x, x ≠ d.object → w.heap.owned x .strong = 0 →
      w'.heap.cell x = w.heap.cell x)
    (hstrong : (w'.heap.cell d.object).tally.strong.toNat = revivals es d.object)
    (hweak : (w'.heap.cell d.object).tally.weak.toNat + d.slots.length
      = (w.heap.cell d.object).tally.weak.toNat)
    (hd : (w'.heap.cell d.object).isDestroyed = true ↔ Dies w.heap es d.object d.slots.length)
    (hj : w'.heap.journal.toList = w.heap.journal.toList ++ callsFor es d.object ++ ms)
    (hend : EndTold w.heap d.object (Dies w.heap es d.object d.slots.length) ms)
    (hc : w'.report.destroyed
      = w.report.destroyed + if Dies w.heap es d.object d.slots.length then 1 else 0) :
    Fates w w' [d] es := by
  refine ⟨hs, hunowned, fun x hx => hothers x (by simpa using hx), ?_, ?_, ?_,
    ⟨fun _ => ms, ?_, ?_⟩, ?_⟩
  · simpa using hstrong
  · simpa using hweak
  · simpa using hd
  · simpa using hj
  · simpa using hend
  · simpa [List.countP_cons] using hc

/-- What is left to do after the slots of an object were asked: those in `addrs` are to be
emptied, and the others were revived. -/
structure Left (d : Doomed) (w w' : Sweep) (addrs : List SlotAddr) (es : List Decision) :
    Prop where
  moved : Moved d.object w w' es
  about : ∀ e ∈ es, e.call.object = d.object
  distinct : addrs.Nodup
  holding : ∀ a ∈ addrs, w'.store.slots.get? a = some (.holding d.object .weak)
  length_add : addrs.length + revivals es d.object = d.slots.length

theorem Ready.left (hr : w.Ready (d :: ds)) (hq : w.Still) (hd : d.HeldWeakly w.heap) :
    Left d w (w.askAll d.object d.slots).2 (w.askAll d.object d.slots).1
      (w.decideAll d.object d.slots) := by
  obtain ⟨hnd, hk⟩ := hr.head
  obtain ⟨habout, -, hgo, -, -⟩ := askAll_asked hnd hk
  obtain ⟨hsub, hkept⟩ := kept_letGo hnd hk
  have hfits := UInt32.toNat_lt (w.heap.cell d.object).tally.weak
  have hzero := hd.strong_eq
  have hle := hd.slots_le
  refine ⟨hq.askAll hnd hk hle (by omega), object_decideAll habout, hnd.sublist hsub,
    fun a ha => ?_, ?_⟩
  · obtain ⟨r, hr⟩ := hk a (hsub.subset ha)
    exact congrArg Prod.fst ((hkept a ha).trans hr)
  · have hslots := congrArg List.length (slots_decideAll habout)
    rw [List.length_map] at hslots
    rw [hgo, length_letGo (object_decideAll habout), hslots]

namespace Left

variable {addrs : List SlotAddr} (h : Left d w w' addrs es)
include h

theorem journal_eq : w'.heap.journal.toList
    = w.heap.journal.toList ++ callsFor es d.object := by
  rw [callsFor_of_eq h.about]
  exact h.moved.journal

/-- If nothing is revived and no weak reference is held elsewhere, emptying the slots destroys
the object. -/
theorem dying (hs : w.heap.OwnsStrong) (hd : d.HeldWeakly w.heap)
    (hdies : Dies w.heap es d.object d.slots.length) :
    Fates w (addrs.foldl Sweep.clear w') [d] es := by
  obtain ⟨hrev, hall⟩ := id hdies
  have hlen := h.length_add
  have hpos := List.length_pos_iff.2 hd.slots_ne
  have hstrong := h.moved.strong_eq
  have hweak := h.moved.weak_eq
  have hrecounts := h.moved.recounts
  obtain ⟨howns, hspared, ⟨hs', hw', hd'⟩, ⟨later, hj', hlater⟩, hcount⟩ :=
    clearAll_dying h.distinct (List.length_pos_iff.1 (by omega)) h.holding
      (hrecounts.ownsStrong hs) (by rw [hrecounts.owned]; exact hd.unowned)
      ((hrecounts.isDestroyed_eq _).trans hd.alive) (by rw [hstrong, hd.strong_eq, hrev])
      (by omega)
  rw [hrecounts.owned] at hspared hlater
  refine .single (.payloadDropped d.object :: later) howns (fun x hx => (hspared x hx).1)
    (fun x hne hx => ?_) (hs'.trans hrev.symm) ?_ (iff_of_true hd' hdies) ?_ ?_ ?_
  · exact ((hspared x hx).2 hne).trans (hrecounts.others x hne)
  · rw [hw', hall, Nat.zero_add]
  · rw [hj', h.journal_eq]
  · exact ⟨fun hno => absurd hdies hno, fun _ => ⟨later, rfl, hlater⟩⟩
  · rw [hcount, h.moved.destroyed_eq, if_pos hdies]

/-- If something is revived, or a weak reference is held elsewhere, emptying the slots leaves
the object undestroyed. -/
theorem alive (hs : w.heap.OwnsStrong) (hd : d.HeldWeakly w.heap)
    (hdies : ¬ Dies w.heap es d.object d.slots.length) :
    Fates w (addrs.foldl Sweep.clear w') [d] es := by
  have hlen := h.length_add
  have hle := hd.slots_le
  have hstrong := h.moved.strong_eq
  have hweak := h.moved.weak_eq
  have hsome : 0 < revivals es d.object ∨ d.slots.length
      < (w.heap.cell d.object).tally.weak.toNat := by
    by_contra hno
    exact hdies ⟨by omega, by omega⟩
  obtain ⟨hrecounts, hs', hw', hj', hcount⟩ :=
    clearAll_alive h.distinct h.holding (by omega) (by omega)
  have hboth := h.moved.recounts.trans hrecounts
  refine .single [] (hboth.ownsStrong hs) (fun x hx => ?_) (fun x hne _ => hboth.others x hne)
    ?_ ?_ ?_ ?_ ?_ ?_
  · rwa [hboth.owned]
  · rw [hs', hstrong, hd.strong_eq, Nat.zero_add]
  · omega
  · refine iff_of_false ?_ hdies
    rw [hboth.isDestroyed_eq, hd.alive]
    exact Bool.false_ne_true
  · rw [hj', h.journal_eq, List.append_nil]
  · exact ⟨fun _ => rfl, fun hyes => absurd hyes hdies⟩
  · rw [hcount, h.moved.destroyed_eq, if_neg hdies, Nat.add_zero]

end Left

/-- **One object.**  Its callbacks are called, the slots that they revive become strong, and
the others give up their references. -/
theorem Fates.judge (hr : w.Ready (d :: ds)) (hq : w.Still) (hs : w.heap.OwnsStrong)
    (hd : d.HeldWeakly w.heap) : Fates w (w.judge d) [d] (w.decideAll d.object d.slots) := by
  have hleft := hr.left hq hd
  by_cases hdies : Dies w.heap (w.decideAll d.object d.slots) d.object d.slots.length
  · exact hleft.dying hs hd hdies
  · exact hleft.alive hs hd hdies

/-- Decisions `es` about one object, and `es'` about others. -/
structure Apart (d : Doomed) (ds : List Doomed) (es es' : List Decision) : Prop where
  ne : ∀ d' ∈ ds, d'.object ≠ d.object
  first : ∀ e ∈ es, e.call.object = d.object
  rest : ∀ e ∈ es', e.call.object ∈ ds.map Doomed.object

namespace Apart

variable (h : Apart d ds es es')
include h

theorem rest_ne : ∀ e ∈ es', e.call.object ≠ d.object := fun e he heq => by
  obtain ⟨d', hd', hobj⟩ := List.mem_map.1 (h.rest e he)
  exact h.ne d' hd' (hobj.trans heq)

theorem first_ne {d' : Doomed} (hd' : d' ∈ ds) : ∀ e ∈ es, e.call.object ≠ d'.object :=
  fun e he heq => h.ne d' hd' (heq.symm.trans (h.first e he))

theorem revivals_first : revivals (es ++ es') d.object = revivals es d.object := by
  rw [revivals_append, revivals_of_ne h.rest_ne, Nat.add_zero]

theorem revivals_rest {d' : Doomed} (hd' : d' ∈ ds) :
    revivals (es ++ es') d'.object = revivals es' d'.object := by
  rw [revivals_append, revivals_of_ne (h.first_ne hd'), Nat.zero_add]

theorem callsFor_first : callsFor (es ++ es') d.object = callsFor es d.object := by
  rw [callsFor_append, callsFor_of_ne h.rest_ne, List.append_nil]

theorem callsFor_rest {d' : Doomed} (hd' : d' ∈ ds) :
    callsFor (es ++ es') d'.object = callsFor es' d'.object := by
  rw [callsFor_append, callsFor_of_ne (h.first_ne hd'), List.nil_append]

end Apart

/-- **One object after another.**  What happens to the first one leaves the others as they
were, and their sweep leaves it as it is. -/
theorem Fates.cons (hfirst : Fates w w' [d] es) (hrest : Fates w' w'' ds es')
    (ha : Apart d ds es es') (hunowned : ∀ d' ∈ d :: ds, w.heap.owned d'.object .strong = 0) :
    Fates w w'' (d :: ds) (es ++ es') := by
  have hd := List.mem_singleton_self d
  have hlast : w''.heap.cell d.object = w'.heap.cell d.object := by
    refine hrest.others d.object (fun hmem => ?_) (hfirst.unowned _ (hunowned d List.mem_cons_self))
    obtain ⟨d', hd', heq⟩ := List.mem_map.1 hmem
    exact ha.ne d' hd' heq
  have hcell : ∀ d' ∈ ds, w'.heap.cell d'.object = w.heap.cell d'.object := fun d' hd' => by
    refine hfirst.others _ ?_ (hunowned d' (List.mem_cons_of_mem _ hd'))
    rw [List.map_singleton, List.mem_singleton]
    exact ha.ne d' hd'
  have hdies : Dies w.heap es d.object d.slots.length
      ↔ Dies w.heap (es ++ es') d.object d.slots.length := by
    rw [Dies, Dies, ha.revivals_first]
  have hdies' : ∀ d' ∈ ds, Dies w'.heap es' d'.object d'.slots.length
      ↔ Dies w.heap (es ++ es') d'.object d'.slots.length := fun d' hd' => by
    rw [Dies, Dies, hcell d' hd', ha.revivals_rest hd']
  obtain ⟨ends, hj, hends⟩ := hfirst.journal
  obtain ⟨ends', hj', hends'⟩ := hrest.journal
  refine ⟨hrest.ownsStrong, fun x hx => hrest.unowned x (hfirst.unowned x hx),
    fun x hx hx₀ => ?_, ?_, ?_, ?_, ⟨fun o => if o = d.object then ends o else ends' o, ?_, ?_⟩, ?_⟩
  · rw [List.map_cons, List.mem_cons, not_or] at hx
    rw [hrest.others x hx.2 (hfirst.unowned x hx₀), hfirst.others x (by simpa using hx.1) hx₀]
  · rintro d' hd'
    rcases List.mem_cons.1 hd' with rfl | hd'
    · rw [hlast, hfirst.strong_eq _ hd, ha.revivals_first]
    · rw [hrest.strong_eq _ hd', ha.revivals_rest hd']
  · rintro d' hd'
    rcases List.mem_cons.1 hd' with rfl | hd'
    · rw [hlast, hfirst.weak_eq _ hd]
    · rw [hrest.weak_eq _ hd', hcell d' hd']
  · rintro d' hd'
    rcases List.mem_cons.1 hd' with rfl | hd'
    · rw [hlast, hfirst.destroyed_iff _ hd, hdies]
    · rw [hrest.destroyed_iff _ hd', hdies' d' hd']
  · have htail : ds.flatMap (fun d' => callsFor es' d'.object ++ ends' d'.object)
        = ds.flatMap fun d' => callsFor (es ++ es') d'.object
          ++ if d'.object = d.object then ends d'.object else ends' d'.object :=
      List.flatMap_congr fun d' hd' => by rw [if_neg (ha.ne d' hd'), ha.callsFor_rest hd']
    rw [hj', hj, List.flatMap_singleton, List.append_assoc, htail, List.flatMap_cons]
    dsimp only
    rw [if_pos rfl, ha.callsFor_first]
  · rintro d' hd'
    dsimp only
    rcases List.mem_cons.1 hd' with rfl | hd'
    · rw [if_pos rfl]
      exact (hends _ hd).congr (fun _ hx => hx) hdies
    · rw [if_neg (ha.ne d' hd')]
      exact (hends' d' hd').congr hfirst.unowned (hdies' d' hd')
  · have hcount : ds.countP (fun d' => Dies w'.heap es' d'.object d'.slots.length)
        = ds.countP fun d' => Dies w.heap (es ++ es') d'.object d'.slots.length :=
      List.countP_congr fun d' hd' => by simpa using hdies' d' hd'
    rw [hrest.counted, hfirst.counted, hcount]
    simp only [List.countP_cons, List.countP_nil, decide_eq_true_iff, hdies]
    omega

/-- **The objects of a sweep.** -/
theorem Fates.judgeAll (hr : w.Ready ds) (hq : w.Still) (hs : w.heap.OwnsStrong)
    (hnd : (ds.map Doomed.object).Nodup) (hds : ∀ d ∈ ds, d.HeldWeakly w.heap) :
    Fates w (ds.foldl Sweep.judge w) ds (w.decisions ds) := by
  induction ds generalizing w with
  | nil => exact .nil hs
  | cons d ds ih =>
    rw [List.map_cons, List.nodup_cons] at hnd
    have hne : ∀ d' ∈ ds, d'.object ≠ d.object := fun d' hd' heq =>
      hnd.1 (heq ▸ List.mem_map_of_mem hd')
    have hfirst := Fates.judge hr hq hs (hds d List.mem_cons_self)
    obtain ⟨-, -, hdecided, -⟩ := judge_decided hr.head.1 hr.head.2
    have hrest := ih hr.judge (hq.mono fun _ _ => hdecided.record?_eq) hfirst.ownsStrong hnd.2
        fun d' hd' => by
      have hd := hds d' (List.mem_cons_of_mem _ hd')
      have hcell := hfirst.others d'.object (by simpa using hne d' hd') hd.unowned
      exact ⟨hd.slots_ne, hfirst.unowned _ hd.unowned, by rw [hcell]; exact hd.strong_eq,
        by rw [hcell]; exact hd.slots_le, by rw [hcell]; exact hd.alive⟩
    obtain ⟨habout, -⟩ := askAll_asked hr.head.1 hr.head.2
    refine hfirst.cons hrest ⟨hne, object_decideAll habout, fun e he => ?_⟩
      fun d' hd' => (hds d' hd').unowned
    obtain ⟨habout', -⟩ := judgeAll_decided hr.judge
    have hmem := List.mem_map_of_mem (f := Decision.about) he
    rw [habout', Doomed.pairs, List.mem_flatMap] at hmem
    obtain ⟨d', hd', hmem⟩ := hmem
    obtain ⟨a, -, ha⟩ := List.mem_map.1 hmem
    exact List.mem_map.2 ⟨d', hd', congrArg Prod.snd ha⟩

end Sweep

end EngineHandles
