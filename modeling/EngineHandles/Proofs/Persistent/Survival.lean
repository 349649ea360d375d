/-
# Who survives a sweep

Where every tally is made up of what others hold, what the store holds and what payloads own
(`Accounted`), no payload owns a reference to an object that a sweep decides, because such an
object has no strong references.  So each of these objects has the fate that its own callbacks
and tallies give it, whatever becomes of the others: it has a strong reference afterwards just
if one of its callbacks revived it (`run_sweep_survivors`).
-/

import EngineHandles.Proofs.Persistent.Fates

namespace EngineHandles
namespace PersistentStore

variable {s : PersistentStore} {h : Heap} {F : Account} {latest : SlotAddr → Option WeakRecord}

/-- **The accounting law,** if others hold `F`: each tally is what others, the handles of the
store and payloads hold together, where payloads own strong references only, and no handle
refers to a destroyed object. -/
structure Accounted (s : PersistentStore) (h : Heap) (F : Account) : Prop where
  count_eq : ∀ o k, ((h.cell o).tally.count k).toNat = F o k + s.holds o k + h.owned o k
  ownsStrong : h.OwnsStrong
  alive : ∀ o k, 0 < s.holds o k → (h.cell o).isDestroyed = false

/-- The slots of an object without strong references are near death, all of them. -/
theorem length_slotsOf (s : PersistentStore) {o : ObjectId} (ho : (h.cell o).tally.strong = 0) :
    (Doomed.slotsOf (s.nearDeath h) o).length = s.holds o .weak := by
  rw [Doomed.slotsOf, List.length_map, holds, Arena.holds, Slot.holdings_apply, nearDeath,
    List.count, List.countP_map, ← List.countP_eq_length_filter, List.countP_filterMap]
  refine List.countP_congr fun e _ => ?_
  obtain ⟨addr, _ | x, _ | _⟩ := e
  · simp [Doomed.pair?, Slot.holding]
  · simp [Doomed.pair?, Slot.holding]
  · simp [Doomed.pair?, Slot.holding]
  · by_cases hx : x = o
    · subst hx
      simp [Doomed.pair?, Slot.holding, ho]
    · by_cases hz : (h.cell x).tally.strong = 0 <;> simp [Doomed.pair?, Slot.holding, hx, hz]

/-- What is near death is held weakly, and has no strong references. -/
theorem IsStored.of_mem_nearDeath (hs : s.IsStored) {p : SlotAddr × ObjectId}
    (hp : p ∈ s.nearDeath h) :
    s.slots.get? p.1 = some (.holding p.2 .weak) ∧ (h.cell p.2).tally.strong = 0 := by
  obtain ⟨hnear, hget⟩ := hs.mem_nearDeath.1 hp
  obtain ⟨o, hx, hzero⟩ := isNearDeath_iff.1 hnear
  rw [get?, hx] at hget
  obtain rfl : o = p.2 := Option.some.inj hget
  exact ⟨hx, hzero⟩

/-- **The objects that a sweep decides:** those without strong references that the store
refers to. -/
theorem IsStored.mem_objects (hs : s.IsStored) {o : ObjectId} :
    o ∈ ((s.nearDeath h).map Prod.snd).eraseDups
      ↔ (h.cell o).tally.strong = 0 ∧ 0 < s.holds o .weak := by
  rw [List.mem_eraseDups]
  constructor
  · intro hmem
    obtain ⟨⟨addr, o⟩, hp, rfl⟩ := List.mem_map.1 hmem
    obtain ⟨-, hzero⟩ := hs.of_mem_nearDeath hp
    refine ⟨hzero, ?_⟩
    rw [← s.length_slotsOf hzero, Doomed.slotsOf, List.length_map, List.length_pos_iff_exists_mem]
    exact ⟨(addr, o), List.mem_filter.2 ⟨hp, beq_self_eq_true o⟩⟩
  · rintro ⟨hzero, hpos⟩
    rw [← s.length_slotsOf hzero, Doomed.slotsOf, List.length_map,
      List.length_pos_iff_exists_mem] at hpos
    obtain ⟨p, hp⟩ := hpos
    obtain ⟨hmem, ho⟩ := List.mem_filter.1 hp
    rw [← eq_of_beq ho]
    exact List.mem_map_of_mem hmem

/-- No payload owns a reference to an object that a sweep decides, and it has at least the
weak references of its slots. -/
theorem Accounted.heldWeakly (hacc : s.Accounted h F) (hs : s.IsStored) {d : Doomed}
    (hd : d ∈ s.doomed h) :
    d.HeldWeakly h ∧ d.object ∈ ((s.nearDeath h).map Prod.snd).eraseDups ∧
      d.slots.length = s.holds d.object .weak := by
  rw [doomed_eq_grouped] at hd
  obtain ⟨o, ho, rfl⟩ := List.mem_map.1 hd
  obtain ⟨hzero, hpos⟩ := hs.mem_objects.1 ho
  have hlen := s.length_slotsOf hzero
  have hstrong := hacc.count_eq o .strong
  have hweak := hacc.count_eq o .weak
  have hzero' : ((h.cell o).tally.count .strong).toNat = 0 := by
    rw [show (h.cell o).tally.count .strong = 0 from hzero]
    rfl
  refine ⟨⟨?_, ?_, hzero', ?_, hacc.alive o .weak hpos⟩, ho, hlen⟩
  · rw [← List.length_pos_iff, hlen]
    exact hpos
  · show h.owned o .strong = 0
    omega
  · show (Doomed.slotsOf (s.nearDeath h) o).length ≤ ((h.cell o).tally.count .weak).toNat
    omega

theorem Accounted.exists_doomed (hacc : s.Accounted h F) (hs : s.IsStored) {o : ObjectId}
    (ho : o ∈ ((s.nearDeath h).map Prod.snd).eraseDups) :
    ∃ d ∈ s.doomed h, d.object = o ∧ d.slots.length = s.holds o .weak ∧ d.HeldWeakly h := by
  have hd : (⟨o, Doomed.slotsOf (s.nearDeath h) o⟩ : Doomed) ∈ s.doomed h := by
    rw [doomed_eq_grouped]
    exact List.mem_map_of_mem ho
  obtain ⟨hheld, -, hlen⟩ := hacc.heldWeakly hs hd
  exact ⟨_, hd, rfl, hlen, hheld⟩

theorem Accounted.fates (hacc : s.Accounted h F) (hrec : s.Recorded latest)
    (hstill : Sweep.Still { store := s, heap := h }) :
    Sweep.Fates { store := s, heap := h } ((s.doomed h).foldl Sweep.judge { store := s, heap := h })
      (s.doomed h) (s.decisions h) := by
  have hnd : ((s.doomed h).map Doomed.object).Nodup := by
    rw [doomed_eq_grouped, Doomed.grouped, List.map_map, show Doomed.object ∘ _ = id from rfl,
      List.map_id]
    exact nodup_eraseDups _
  exact .judgeAll (hrec.ready h) hstill hacc.ownsStrong hnd fun d hd =>
    (hacc.heldWeakly hrec.stored hd).1

/-- Whatever is asked is asked of an object without strong references, about one of its slots. -/
theorem Recorded.asked (hrec : s.Recorded latest) (h : Heap) {e : Decision}
    (he : e ∈ s.decisions h) :
    s.get? e.call.slot = some e.call.object ∧ (h.cell e.call.object).tally.strong = 0 := by
  obtain ⟨habout, -⟩ := hrec.sweep_decided h
  have hmem : e.about ∈ byObject (s.nearDeath h) := habout ▸ List.mem_map_of_mem he
  obtain ⟨hx, hzero⟩ := hrec.stored.of_mem_nearDeath (mem_byObject.1 hmem)
  refine ⟨?_, hzero⟩
  rw [get?, show s.slots.get? e.call.slot = _ from hx]
  rfl

/-- **Survival is the or of the revivals.**  Take any state of a store that calls reach, in
which the accounting law holds and no callback changes the heap.  A sweep asks the slots near
death object by object; the objects are those without strong references that the store
refers to.  Afterwards such an object has as many strong references as callbacks revived it,
and its slots of the sweep are gone from the weak tally.  It is destroyed just if no callback
revived it and no weak reference was held elsewhere; its payload is then dropped once, after
the last of its callbacks and before the first one of the next object, and whatever that
sets off drops no payload of another object of the sweep.  An object with a strong reference
is asked about nothing and keeps its slots. -/
theorem run_sweep_survivors {c : ArenaConfig} {s₀ : PersistentStore} (hs : ofConfig? c = .ok s₀)
    (h₀ : Heap) (calls : List StoreCall) (F : Account) :
    let s := (s₀.run h₀ calls).1
    let h := (s₀.run h₀ calls).2
    let h' := (s.sweep h).2.2
    let es := s.decisions h
    let objects := ((s.nearDeath h).map Prod.snd).eraseDups
    let dies (o : ObjectId) : Prop := Dies h es o (s.holds o .weak)
    s.Accounted h F →
    (∀ addr r, s.record? addr = some r →
      ∀ (c : WeakCall) (h : Heap), h.settle (r.callback c h).effects = h) →
    (es.map Decision.about = byObject (s.nearDeath h) ∧
      ∀ e ∈ es, ∃ r, StoreCall.latest? e.call.slot calls = some r ∧ e.IsOf r) ∧
    (∀ o, o ∈ objects ↔ (h.cell o).tally.strong = 0 ∧ 0 < s.holds o .weak) ∧
    (∀ o ∈ objects,
      (h'.cell o).tally.strong.toNat = revivals es o ∧
      (h'.cell o).tally.weak.toNat + s.holds o .weak = (h.cell o).tally.weak.toNat ∧
      ((h'.cell o).isDestroyed = true ↔ dies o)) ∧
    (∃ ends : ObjectId → List Moment,
      h'.journal.toList = h.journal.toList ++ objects.flatMap (fun o => callsFor es o ++ ends o) ∧
      ∀ o ∈ objects, (¬ dies o → ends o = []) ∧
        (dies o → ∃ later, ends o = .payloadDropped o :: later ∧
          ∀ m ∈ later, ∃ x, m = .payloadDropped x ∧ x ∉ objects)) ∧
    (s.sweep h).1.destroyed = objects.countP (fun o => dies o) ∧
    ∀ addr o, s.get? addr = some o → (h.cell o).tally.strong ≠ 0 →
      (∀ e ∈ es, e.call.object ≠ o) ∧ (s.sweep h).2.1.kept addr = s.kept addr := by
  intro s h h' es objects dies hacc hstill
  have hrec := (Recorded.of_ofConfig? hs).run h₀ calls
  obtain ⟨habout, hof, hdecided, -⟩ := hrec.sweep_decided h
  have hobjects : (s.doomed h) = objects.map fun o => ⟨o, Doomed.slotsOf (s.nearDeath h) o⟩ :=
    doomed_eq_grouped s h
  have hfates := hacc.fates hrec hstill
  refine ⟨⟨habout, by simpa using hof⟩, fun o => hrec.stored.mem_objects, fun o ho => ?_, ?_, ?_,
    fun addr o hget hstrong => ?_⟩
  · obtain ⟨d, hd, rfl, hlen, -⟩ := hacc.exists_doomed hrec.stored ho
    have hweak := hfates.weak_eq d hd
    have hdestroyed := hfates.destroyed_iff d hd
    rw [hlen] at hweak hdestroyed
    exact ⟨hfates.strong_eq d hd, hweak, hdestroyed⟩
  · obtain ⟨ends, hjournal, hends⟩ := hfates.journal
    refine ⟨ends, ?_, fun o ho => ?_⟩
    · refine hjournal.trans ?_
      rw [hobjects, List.flatMap_map]
    · obtain ⟨d, hd, rfl, hlen, -⟩ := hacc.exists_doomed hrec.stored ho
      obtain ⟨hno, hyes⟩ := hends d hd
      rw [hlen] at hno hyes
      refine ⟨hno, fun hdies => ?_⟩
      obtain ⟨later, hlater, hm⟩ := hyes hdies
      refine ⟨later, hlater, fun m hmem => ?_⟩
      obtain ⟨x, rfl, hx⟩ := hm m hmem
      refine ⟨x, rfl, fun hxo => ?_⟩
      obtain ⟨d', -, rfl, -, hheld⟩ := hacc.exists_doomed hrec.stored hxo
      exact hx hheld.unowned
  · refine hfates.counted.trans ?_
    rw [hobjects, List.countP_map, Nat.zero_add]
    refine List.countP_congr fun o ho => ?_
    have hlen := s.length_slotsOf (hrec.stored.mem_objects.1 ho).1
    show decide (Dies h es o (Doomed.slotsOf (s.nearDeath h) o).length) = true ↔ _
    rw [hlen]
  · refine ⟨fun e he heq => hstrong (heq ▸ (hrec.asked h he).2), ?_⟩
    refine hdecided.others addr fun e he heq => ?_
    obtain ⟨hgot, hzero⟩ := hrec.asked h he
    rw [← heq, hget] at hgot
    rw [← Option.some.inj hgot] at hzero
    exact hstrong hzero

/-- Object `0` has two slots of which one is revived, and object `2` has one, which is let go;
its payload owns object `1`. -/
theorem run_sweep_survivors_sibling :
    let reviving : WeakRecord := ⟨0, fun _ _ => { outcome := .revive }⟩
    let releasing : WeakRecord := ⟨0, fun _ _ => { outcome := .release }⟩
    let calls : List StoreCall := [.host fun h => (h.make ⟨.unit, []⟩).2,
      .host fun h => (h.make ⟨.unit, []⟩).2.retain ⟨1⟩ .strong,
      .host fun h => (h.make ⟨.unit, [.release ⟨1⟩ .strong]⟩).2,
      .make ⟨0⟩, .make ⟨2⟩, .make ⟨0⟩, .makeWeak (.ofCounts 0 0) releasing,
      .makeWeak (.ofCounts 0 1) releasing, .makeWeak (.ofCounts 1 0) reviving]
    let s₀ : PersistentStore := { slots := { config := ⟨2, 4⟩ } }
    let s := (s₀.run {} calls).1
    let h := (s₀.run {} calls).2
    let h' := (s.sweep h).2.2
    ofConfig? ⟨2, 4⟩ = .ok s₀ ∧ s.Accounted h 0 ∧
      (∀ addr r, s.record? addr = some r →
        ∀ (c : WeakCall) (h : Heap), h.settle (r.callback c h).effects = h) ∧
      (h'.cell ⟨0⟩).tally.strong.toNat = 1 ∧ (h'.cell ⟨2⟩).isDestroyed = true ∧
      (s.sweep h).1.destroyed = 1 := by
  intro reviving releasing calls s₀ s h h'
  have hs : ofConfig? ⟨2, 4⟩ = .ok s₀ := rfl
  have hheap : h = ⟨#[⟨⟨0, 2⟩, some ⟨.unit, []⟩⟩, ⟨⟨1, 0⟩, some ⟨.unit, []⟩⟩,
      ⟨⟨0, 1⟩, some ⟨.unit, [.release ⟨1⟩ .strong]⟩⟩], #[]⟩ := by decide +kernel
  have hslots : s.slots.entries.map Prod.snd
      = [.holding ⟨0⟩ .weak, .holding ⟨2⟩ .weak, .holding ⟨0⟩ .weak] := by decide +kernel
  have hacc : s.Accounted h 0 := by
    refine ⟨fun o k => ?_, fun o => ?_, fun o k hpos => ?_⟩
    · rw [holds, Arena.holds, hslots, hheap]
      obtain ⟨_ | _ | _ | n⟩ := o <;> cases k <;>
        simp [Heap.cell, Heap.owned, Heap.inDestructors, Tally.count, Slot.holdings, Slot.holds,
          Slot.holding, Account.one, Account.released, Cell.destructor]
    · rw [hheap]
      obtain ⟨_ | _ | _ | n⟩ := o <;> simp [Heap.cell, OnlyReleases, Cell.destructor]
    · rw [holds, Arena.holds, hslots] at hpos
      rw [hheap]
      obtain ⟨_ | _ | _ | n⟩ := o <;> simp_all [Heap.cell, Cell.isDestroyed, Slot.holdings,
        Slot.holds, Slot.holding, Account.one]
  have hstill : ∀ addr r, s.record? addr = some r →
      ∀ (c : WeakCall) (h : Heap), h.settle (r.callback c h).effects = h := by
    intro addr r hr
    have hrec : s.Recorded _ := (Recorded.of_ofConfig? hs).run {} calls
    have hlatest := hrec.latest_eq hr
    simp [calls, StoreCall.latest?_cons, StoreCall.weakened?] at hlatest
    rcases hlatest with (⟨-, rfl⟩ | ⟨-, -, rfl⟩) | ⟨-, -, rfl⟩ <;> exact fun _ _ => rfl
  obtain ⟨-, -, hall, -, hdestroyed, -⟩ :=
    run_sweep_survivors hs {} calls 0 hacc hstill
  refine ⟨hs, hacc, hstill, ?_, ?_, ?_⟩
  · rw [(hall ⟨0⟩ (by decide +kernel)).1]
    decide +kernel
  · exact (hall ⟨2⟩ (by decide +kernel)).2.2.2 (by decide +kernel)
  · rw [hdestroyed]
    decide +kernel

end PersistentStore
end EngineHandles
