/-
# Records of weak handles

A store is used through `StoreCall`, and the host may do with the heap what it likes in
between.  Slots, kinds and records are changed separately, by operations that return early
at different places; what holds of them together is that a slot has a record just if it
holds its object weakly, and then the one of the latest call that made it weak
(`Recorded`).  An emptied slot keeps its kind, so the kind alone says nothing.

One lemma for each operation shows that it keeps this up, and `Recorded.run` follows for a
run.  With it every slot near death has a callback to ask, so a sweep decides exactly these
slots (`run_sweep_decides`).
-/

import EngineHandles.Proofs.Persistent.Decisions

namespace EngineHandles

/-- One call of a persistent store's interface. -/
inductive StoreCall where
  | make (object : ObjectId)
  | delete (addr : SlotAddr)
  | makeWeak (addr : SlotAddr) (record : WeakRecord)
  | clearWeak (addr : SlotAddr)
  | sweep
  /-- What the host does without the store. -/
  | host (work : Heap → Heap)

namespace StoreCall

/-- The record that a call asks to keep for an address. -/
def weakened? (addr : SlotAddr) : StoreCall → Option WeakRecord
  | .makeWeak a r => if a = addr then some r else none
  | _ => none

/-- The record of the latest call that makes an address weak. -/
def latest? (addr : SlotAddr) (calls : List StoreCall) : Option WeakRecord :=
  calls.reverse.findSome? (weakened? addr)

@[simp] theorem latest?_nil (addr : SlotAddr) : latest? addr [] = none := rfl

theorem latest?_cons (addr : SlotAddr) (call : StoreCall) (rest : List StoreCall) :
    latest? addr (call :: rest) = (latest? addr rest).or (call.weakened? addr) := by
  rw [latest?, List.reverse_cons, List.findSome?_append]
  cases h : call.weakened? addr <;> simp [latest?, h]

end StoreCall

namespace PersistentStore

/-- Serves one call. -/
def call (s : PersistentStore) (h : Heap) : StoreCall → PersistentStore × Heap
  | .make o => (s.make o h).2
  | .delete addr => (s.delete addr h).2
  | .makeWeak addr r => (s.makeWeak addr r h).2
  | .clearWeak addr => (s.clearWeak addr h).2
  | .sweep => (s.sweep h).2
  | .host work => (s, work h)

/-- Serves calls in order. -/
def run (s : PersistentStore) (h : Heap) : List StoreCall → PersistentStore × Heap
  | [] => (s, h)
  | call :: rest => (s.call h call).1.run (s.call h call).2 rest

/-- What is kept for an address, if `latest` is the record that a weak slot ought to have. -/
def FitsRecord (latest : Option WeakRecord) : Option Slot × Option WeakRecord → Prop
  | (some ⟨some _, .weak⟩, r) => r.isSome ∧ r = latest
  | (_, r) => r = none

/-- Exactly the slots that hold their objects weakly have a record, for each address the one
that `latest` has for it. -/
structure Recorded (s : PersistentStore) (latest : SlotAddr → Option WeakRecord) : Prop where
  stored : s.IsStored
  fits : ∀ addr, FitsRecord (latest addr) (s.kept addr)

variable {s : PersistentStore} {h : Heap} {latest : SlotAddr → Option WeakRecord}
  {addr : SlotAddr}

theorem kept_remember (s : PersistentStore) (addr b : SlotAddr) (r : WeakRecord) :
    (s.remember addr r).kept b = if b = addr then (s.slots.get? b, some r) else s.kept b := by
  split
  · next h => rw [h, kept, record?_remember_self]; rfl
  · next h => rw [kept, record?_remember_of_ne h]; rfl

theorem FitsRecord.none_of_ne {l : Option WeakRecord} {x : Option Slot} {r : Option WeakRecord}
    (hf : FitsRecord l (x, r)) (hx : ∀ o, x ≠ some (.holding o .weak)) : r = none := by
  obtain _ | ⟨_ | o, _ | _⟩ := x
  all_goals first | exact hf | exact absurd rfl (hx o)

/-- A record that there is is the right one. -/
theorem FitsRecord.eq_some {l : Option WeakRecord} {x : Option Slot} {r : WeakRecord}
    (hf : FitsRecord l (x, some r)) : l = some r := by
  obtain _ | ⟨_ | o, _ | _⟩ := x
  all_goals first | exact hf.2.symm | cases hf

/-- An empty slot has no record, whatever its kind. -/
theorem FitsRecord.of_empty {l : Option WeakRecord} {x : Slot} (hx : x.object = none) :
    FitsRecord l (some x, none) := by
  obtain ⟨object, kind⟩ := x
  subst hx
  rfl

/-- A strong slot has no record. -/
theorem FitsRecord.of_strong {l : Option WeakRecord} {x : Slot} (hx : x.kind = .strong) :
    FitsRecord l (some x, none) := by
  obtain ⟨_ | o, kind⟩ := x
  all_goals
    subst hx
    rfl

namespace Recorded

theorem of_ofConfig? {c : ArenaConfig} (hs : ofConfig? c = .ok s) : s.Recorded fun _ => none := by
  refine ⟨(isStored_of_ofConfig? hs).1, fun addr => ?_⟩
  unfold ofConfig? at hs
  split at hs
  · cases hs
  · next ha =>
    cases hs
    have hget := (Arena.stores_of_ofConfig? ha).get?_eq addr
    rw [kept, hget]
    cases c.position? addr <;> rfl

/-- A slot near death has the record of the latest call. -/
theorem exists_record (hs : s.Recorded latest) {o : ObjectId}
    (hx : s.slots.get? addr = some (.holding o .weak)) :
    ∃ r, s.kept addr = (some (.holding o .weak), some r) ∧ latest addr = some r := by
  have hf := hs.fits addr
  rw [kept, hx] at hf
  obtain ⟨hsome, hlatest⟩ := hf
  obtain ⟨r, hr⟩ := Option.isSome_iff_exists.1 hsome
  exact ⟨r, by rw [kept, hx, hr], by rw [← hlatest, hr]⟩

/-- A record that there is is that of the latest call. -/
theorem latest_eq (hs : s.Recorded latest) {r : WeakRecord} (hr : s.record? addr = some r) :
    latest addr = some r := by
  have hf := hs.fits addr
  rw [kept, hr] at hf
  exact hf.eq_some

/-- Storing a slot keeps the records right: nothing was kept for its address. -/
theorem make (hs : s.Recorded latest) (o : ObjectId) (h : Heap) :
    (s.make o h).2.1.Recorded latest := by
  obtain ⟨⟨c, xs, hst⟩, hfits⟩ := hs
  unfold PersistentStore.make Arena.add
  by_cases hlt : xs.length < c.capacity
  · obtain ⟨a', ha, hst', hnew, hold⟩ := hst.append_frame hlt (.holding o .strong)
    rw [ha]
    refine ⟨⟨c, _, hst'⟩, fun addr => ?_⟩
    by_cases hne : addr = c.slotAt xs.length
    · subst hne
      have hr := (hfits (c.slotAt xs.length)).none_of_ne (by rw [hst.get?_next hlt]; nofun)
      show FitsRecord _ (a'.get? _, s.record? _)
      rw [hnew, hr]
      rfl
    · show FitsRecord _ (a'.get? _, s.record? _)
      rw [hold addr hne]
      exact hfits addr
  · have := hst.fits
    rw [hst.append_full _ (by omega)]
    exact ⟨⟨c, xs, hst⟩, hfits⟩

/-- Changing what is kept for one address. -/
theorem update {s' : PersistentStore} {latest' : SlotAddr → Option WeakRecord}
    (hs : s.Recorded latest) (addr : SlotAddr) (hst : s'.IsStored)
    (hself : FitsRecord (latest' addr) (s'.kept addr))
    (hother : ∀ b, b ≠ addr → s'.kept b = s.kept b ∧ latest' b = latest b) :
    s'.Recorded latest' := by
  refine ⟨hst, fun b => ?_⟩
  by_cases hb : b = addr
  · rw [hb]
    exact hself
  · obtain ⟨hk, hl⟩ := hother b hb
    rw [hk, hl]
    exact hs.fits b

/-- Writing a slot that is then empty or strong, and forgetting its record. -/
theorem write_forget (hs : s.Recorded latest) {y : Slot} (hy : s.slots.get? addr = some y)
    {x : Slot} (hx : x.object = none ∨ x.kind = .strong) :
    ((s.write addr x).forget addr).Recorded latest := by
  obtain ⟨R, -, hw⟩ := hs.stored.write hy
  have hkept := kept_write_forget hy x
  refine hs.update addr (hw x).1 ?_ fun b hb => ⟨by rw [hkept, if_neg hb], rfl⟩
  rw [hkept, if_pos rfl]
  exact hx.elim .of_empty .of_strong

theorem delete (hs : s.Recorded latest) (addr : SlotAddr) (h : Heap) :
    (s.delete addr h).2.1.Recorded latest := by
  unfold PersistentStore.delete
  cases hx : s.slots.get? addr with
  | none => exact hs
  | some x =>
    dsimp only
    split
    · next he =>
      have hkept := s.kept_forget addr
      refine hs.update addr hs.stored ?_ fun b hb => ⟨by rw [hkept, if_neg hb], rfl⟩
      rw [hkept, if_pos rfl, hx]
      exact .of_empty (Option.isNone_iff_eq_none.1 he)
    · have := hs.write_forget hx (x := (x.release h).2.1) (.inl (by rw [Slot.release_emptied]; rfl))
      exact ⟨this.stored, this.fits⟩

theorem makeWeak (hs : s.Recorded latest) (addr : SlotAddr) (r : WeakRecord) (h : Heap) :
    (s.makeWeak addr r h).2.1.Recorded fun b => if addr = b then some r else latest b := by
  unfold PersistentStore.makeWeak
  -- an address without an object has no record, whatever is asked for
  have hidle : (∀ o k, s.slots.get? addr ≠ some (.holding o k)) →
      s.Recorded fun b => if addr = b then some r else latest b := fun hne => by
    refine hs.update addr hs.stored ?_ fun b hb => ⟨rfl, if_neg (Ne.symm hb)⟩
    have hr := (hs.fits addr).none_of_ne fun o => hne o .weak
    rw [kept, hr]
    cases hx : s.slots.get? addr with
    | none => rfl
    | some x =>
      obtain ⟨_ | o, k⟩ := x
      · exact .of_empty rfl
      · exact absurd hx (hne o k)
  cases hx : s.slots.get? addr with
  | none => exact hidle (by simp [hx])
  | some x =>
    obtain ⟨_ | o, k⟩ := x
    · exact hidle (by simp [hx, Slot.holding])
    · obtain ⟨R, -, hw⟩ := hs.stored.write hx
      have hweak : ((⟨some o, k⟩ : Slot).makeWeak h).1 = .holding o .weak := by cases k <;> rfl
      have hkept := (s.write addr (.holding o .weak)).kept_remember addr
      show ((s.write addr ((⟨some o, k⟩ : Slot).makeWeak h).1).remember addr r).Recorded _
      rw [hweak]
      refine hs.update addr (hw _).1 ?_ fun b hb =>
        ⟨by rw [hkept, if_neg hb, kept_write_of_ne hb], if_neg (Ne.symm hb)⟩
      rw [hkept, if_pos rfl, if_pos rfl, write, Arena.get?_write_self hx]
      exact ⟨rfl, rfl⟩

theorem clearWeak (hs : s.Recorded latest) (addr : SlotAddr) (h : Heap) :
    (s.clearWeak addr h).2.1.Recorded latest := by
  unfold PersistentStore.clearWeak
  cases hx : s.slots.get? addr with
  | none => exact hs
  | some x =>
    refine hs.write_forget hx (.inr ?_)
    unfold Slot.makeStrong
    split <;> simp_all

/-- If the records are right, a sweep finds one for each slot that it is to ask. -/
theorem ready (hs : s.Recorded latest) (h : Heap) :
    Sweep.Ready { store := s, heap := h } (s.doomed h) :=
  ⟨hs.stored.nodup_pairs h, fun _ _ ha =>
    (hs.exists_record (hs.stored.get?_of_mem_pairs ha)).imp fun _ => And.left⟩

/-- What a sweep asks and what it does, if the records are right as it begins. -/
theorem sweep_decided (hs : s.Recorded latest) (h : Heap) :
    (s.decisions h).map Decision.about = byObject (s.nearDeath h) ∧
      (∀ d ∈ s.decisions h, ∃ r, latest d.call.slot = some r ∧ d.IsOf r) ∧
      Decided s (s.sweep h).2.1 (s.decisions h) ∧
      (s.sweep h).2.2.weakCalls = h.weakCalls ++ (s.decisions h).map Decision.call := by
  obtain ⟨habout, hof, hdecided, hcalls⟩ := Sweep.judgeAll_decided (hs.ready h)
  have hpairs : Doomed.pairs (s.doomed h) = byObject (s.nearDeath h) := by
    rw [doomed_eq_grouped, Doomed.pairs_grouped]
  refine ⟨habout.trans hpairs, fun d hd => ?_, hdecided, hcalls⟩
  obtain ⟨r, hr, hof⟩ := hof d hd
  exact ⟨r, hs.latest_eq hr, hof⟩

theorem sweep (hs : s.Recorded latest) (h : Heap) : (s.sweep h).2.1.Recorded latest := by
  obtain ⟨-, -, hdecided, -⟩ := hs.sweep_decided h
  refine ⟨Sweep.stored_judgeAll (w := { store := s, heap := h }) hs.stored _, fun addr => ?_⟩
  by_cases ha : ∃ d ∈ s.decisions h, addr = d.call.slot
  · obtain ⟨d, hd, rfl⟩ := ha
    cases ho : d.outcome with
    | release =>
      rw [hdecided.released d hd ho]
      exact .of_empty rfl
    | revive =>
      rw [hdecided.revived d hd ho]
      exact .of_strong rfl
  · rw [hdecided.others addr fun d hd he => ha ⟨d, hd, he⟩]
    exact hs.fits addr

/-- **One call** keeps the records right. -/
theorem call (hs : s.Recorded latest) (h : Heap) (call : StoreCall) :
    (s.call h call).1.Recorded fun addr => (call.weakened? addr).or (latest addr) := by
  cases call with
  | make o => exact hs.make o h
  | delete addr => exact hs.delete addr h
  | makeWeak addr r =>
    refine cast ?_ (hs.makeWeak addr r h)
    congr 1
    funext b
    rw [StoreCall.weakened?]
    split <;> rfl
  | clearWeak addr => exact hs.clearWeak addr h
  | sweep => exact hs.sweep h
  | host work => exact hs

/-- **A run** keeps the records right. -/
theorem run (hs : s.Recorded latest) (h : Heap) (calls : List StoreCall) :
    (s.run h calls).1.Recorded fun addr => (StoreCall.latest? addr calls).or (latest addr) := by
  induction calls generalizing s h latest with
  | nil => exact hs
  | cons call rest ih =>
    have := ih (hs.call h call) (s.call h call).2
    simpa only [PersistentStore.run, StoreCall.latest?_cons, Option.or_assoc] using this

end Recorded

/-- **A sweep decides exactly the slots near death,** whatever calls were made before, in
whatever order the slots were made weak, and whatever the callbacks do.  It calls the
callback of each slot that is near death as it begins, once, with the slot's address and the
parameter of the latest call that made it weak; object by object in the order of their
first slots, the slots of an object in order of address.  Afterwards each slot whose callback
revives it holds the same object strongly, each other one of these is empty, none of them
has a record, and all other slots, kinds and records are as they were. -/
theorem run_sweep_decides {c : ArenaConfig} {s₀ : PersistentStore} (hs : ofConfig? c = .ok s₀)
    (h₀ : Heap) (calls : List StoreCall) :
    let s := (s₀.run h₀ calls).1
    let h := (s₀.run h₀ calls).2
    let ds := s.decisions h
    ((∀ addr o, (addr, o) ∈ s.nearDeath h ↔ s.isNearDeath addr h = true ∧ s.get? addr = some o) ∧
      ((s.nearDeath h).map Prod.fst).Pairwise (· < ·)) ∧
    ds.map Decision.about = byObject (s.nearDeath h) ∧
    ((ds.map fun d => d.call.slot).Nodup ∧
      ∀ addr, (∃ d ∈ ds, d.call.slot = addr) ↔ s.isNearDeath addr h = true) ∧
    (∀ d ∈ ds, ∃ r, StoreCall.latest? d.call.slot calls = some r ∧ d.IsOf r) ∧
    (s.sweep h).2.2.weakCalls = h.weakCalls ++ ds.map Decision.call ∧
    Decided s (s.sweep h).2.1 ds := by
  intro s h ds
  have hrec := (Recorded.of_ofConfig? hs).run h₀ calls
  obtain ⟨habout, hof, hdecided, hcalls⟩ := hrec.sweep_decided h
  have hmem : ∀ addr o, (addr, o) ∈ s.nearDeath h ↔ _ := fun addr o => hrec.stored.mem_nearDeath
  refine ⟨⟨hmem, hrec.stored.nearDeath_increasing h⟩, habout, ⟨?_, fun addr => ?_⟩, ?_,
    hcalls, hdecided⟩
  · have hslots : (ds.map fun d => d.call.slot) = (byObject (s.nearDeath h)).map Prod.fst := by
      rw [← habout, List.map_map]
      rfl
    rw [hslots, ← Doomed.pairs_grouped, ← doomed_eq_grouped]
    exact hrec.stored.nodup_pairs h
  · constructor
    · rintro ⟨d, hd, rfl⟩
      have : d.about ∈ byObject (s.nearDeath h) := habout ▸ List.mem_map_of_mem hd
      exact ((hmem _ _).1 (mem_byObject.1 this)).1
    · intro hnear
      obtain ⟨o, hx, -⟩ := isNearDeath_iff.1 hnear
      have : (addr, o) ∈ ds.map Decision.about := by
        rw [habout, mem_byObject, hmem]
        exact ⟨hnear, by rw [get?, hx]; rfl⟩
      obtain ⟨d, hd, he⟩ := List.mem_map.1 this
      exact ⟨d, hd, congrArg Prod.fst he⟩
  · simpa using hof

/-- Two objects in alternating slots, the first object in the first and the third one, made
weak from the last slot to the first, and the middle one once more. -/
theorem run_sweep_decides_alternating :
    let record (n : UInt64) : WeakRecord := ⟨n, fun _ _ => { outcome := .revive }⟩
    let calls : List StoreCall := [.host fun h => (h.make ⟨.unit, []⟩).2,
      .host fun h => (h.make ⟨.unit, []⟩).2, .make ⟨0⟩, .make ⟨1⟩, .make ⟨0⟩,
      .makeWeak (.ofCounts 1 0) (record 3), .makeWeak (.ofCounts 0 1) (record 2),
      .makeWeak (.ofCounts 0 0) (record 1), .makeWeak (.ofCounts 0 1) (record 4)]
    let s₀ : PersistentStore := { slots := { config := ⟨2, 4⟩ } }
    ofConfig? ⟨2, 4⟩ = .ok s₀ ∧
      ((s₀.run {} calls).1.decisions (s₀.run {} calls).2).map Decision.about
        = [(.ofCounts 0 0, ⟨0⟩), (.ofCounts 1 0, ⟨0⟩), (.ofCounts 0 1, ⟨1⟩)] :=
  ⟨rfl, (run_sweep_decides (c := ⟨2, 4⟩) rfl {} _).2.1.trans (by decide)⟩

end PersistentStore
end EngineHandles
