/-
# The tables of a persistent store

A store keeps three things side by side: its slots, a table of records, and the number of
slots in use.  The operations change them one by one and return early at different places,
and an emptied slot keeps its kind or is even counted as strong again.  What holds
throughout is `Recorded`, that the slots with a record are those that hold an object weakly,
and `Counted`, that no address has two records and that `live` is the number of slots that
hold an object.

One lemma for each operation shows that it keeps the counts, all of them by
`Counted.write`.  A sweep asks and empties slots that hold their objects weakly
(`Sweep.judgeAll_keeps`), so each of its steps down with `live` is one for a slot in use:
`live` never falls below zero, and it falls by what the report says
(`run_keeps_tables`).
-/

import EngineHandles.Proofs.Keyed
import EngineHandles.Proofs.Persistent.Records

namespace EngineHandles

/-! ### Slots in use -/

/-- One for a slot in use, and zero for an empty one. -/
def Slot.uses (x : Slot) : Nat := if !x.isEmpty then 1 else 0

@[simp] theorem Slot.uses_emptied (x : Slot) : x.emptied.uses = 0 := rfl

theorem Slot.uses_congr {x y : Slot} (h : x.object = y.object) : x.uses = y.uses := by
  rw [uses, uses, isEmpty, isEmpty, h]

namespace Arena

/-- The number of slots in use. -/
def occupied (a : Arena) : Nat := a.entries.countP fun e => !e.2.isEmpty

variable {a : Arena} {c : ArenaConfig} {xs : List Slot}

theorem Stores.occupied_eq (hs : a.Stores c xs) :
    a.occupied = xs.countP fun x => !x.isEmpty := by
  conv_rhs => rw [← hs.map_snd_entries, List.countP_map]
  rfl

/-- Writing a slot changes the number of slots in use by that slot. -/
theorem Stores.occupied_write (hs : a.Stores c xs) {addr : SlotAddr} {y : Slot}
    (hy : a.get? addr = some y) (x : Slot) :
    (a.write addr x).occupied + y.uses = a.occupied + x.uses := by
  obtain ⟨k, R, hk, -, hw⟩ := hs.write hy
  obtain ⟨hlt, hky⟩ := List.getElem?_eq_some_iff.1 hk
  have hpos : y.uses ≤ xs.countP fun x => !x.isEmpty := by
    rw [Slot.uses]
    split
    · next hne => exact List.countP_pos_iff.2 ⟨y, List.mem_of_getElem? hk, hne⟩
    · exact Nat.zero_le _
  rw [(hw x).1.occupied_eq, hs.occupied_eq, List.countP_set hlt, hky, ← Slot.uses, ← Slot.uses]
  omega

/-- A slot in use is counted. -/
theorem Stores.occupied_pos (hs : a.Stores c xs) {addr : SlotAddr} {y : Slot}
    (hy : a.get? addr = some y) : y.uses ≤ a.occupied := by
  have := hs.occupied_write hy y.emptied
  simp only [Slot.uses_emptied] at this
  omega

end Arena

namespace PersistentStore

/-- The counts of a store are right: no address has two records, and `live` is the number of
slots in use. -/
structure Counted (s : PersistentStore) : Prop where
  distinct : (s.records.map Prod.fst).Nodup
  live_eq : s.live = s.slots.occupied

variable {s s' : PersistentStore} {addr : SlotAddr} {x y : Slot}

theorem distinct_forget (hnd : (s.records.map Prod.fst).Nodup) (addr : SlotAddr) :
    ((s.forget addr).records.map Prod.fst).Nodup :=
  hnd.sublist (List.filter_sublist.map _)

theorem distinct_remember (hnd : (s.records.map Prod.fst).Nodup) (addr : SlotAddr)
    (r : WeakRecord) : ((s.remember addr r).records.map Prod.fst).Nodup := by
  rw [remember, List.map_append, List.nodup_append]
  refine ⟨distinct_forget hnd addr, by simp, ?_⟩
  rintro b hb b' hb' rfl
  simp [forget] at hb hb'
  exact hb.2 hb'

namespace Counted

theorem of_ofConfig? {c : ArenaConfig} (hs : ofConfig? c = .ok s) : s.Counted := by
  unfold ofConfig? at hs
  split at hs
  · cases hs
  · next ha =>
    cases hs
    exact ⟨List.nodup_nil, by rw [(Arena.stores_of_ofConfig? ha).occupied_eq]; rfl⟩

/-- **Writing one slot** keeps the counts, if `live` changes as the slot does. -/
theorem write (hc : s.Counted) (hs : s.IsStored) (hy : s.slots.get? addr = some y)
    (hslots : s'.slots = s.slots.write addr x) (hnd : (s'.records.map Prod.fst).Nodup)
    (hlive : s'.live + y.uses = s.live + x.uses) : s'.Counted := by
  obtain ⟨c, xs, hs⟩ := hs
  have := hs.occupied_write hy x
  rw [← hc.live_eq] at this
  exact ⟨hnd, by rw [hslots]; omega⟩

/-- A slot in use is counted. -/
theorem live_pos (hc : s.Counted) (hs : s.IsStored) (hy : s.slots.get? addr = some y) :
    y.uses ≤ s.live := by
  obtain ⟨c, xs, hs⟩ := hs
  rw [hc.live_eq]
  exact hs.occupied_pos hy

theorem make (hc : s.Counted) (hs : s.IsStored) (o : ObjectId) (h : Heap) :
    (s.make o h).2.1.Counted := by
  obtain ⟨c, xs, hs⟩ := hs
  unfold PersistentStore.make Arena.add
  rcases hs.append (.holding o .strong) with ⟨added, a', happ, hs', -⟩ | ⟨e, happ⟩
  · rw [happ]
    refine ⟨hc.distinct, ?_⟩
    show s.live + 1 = a'.occupied
    rw [hc.live_eq, hs'.occupied_eq, hs.occupied_eq, List.countP_append]
    rfl
  · rw [happ]
    exact hc

theorem delete (hc : s.Counted) (hs : s.IsStored) (addr : SlotAddr) (h : Heap) :
    (s.delete addr h).2.1.Counted ∧
      (s.delete addr h).2.1.live + (if (s.get? addr).isSome then 1 else 0) = s.live := by
  unfold PersistentStore.delete get?
  cases hx : s.slots.get? addr with
  | none => exact ⟨hc, rfl⟩
  | some x =>
    have hpos := hc.live_pos hs hx
    cases ho : x.object with
    | none =>
      simp only [Slot.isEmpty, ho, Option.isNone_none, if_true]
      exact ⟨⟨distinct_forget hc.distinct addr, hc.live_eq⟩, by simp [ho, forget]⟩
    | some o =>
      have huses : x.uses = 1 := by rw [Slot.uses, Slot.isEmpty, ho]; rfl
      simp only [Slot.isEmpty, ho, Option.isNone_some, Bool.false_eq_true, if_false]
      constructor
      · refine hc.write (x := (x.release h).2.1) hs hx rfl (distinct_forget hc.distinct addr) ?_
        rw [Slot.release_emptied, Slot.uses_emptied]
        show s.live - 1 + x.uses = s.live + 0
        omega
      · simp only [Option.bind_some, ho, Option.isSome_some, if_true]
        omega

theorem makeWeak (hc : s.Counted) (hs : s.IsStored) (addr : SlotAddr) (r : WeakRecord)
    (h : Heap) : (s.makeWeak addr r h).2.1.Counted := by
  unfold PersistentStore.makeWeak
  cases hx : s.slots.get? addr with
  | none => exact hc
  | some x =>
    dsimp only
    split
    · exact hc
    · refine hc.write (x := (x.makeWeak h).1) hs hx rfl (distinct_remember hc.distinct addr r) ?_
      rw [Slot.uses_congr (x.object_makeWeak h)]
      rfl

theorem clearWeak (hc : s.Counted) (hs : s.IsStored) (addr : SlotAddr) (h : Heap) :
    (s.clearWeak addr h).2.1.Counted := by
  unfold PersistentStore.clearWeak
  cases hx : s.slots.get? addr with
  | none => exact hc
  | some x =>
    refine hc.write (x := (x.makeStrong h).1) hs hx rfl (distinct_forget hc.distinct addr) ?_
    rw [Slot.uses_congr (x.object_makeStrong h)]
    rfl

end Counted
end PersistentStore

/-! ### The counts during a sweep -/

namespace Sweep

variable {w : Sweep} {o : ObjectId} {addr : SlotAddr}

/-- Whether each of the slots has a record as it is asked. -/
def FindsAllOf (w : Sweep) (o : ObjectId) : List SlotAddr → Prop
  | [] => True
  | addr :: rest => (w.store.record? addr).isSome = true ∧ (w.ask o addr).2.FindsAllOf o rest

/-- Whether each slot of the objects has a record as it is asked. -/
def FindsAll (w : Sweep) : List Doomed → Prop
  | [] => True
  | d :: rest => w.FindsAllOf d.object d.slots ∧ (w.judge d).FindsAll rest

theorem findsAllOf {addrs : List SlotAddr} (hnd : addrs.Nodup)
    (hk : ∀ a ∈ addrs, ∃ r, w.store.kept a = (some (.holding o .weak), some r)) :
    w.FindsAllOf o addrs := by
  induction addrs generalizing w with
  | nil => trivial
  | cons addr rest ih =>
    rw [List.nodup_cons] at hnd
    obtain ⟨r, hr⟩ := hk addr List.mem_cons_self
    constructor
    · rw [show w.store.record? addr = some r from congrArg Prod.snd hr]
      rfl
    · exact ih hnd.2 (held_ask hnd.1 hk)

/-- **No slot is asked in vain.** -/
theorem Ready.findsAll {ds : List Doomed} (hr : w.Ready ds) : w.FindsAll ds := by
  induction ds generalizing w with
  | nil => trivial
  | cons d ds ih => exact ⟨findsAllOf hr.head.1 hr.head.2, ih hr.judge⟩

section

variable {P : Sweep → Prop}
  (hask : ∀ {w : Sweep} {o : ObjectId} {addr : SlotAddr} {r : WeakRecord}, P w →
    w.store.kept addr = (some (.holding o .weak), some r) → P (w.ask o addr).2)
  (hclear : ∀ {w : Sweep} {o : ObjectId} {addr : SlotAddr}, P w →
    w.store.slots.get? addr = some (.holding o .weak) → P (w.clear addr))

include hask in
theorem askAll_keeps {addrs : List SlotAddr} (hnd : addrs.Nodup)
    (hk : ∀ a ∈ addrs, ∃ r, w.store.kept a = (some (.holding o .weak), some r)) (hw : P w) :
    P (w.askAll o addrs).2 := by
  induction addrs generalizing w with
  | nil => exact hw
  | cons addr rest ih =>
    rw [List.nodup_cons] at hnd
    obtain ⟨r, hr⟩ := hk addr List.mem_cons_self
    exact ih hnd.2 (held_ask hnd.1 hk) (hask hw hr)

include hclear in
theorem clearAll_keeps {addrs : List SlotAddr} (hnd : addrs.Nodup)
    (hx : ∀ a ∈ addrs, w.store.slots.get? a = some (.holding o .weak)) (hw : P w) :
    P (addrs.foldl Sweep.clear w) := by
  induction addrs generalizing w with
  | nil => exact hw
  | cons addr rest ih =>
    rw [List.nodup_cons] at hnd
    refine ih hnd.2 (fun a ha => ?_) (hclear hw (hx addr List.mem_cons_self))
    have hne : a ≠ addr := fun he => hnd.1 (he ▸ ha)
    rw [get?_clear_of_ne hne]
    exact hx a (List.mem_cons_of_mem _ ha)

include hask hclear

/-- **What asking and emptying keep, a sweep keeps.**  A slot that is asked has a record, and
a slot that is emptied holds its object weakly until then. -/
theorem judgeAll_keeps {ds : List Doomed} (hr : w.Ready ds) (hw : P w) :
    P (ds.foldl Sweep.judge w) := by
  induction ds generalizing w with
  | nil => exact hw
  | cons d ds ih =>
    obtain ⟨hnd, hk⟩ := hr.head
    obtain ⟨hsub, hkept⟩ := kept_letGo hnd hk
    refine ih hr.judge (clearAll_keeps (o := d.object) hclear (hnd.sublist hsub)
      (fun a ha => ?_) (askAll_keeps hask hnd hk hw))
    obtain ⟨r, hr⟩ := hk a (hsub.subset ha)
    exact congrArg Prod.fst ((hkept a ha).trans hr)

end

/-- The counts are right, and `live` has fallen from `n` by the slots emptied so far. -/
def CountedFrom (n : Nat) (w : Sweep) : Prop :=
  w.store.IsStored ∧ w.store.Counted ∧ w.store.live + w.report.cleared = n

theorem CountedFrom.ask {n : Nat} {r : WeakRecord} (hw : w.CountedFrom n)
    (hk : w.store.kept addr = (some (.holding o .weak), some r)) :
    (w.ask o addr).2.CountedFrom n := by
  obtain ⟨hs, hc, hn⟩ := hw
  obtain ⟨hx, hr⟩ := Prod.mk.inj hk
  rw [ask_of_some hr]
  cases (w.replyOf o addr r).outcome with
  | release => exact ⟨hs, hc, hn⟩
  | revive =>
    dsimp only [revive]
    rw [hx]
    obtain ⟨R, -, hw⟩ := hs.write hx
    refine ⟨(hw _).1, ?_, hn⟩
    refine hc.write hs hx rfl (PersistentStore.distinct_forget hc.distinct addr) ?_
    rw [Slot.uses_congr (Slot.object_makeStrong _ _)]
    rfl

/-- Emptying a slot in use takes one from `live`, which was not zero. -/
theorem CountedFrom.clear {n : Nat} (hw : w.CountedFrom n)
    (hx : w.store.slots.get? addr = some (.holding o .weak)) : (w.clear addr).CountedFrom n := by
  obtain ⟨hs, hc, hn⟩ := hw
  have hpos : 1 ≤ w.store.live := hc.live_pos hs hx
  obtain ⟨R, -, hw⟩ := hs.write hx
  have hx' : (w.store.forget addr).slots.get? addr = some (.holding o .weak) := hx
  simp only [Sweep.clear, hx']
  refine ⟨(hw _).1, ?_, ?_⟩
  · refine hc.write hs hx rfl (PersistentStore.distinct_forget hc.distinct addr) ?_
    rw [Slot.release_emptied, Slot.uses_emptied]
    show w.store.live - 1 + 1 = w.store.live + 0
    omega
  · show w.store.live - 1 + (w.report.cleared + 1) = n
    omega

end Sweep

namespace PersistentStore

variable {s : PersistentStore} {latest : SlotAddr → Option WeakRecord} {h : Heap}

/-- A sweep takes from `live` what it empties. -/
theorem Counted.sweep (hc : s.Counted) (hs : s.Recorded latest) (h : Heap) :
    (s.sweep h).2.1.Counted ∧ (s.sweep h).2.1.live + (s.sweep h).1.cleared = s.live := by
  obtain ⟨-, hc', hn⟩ := Sweep.judgeAll_keeps (P := Sweep.CountedFrom s.live)
    Sweep.CountedFrom.ask Sweep.CountedFrom.clear (hs.ready h) ⟨hs.stored, hc, rfl⟩
  exact ⟨hc', hn⟩

/-- **One call** keeps the counts. -/
theorem Counted.call (hc : s.Counted) (hs : s.Recorded latest) (h : Heap) (call : StoreCall) :
    (s.call h call).1.Counted := by
  cases call with
  | make o => exact hc.make hs.stored o h
  | delete addr => exact (hc.delete hs.stored addr h).1
  | makeWeak addr r => exact hc.makeWeak hs.stored addr r h
  | clearWeak addr => exact hc.clearWeak hs.stored addr h
  | sweep => exact (hc.sweep hs h).1
  | host work => exact hc

/-- **A run** keeps the counts. -/
theorem Counted.run (hc : s.Counted) (hs : s.Recorded latest) (h : Heap)
    (calls : List StoreCall) : (s.run h calls).1.Counted := by
  induction calls generalizing s h latest with
  | nil => exact hc
  | cons call rest ih => exact ih (hc.call hs h call) (hs.call h call) (s.call h call).2

/-! ### What the tables say -/

/-- A slot has a record just if it holds its object weakly. -/
theorem Recorded.isSome_record? (hs : s.Recorded latest) (addr : SlotAddr) :
    (s.record? addr).isSome = s.isWeak addr := by
  have hf := hs.fits addr
  rw [kept] at hf
  rw [isWeak]
  cases hx : s.slots.get? addr with
  | none =>
    rw [hf.none_of_ne fun o => by simp [hx]]
    rfl
  | some x =>
    rw [hx] at hf
    obtain ⟨_ | o, _ | _⟩ := x
    · rw [show s.record? addr = none from hf]; rfl
    · rw [show s.record? addr = none from hf]; rfl
    · rw [show s.record? addr = none from hf]; rfl
    · exact hf.1

theorem isSome_record?_iff {addr : SlotAddr} :
    (s.record? addr).isSome = true ↔ addr ∈ s.records.map Prod.fst := by
  simp [record?]

/-- The number of records is the number of weak slots. -/
theorem Counted.weakCount_eq (hc : s.Counted) (hs : s.Recorded latest) :
    s.weakCount = {addr | s.isWeak addr = true}.ncard := by
  rw [Keyed.ncard_of_nodup hc.distinct fun addr => by
    rw [← isSome_record?_iff, hs.isSome_record?], List.length_map]
  rfl

/-- `live` is the number of slots with an object. -/
theorem Counted.live_eq_ncard (hc : s.Counted) (hs : s.IsStored) :
    s.live = {addr | (s.get? addr).isSome = true}.ncard := by
  obtain ⟨c, xs, hs⟩ := hs
  have hnd : ((s.slots.entries.filter fun e => !e.2.isEmpty).map Prod.fst).Nodup :=
    hs.nodup_addresses.sublist (List.filter_sublist.map _)
  rw [Keyed.ncard_of_nodup hnd fun addr => ?_, List.length_map, ← List.countP_eq_length_filter,
    hc.live_eq, Arena.occupied]
  simp only [List.mem_map, List.mem_filter, Prod.exists, exists_and_right, exists_eq_right,
    hs.mem_entries_iff, get?]
  cases s.slots.get? addr with
  | none => simp
  | some x => simp [Slot.isEmpty, Option.isSome_iff_ne_none]

/-- The strong references are those of the slots without a record. -/
theorem Recorded.mem_strongReferences (hs : s.Recorded latest) {addr : SlotAddr}
    {o : ObjectId} :
    (addr, o) ∈ s.strongReferences ↔ s.get? addr = some o ∧ s.record? addr = none := by
  have hsome := hs.isSome_record? addr
  obtain ⟨c, xs, hst⟩ := hs.stored
  have hentry : (addr, o) ∈ s.strongReferences ↔ s.slots.get? addr = some (.holding o .strong) := by
    rw [← hst.mem_entries_iff, strongReferences, List.mem_filterMap]
    constructor
    · rintro ⟨⟨b, object, kind⟩, hmem, he⟩
      cases kind <;> cases object <;> cases he
      exact hmem
    · exact fun hmem => ⟨_, hmem, rfl⟩
  rw [hentry, ← Option.isNone_iff_eq_none, ← Option.not_isSome, hsome, isWeak, get?]
  cases s.slots.get? addr with
  | none => simp
  | some x =>
    obtain ⟨object, kind⟩ := x
    cases object <;> cases kind <;> simp [Slot.holdsWeak, Slot.isEmpty, Slot.holding]

/-- They are visited in order of address. -/
theorem IsStored.strongReferences_increasing (hs : s.IsStored) :
    (s.strongReferences.map Prod.fst).Pairwise (· < ·) := by
  obtain ⟨c, xs, hs⟩ := hs
  refine hs.addresses_increasing.sublist (sublist_filterMap_entries ?_ s.slots.entries)
  rintro ⟨b, object, kind⟩ p he
  cases kind <;> cases object <;> cases he
  rfl

/-- **The tables of a store agree** in every state that calls reach, whatever the callbacks
do.  The addresses that have a record are those that hold an object weakly, one record each,
so there are as many records as weak slots; `live` is the number of slots that hold an
object, from which `delete` takes one for an object that it releases and a sweep one for each
slot that it empties, never more than there are; the strong references visited are those of
the slots that hold an object and have no record, in order of address; and a sweep finds a
record for every slot that it asks. -/
theorem run_tables_agree {c : ArenaConfig} {s₀ : PersistentStore} (hs : ofConfig? c = .ok s₀)
    (h₀ : Heap) (calls : List StoreCall) :
    let s := (s₀.run h₀ calls).1
    let h := (s₀.run h₀ calls).2
    ((∀ addr, (s.record? addr).isSome = s.isWeak addr) ∧ (s.records.map Prod.fst).Nodup) ∧
    s.weakCount = {addr | s.isWeak addr = true}.ncard ∧
    s.live = {addr | (s.get? addr).isSome = true}.ncard ∧
    (∀ addr,
      (s.delete addr h).2.1.live + (if (s.get? addr).isSome then 1 else 0) = s.live) ∧
    (s.sweep h).2.1.live + (s.sweep h).1.cleared = s.live ∧
    ((∀ addr o, (addr, o) ∈ s.strongReferences
        ↔ s.get? addr = some o ∧ s.record? addr = none) ∧
      (s.strongReferences.map Prod.fst).Pairwise (· < ·)) ∧
    Sweep.FindsAll { store := s, heap := h } (s.doomed h) := by
  intro s h
  have hrec := (Recorded.of_ofConfig? hs).run h₀ calls
  have hc := (Counted.of_ofConfig? hs).run (.of_ofConfig? hs) h₀ calls
  refine ⟨⟨hrec.isSome_record?, hc.distinct⟩, hc.weakCount_eq hrec, hc.live_eq_ncard hrec.stored,
    fun addr => (hc.delete hrec.stored addr h).2, (hc.sweep hrec h).2, ⟨fun addr o => ?_, ?_⟩, ?_⟩
  · exact hrec.mem_strongReferences
  · exact hrec.stored.strongReferences_increasing
  · exact (hrec.ready h).findsAll

/-- Of three slots the first is made weak, and the second one is emptied while it is weak,
made weak once more and then strong. -/
theorem run_tables_agree_rekinded :
    let record : WeakRecord := ⟨0, fun _ _ => { outcome := .release }⟩
    let calls : List StoreCall := [.host fun h => (h.make ⟨.unit, []⟩).2, .make ⟨0⟩, .make ⟨0⟩,
      .make ⟨0⟩, .makeWeak (.ofCounts 0 0) record, .makeWeak (.ofCounts 0 1) record,
      .delete (.ofCounts 0 1), .makeWeak (.ofCounts 0 1) record, .clearWeak (.ofCounts 0 1)]
    let s₀ : PersistentStore := { slots := { config := ⟨2, 4⟩ } }
    let s := (s₀.run {} calls).1
    ofConfig? ⟨2, 4⟩ = .ok s₀ ∧ s.weakCount = 1 ∧ s.live = 2 ∧
      s.strongReferences = [(.ofCounts 1 0, ⟨0⟩)] ∧
      {addr | s.isWeak addr = true}.ncard = 1 ∧ {addr | (s.get? addr).isSome = true}.ncard = 2 := by
  intro record calls s₀ s
  have hs : ofConfig? ⟨2, 4⟩ = .ok s₀ := rfl
  obtain ⟨-, hweak, hlive, -⟩ := run_tables_agree hs {} calls
  refine ⟨hs, by decide, by decide, by decide, ?_, ?_⟩
  · exact hweak.symm.trans (by decide)
  · exact hlive.symm.trans (by decide)

end PersistentStore
end EngineHandles
