/-
# Stores that cannot be told apart

An emptied slot keeps its kind, and `clearWeak` changes the kind even of an empty slot.
Nobody can see this: whatever is asked of a slot, it answers as it would without the kind
that is left in it when it is empty (`Slot.blank`).

Two stores are alike if they differ in such kinds alone (`PersistentStore.Alike`).  Alike
stores read the same (`Alike.reads`), serve every call with the same answer and the same
changes to the heap, sweeps and their callbacks included, and are alike afterwards
(`Alike.call`).  So no run tells them apart (`Alike.run`).
-/

import EngineHandles.Proofs.Arena.Refinement
import EngineHandles.Proofs.Persistent.Records

namespace EngineHandles

/-! ### Slots -/

namespace Slot

/-- The slot, but for the kind of an empty one. -/
def blank (x : Slot) : Slot := if x.isEmpty then ⟨none, .strong⟩ else x

/-- Empty slots are all alike. -/
theorem blank_of_empty {x : Slot} (hx : x.object = none) : x.blank = ⟨none, .strong⟩ := by
  obtain ⟨object, kind⟩ := x
  subst hx
  rfl

@[simp] theorem object_blank (x : Slot) : x.blank.object = x.object := by
  obtain ⟨_ | o, k⟩ := x <;> rfl

@[simp] theorem holdsWeak_blank (x : Slot) : x.blank.holdsWeak = x.holdsWeak := by
  obtain ⟨_ | o, k⟩ := x <;> rfl

variable {x y : Slot}

theorem object_eq_of_blank (hxy : x.blank = y.blank) : x.object = y.object := by
  rw [← object_blank x, hxy, object_blank]

theorem isEmpty_eq_of_blank (hxy : x.blank = y.blank) : x.isEmpty = y.isEmpty := by
  rw [isEmpty, object_eq_of_blank hxy, isEmpty]

theorem eq_of_blank (hxy : x.blank = y.blank) (hx : x.isEmpty = false) : x = y := by
  have hy := (isEmpty_eq_of_blank hxy).symm.trans hx
  rwa [blank, blank, hx, hy] at hxy

/-- What a slot does that is released does not depend on the kind of an empty one. -/
theorem release_eq_of_blank (hxy : x.blank = y.blank) (h : Heap) :
    (x.release h).1 = (y.release h).1 ∧ (x.release h).2.2 = (y.release h).2.2 := by
  cases hx : x.isEmpty with
  | false =>
    rw [eq_of_blank hxy hx]
    exact ⟨rfl, rfl⟩
  | true =>
    have hx' : x.object = none := Option.isNone_iff_eq_none.1 hx
    have hy' : y.object = none := (object_eq_of_blank hxy).symm.trans hx'
    simp [release, hx', hy']

theorem makeStrong_eq_of_blank (hxy : x.blank = y.blank) (h : Heap) :
    (x.makeStrong h).1.blank = (y.makeStrong h).1.blank ∧
      (x.makeStrong h).2 = (y.makeStrong h).2 := by
  cases hx : x.isEmpty with
  | false =>
    rw [eq_of_blank hxy hx]
    exact ⟨rfl, rfl⟩
  | true =>
    have hx' : x.object = none := Option.isNone_iff_eq_none.1 hx
    have hy' : y.object = none := (object_eq_of_blank hxy).symm.trans hx'
    constructor
    · rw [blank_of_empty (by simpa using hx'), blank_of_empty (by simpa using hy')]
    · unfold makeStrong
      cases x.kind <;> cases y.kind <;> simp [hx', hy']

end Slot

/-- A sweep passes over an empty slot, whatever its kind. -/
theorem Doomed.visit_blank (h : Heap) (ds : List Doomed) (e : SlotAddr × Slot) :
    visit h ds (e.1, e.2.blank) = visit h ds e := by
  obtain ⟨addr, _ | o, _ | _⟩ := e <;> rfl

/-! ### Arenas -/

namespace Arena

/-- Arenas that differ in the kinds of empty slots only. -/
def Alike (a b : Arena) : Prop :=
  ∃ c xs ys, a.Stores c xs ∧ b.Stores c ys ∧ xs.map Slot.blank = ys.map Slot.blank

namespace Alike

variable {a b : Arena} {addr : SlotAddr}

/-- What is found at an address differs in the kind of an empty slot only. -/
theorem get? (h : a.Alike b) (addr : SlotAddr) :
    (a.get? addr = none ∧ b.get? addr = none) ∨
      ∃ x y, a.get? addr = some x ∧ b.get? addr = some y ∧ x.blank = y.blank := by
  obtain ⟨c, xs, ys, ha, hb, hxy⟩ := h
  have hmap : (a.get? addr).map Slot.blank = (b.get? addr).map Slot.blank := by
    rw [ha.get?_eq, hb.get?_eq]
    cases c.position? addr with
    | none => rfl
    | some k => simpa using congrArg (·[k]?) hxy
  cases hx : a.get? addr with
  | none =>
    rw [hx, Option.map_none, eq_comm, Option.map_eq_none_iff] at hmap
    exact .inl ⟨rfl, hmap⟩
  | some x =>
    rw [hx, Option.map_some, eq_comm, Option.map_eq_some_iff] at hmap
    obtain ⟨y, hy, hyx⟩ := hmap
    exact .inr ⟨x, y, rfl, hy, hyx.symm⟩

/-- So do the entries. -/
theorem entries (h : a.Alike b) :
    a.entries.map (fun e => (e.1, e.2.blank)) = b.entries.map fun e => (e.1, e.2.blank) := by
  obtain ⟨c, xs, ys, ha, hb, hxy⟩ := h
  have hzip : ∀ {d : Arena} {zs : List Slot}, d.Stores c zs →
      d.entries.map (fun e => (e.1, e.2.blank))
        = (zs.map Slot.blank).zipIdx.map fun e => (c.slotAt e.2, e.1) := by
    intro d zs hd
    rw [hd.entries_eq, List.zipIdx_map, List.map_map, List.map_map]
    rfl
  rw [hzip ha, hzip hb, hxy]

theorem write (h : a.Alike b) {x y x' y' : Slot} (hx : a.get? addr = some x)
    (hy : b.get? addr = some y) (hxy' : x'.blank = y'.blank) :
    (a.write addr x').Alike (b.write addr y') := by
  obtain ⟨c, xs, ys, ha, hb, hxy⟩ := h
  obtain ⟨j, rfl, hj⟩ := ha.exists_of_get? hx
  have hlen : xs.length = ys.length := by simpa using congrArg List.length hxy
  obtain ⟨hlt, -⟩ := List.getElem?_eq_some_iff.1 hj
  refine ⟨c, _, _, ha.write_slotAt hlt x', hb.write_slotAt (hlen ▸ hlt) y', ?_⟩
  rw [List.map_set, List.map_set, hxy, hxy']

/-- A further slot is stored in both or in neither. -/
theorem append (h : a.Alike b) (x : Slot) :
    (a.append x).1 = (b.append x).1 ∧ (a.append x).2.Alike (b.append x).2 := by
  obtain ⟨c, xs, ys, ha, hb, hxy⟩ := h
  have hlen : xs.length = ys.length := by simpa using congrArg List.length hxy
  obtain ⟨a', hap, ha'⟩ := ha.append_eq x
  obtain ⟨b', hbp, hb'⟩ := hb.append_eq x
  rw [hap, hbp]
  unfold SlotList.append at ha' hb' ⊢
  rw [hlen] at ha' ⊢
  by_cases hlt : ys.length < c.capacity
  · simp only [if_pos hlt] at ha' hb' ⊢
    exact ⟨trivial, c, _, _, ha', hb', by rw [List.map_append, hxy, List.map_append]⟩
  · simp only [if_neg hlt] at ha' hb' ⊢
    exact ⟨trivial, c, _, _, ha', hb', hxy⟩

/-- The references are released in the same order. -/
theorem clear (h : a.Alike b) (heap : Heap) : (a.clear heap).2.2 = (b.clear heap).2.2 := by
  obtain ⟨c, xs, ys, ha, hb, hxy⟩ := h
  have hmap : ∀ zs : List Slot,
      Slot.releaseFromEnd zs heap = Slot.releaseFromEnd (zs.map Slot.blank) heap := by
    intro zs
    induction zs with
    | nil => rfl
    | cons z zs ih =>
      have hz : z.blank.blank = z.blank := by obtain ⟨_ | o, k⟩ := z <;> rfl
      show (z.release (Slot.releaseFromEnd zs heap)).2.2
        = (z.blank.release (Slot.releaseFromEnd (zs.map Slot.blank) heap)).2.2
      rw [ih, (Slot.release_eq_of_blank hz _).2]
  rw [Arena.clear, Arena.clear, ha.slotsFrom_zero, hb.slotsFrom_zero, hmap xs, hmap ys, hxy]

end Alike
end Arena

/-! ### Stores -/

/-- What a call of a store's interface answers. -/
inductive StoreReply where
  | made (result : Except ArenaError SlotAddr)
  | deleted (result : Except UsageError Bool)
  /-- The answer of `makeWeak` and `clearWeak`. -/
  | changed (result : Except UsageError Unit)
  | swept (report : SweepReport)
  | worked
deriving DecidableEq

namespace PersistentStore

/-- The answer to a call. -/
def reply (s : PersistentStore) (h : Heap) : StoreCall → StoreReply
  | .make o => .made (s.make o h).1
  | .delete addr => .deleted (s.delete addr h).1
  | .makeWeak addr r => .changed (s.makeWeak addr r h).1
  | .clearWeak addr => .changed (s.clearWeak addr h).1
  | .sweep => .swept (s.sweep h).1
  | .host _ => .worked

/-- The answers to calls in order. -/
def replies (s : PersistentStore) (h : Heap) : List StoreCall → List StoreReply
  | [] => []
  | call :: rest => s.reply h call :: (s.call h call).1.replies (s.call h call).2 rest

/-- Stores that differ in the kinds of empty slots only. -/
structure Alike (s t : PersistentStore) : Prop where
  slots : s.slots.Alike t.slots
  records : s.records = t.records
  live : s.live = t.live

/-- Operations that answer the same, and leave alike stores and the same heap. -/
structure Agree {ρ : Type} (r r' : ρ × PersistentStore × Heap) : Prop where
  answer : r.1 = r'.1
  store : Alike r.2.1 r'.2.1
  heap : r.2.2 = r'.2.2

theorem Agree.map {ρ σ : Type} {r r' : ρ × PersistentStore × Heap} (hr : Agree r r')
    (f : ρ → σ) : Agree (f r.1, r.2) (f r'.1, r'.2) :=
  ⟨congrArg f hr.answer, hr.store, hr.heap⟩

/-- Stores that read the same. -/
structure ReadsAs (s t : PersistentStore) : Prop where
  get_eq : ∀ addr, s.get? addr = t.get? addr
  isWeak_eq : ∀ addr, s.isWeak addr = t.isWeak addr
  isNearDeath_eq : ∀ addr h, s.isNearDeath addr h = t.isNearDeath addr h
  strongReferences_eq : s.strongReferences = t.strongReferences
  live_eq : s.live = t.live
  weakCount_eq : s.weakCount = t.weakCount
  discard_eq : ∀ h, s.discard h = t.discard h

namespace Alike

variable {s t : PersistentStore} {addr : SlotAddr} {h : Heap}

theorem record?_eq (hst : s.Alike t) (addr : SlotAddr) : s.record? addr = t.record? addr := by
  rw [record?, hst.records, record?]

theorem forget (hst : s.Alike t) (addr : SlotAddr) : (s.forget addr).Alike (t.forget addr) :=
  ⟨hst.slots, congrArg (List.filter _) hst.records, hst.live⟩

/-- **Alike stores read the same.** -/
theorem reads (hst : s.Alike t) : s.ReadsAs t := by
  have hget : ∀ addr, s.get? addr = t.get? addr := fun addr => by
    rw [get?, get?]
    rcases hst.slots.get? addr with ⟨hx, hy⟩ | ⟨x, y, hx, hy, hxy⟩
    · rw [hx, hy]
    · rw [hx, hy]
      exact Slot.object_eq_of_blank hxy
  have hweak : ∀ addr, s.isWeak addr = t.isWeak addr := fun addr => by
    rw [isWeak, isWeak]
    rcases hst.slots.get? addr with ⟨hx, hy⟩ | ⟨x, y, hx, hy, hxy⟩
    · rw [hx, hy]
    · rw [hx, hy, Option.any_some, ← Slot.holdsWeak_blank x, hxy, Slot.holdsWeak_blank]
      rfl
  have hstrong : ∀ u : PersistentStore, u.strongReferences
      = (u.slots.entries.map fun e => (e.1, e.2.blank)).filterMap fun e =>
        if e.2.kind = .strong then e.2.object.map fun o => (e.1, o) else none := by
    intro u
    rw [strongReferences, List.filterMap_map]
    congr 1
    funext e
    obtain ⟨addr, _ | o, _ | _⟩ := e <;> rfl
  refine ⟨hget, hweak, fun addr h => ?_, ?_, hst.live, ?_, hst.slots.clear⟩
  · rw [isNearDeath, hweak, hget, isNearDeath]
  · rw [hstrong, hst.slots.entries, ← hstrong]
  · rw [weakCount, hst.records, weakCount]

theorem make (hst : s.Alike t) (o : ObjectId) (h : Heap) : Agree (s.make o h) (t.make o h) := by
  obtain ⟨hanswer, hslots⟩ := hst.slots.append (.holding o .strong)
  unfold PersistentStore.make Arena.add
  generalize s.slots.append (.holding o .strong) = r, t.slots.append (.holding o .strong) = r'
    at hanswer hslots
  obtain ⟨r, a⟩ := r
  obtain ⟨r', b⟩ := r'
  subst hanswer
  cases r with
  | error e => exact ⟨rfl, ⟨hslots, hst.records, hst.live⟩, rfl⟩
  | ok added => exact ⟨rfl, ⟨hslots, hst.records, congrArg (· + 1) hst.live⟩, rfl⟩

theorem delete (hst : s.Alike t) (addr : SlotAddr) (h : Heap) :
    Agree (s.delete addr h) (t.delete addr h) := by
  unfold PersistentStore.delete
  rcases hst.slots.get? addr with ⟨hx, hy⟩ | ⟨x, y, hx, hy, hxy⟩
  · rw [hx, hy]
    exact ⟨rfl, hst, rfl⟩
  · rw [hx, hy]
    dsimp only
    rw [Slot.isEmpty_eq_of_blank hxy]
    split
    · exact ⟨rfl, hst.forget addr, rfl⟩
    · obtain ⟨hdestroyed, hheap⟩ := Slot.release_eq_of_blank hxy h
      refine ⟨congrArg Except.ok hdestroyed, ⟨hst.slots.write hx hy ?_, ?_, ?_⟩, hheap⟩
      · rw [Slot.release_emptied, Slot.release_emptied, Slot.blank_of_empty rfl,
          Slot.blank_of_empty rfl]
      · exact (hst.forget addr).records
      · exact congrArg (· - 1) hst.live

theorem makeWeak (hst : s.Alike t) (addr : SlotAddr) (r : WeakRecord) (h : Heap) :
    Agree (s.makeWeak addr r h) (t.makeWeak addr r h) := by
  unfold PersistentStore.makeWeak
  rcases hst.slots.get? addr with ⟨hx, hy⟩ | ⟨x, y, hx, hy, hxy⟩
  · rw [hx, hy]
    exact ⟨rfl, hst, rfl⟩
  · rw [hx, hy]
    dsimp only
    rw [Slot.isEmpty_eq_of_blank hxy]
    split
    · exact ⟨rfl, hst, rfl⟩
    · next hne =>
      rw [Bool.not_eq_true, ← Slot.isEmpty_eq_of_blank hxy] at hne
      obtain rfl := Slot.eq_of_blank hxy hne
      refine ⟨rfl, ⟨hst.slots.write hx hy rfl, ?_, hst.live⟩, rfl⟩
      exact congrArg (· ++ [(addr, r)]) (hst.forget addr).records

theorem clearWeak (hst : s.Alike t) (addr : SlotAddr) (h : Heap) :
    Agree (s.clearWeak addr h) (t.clearWeak addr h) := by
  unfold PersistentStore.clearWeak
  rcases hst.slots.get? addr with ⟨hx, hy⟩ | ⟨x, y, hx, hy, hxy⟩
  · rw [hx, hy]
    exact ⟨rfl, hst, rfl⟩
  · rw [hx, hy]
    obtain ⟨hblank, hheap⟩ := Slot.makeStrong_eq_of_blank hxy h
    exact ⟨rfl, ⟨hst.slots.write hx hy hblank, (hst.forget addr).records, hst.live⟩, hheap⟩

/-- A sweep finds the same objects in the same slots. -/
theorem doomed_eq (hst : s.Alike t) (h : Heap) : s.doomed h = t.doomed h := by
  have hmap : ∀ es : List (SlotAddr × Slot), es.foldl (Doomed.visit h) []
      = (es.map fun e => (e.1, e.2.blank)).foldl (Doomed.visit h) [] := by
    intro es
    rw [List.foldl_map]
    simp only [Doomed.visit_blank]
  rw [doomed_eq_foldl, doomed_eq_foldl, hmap, hst.slots.entries, ← hmap]

end Alike
end PersistentStore

/-! ### Sweeps -/

namespace Sweep

/-- Sweeps that have come equally far in alike stores. -/
structure Alike (w v : Sweep) : Prop where
  store : w.store.Alike v.store
  heap : w.heap = v.heap
  report : w.report = v.report

namespace Alike

variable {w v : Sweep}

theorem ask (hwv : w.Alike v) (o : ObjectId) (addr : SlotAddr) :
    (w.ask o addr).1 = (v.ask o addr).1 ∧ (w.ask o addr).2.Alike (v.ask o addr).2 := by
  obtain ⟨s, h, n⟩ := w
  obtain ⟨t, h', n'⟩ := v
  obtain ⟨hst, rfl, rfl⟩ := hwv
  unfold Sweep.ask
  dsimp only
  rw [hst.record?_eq addr]
  cases t.record? addr with
  | none => exact ⟨rfl, hst, rfl, rfl⟩
  | some r =>
    dsimp only
    split
    · exact ⟨rfl, hst, rfl, rfl⟩
    · rcases (hst.forget addr).slots.get? addr with ⟨hx, hy⟩ | ⟨x, y, hx, hy, hxy⟩
      · rw [hx, hy]
        exact ⟨rfl, hst.forget addr, rfl, rfl⟩
      · rw [hx, hy]
        obtain ⟨hblank, hheap⟩ := Slot.makeStrong_eq_of_blank hxy
          (Heap.settle (h.record _) (r.callback _ _).effects)
        exact ⟨rfl, ⟨hst.slots.write hx hy hblank, (hst.forget addr).records, hst.live⟩,
          hheap, rfl⟩

theorem askAll (hwv : w.Alike v) (o : ObjectId) (addrs : List SlotAddr) :
    (w.askAll o addrs).1 = (v.askAll o addrs).1 ∧
      (w.askAll o addrs).2.Alike (v.askAll o addrs).2 := by
  induction addrs generalizing w v with
  | nil => exact ⟨rfl, hwv⟩
  | cons addr rest ih =>
    obtain ⟨hfirst, hwv'⟩ := hwv.ask o addr
    obtain ⟨hrest, hwv''⟩ := ih hwv'
    refine ⟨?_, hwv''⟩
    simp only [Sweep.askAll, hfirst, hrest]

theorem clear (hwv : w.Alike v) (addr : SlotAddr) : (w.clear addr).Alike (v.clear addr) := by
  obtain ⟨s, h, n⟩ := w
  obtain ⟨t, h', n'⟩ := v
  obtain ⟨hst, rfl, rfl⟩ := hwv
  unfold Sweep.clear
  dsimp only
  rcases (hst.forget addr).slots.get? addr with ⟨hx, hy⟩ | ⟨x, y, hx, hy, hxy⟩
  · rw [hx, hy]
    exact ⟨hst.forget addr, rfl, rfl⟩
  · rw [hx, hy]
    obtain ⟨hdestroyed, hheap⟩ := Slot.release_eq_of_blank hxy h
    dsimp only
    rw [hdestroyed, hheap]
    refine ⟨⟨hst.slots.write hx hy ?_, (hst.forget addr).records, congrArg (· - 1) hst.live⟩,
      rfl, rfl⟩
    rw [Slot.release_emptied, Slot.release_emptied, Slot.blank_of_empty rfl,
      Slot.blank_of_empty rfl]

theorem clearAll (hwv : w.Alike v) (addrs : List SlotAddr) :
    (addrs.foldl Sweep.clear w).Alike (addrs.foldl Sweep.clear v) := by
  induction addrs generalizing w v with
  | nil => exact hwv
  | cons addr rest ih => exact ih (hwv.clear addr)

theorem judgeAll (hwv : w.Alike v) (ds : List Doomed) :
    (ds.foldl Sweep.judge w).Alike (ds.foldl Sweep.judge v) := by
  induction ds generalizing w v with
  | nil => exact hwv
  | cons d ds ih =>
    obtain ⟨hletGo, hwv'⟩ := hwv.askAll d.object d.slots
    refine ih ?_
    unfold Sweep.judge
    dsimp only
    rw [hletGo]
    exact hwv'.clearAll _

end Alike
end Sweep

namespace PersistentStore.Alike

variable {s t : PersistentStore}

theorem sweep (hst : s.Alike t) (h : Heap) : Agree (s.sweep h) (t.sweep h) := by
  have hstart : Sweep.Alike { store := s, heap := h } { store := t, heap := h } := ⟨hst, rfl, rfl⟩
  obtain ⟨hstore, hheap, hreport⟩ := hstart.judgeAll (s.doomed h)
  unfold PersistentStore.sweep
  rw [hst.doomed_eq h] at hstore hheap hreport ⊢
  exact ⟨hreport, hstore, hheap⟩

/-- **One call** answers the same on alike stores and leaves them alike. -/
theorem call (hst : s.Alike t) (h : Heap) (call : StoreCall) :
    Agree (s.reply h call, s.call h call) (t.reply h call, t.call h call) := by
  cases call with
  | make o => exact (hst.make o h).map StoreReply.made
  | delete addr => exact (hst.delete addr h).map StoreReply.deleted
  | makeWeak addr r => exact (hst.makeWeak addr r h).map StoreReply.changed
  | clearWeak addr => exact (hst.clearWeak addr h).map StoreReply.changed
  | sweep => exact (hst.sweep h).map StoreReply.swept
  | host work => exact ⟨rfl, hst, rfl⟩

/-- **No run tells alike stores apart.** -/
theorem run (hst : s.Alike t) (h : Heap) (calls : List StoreCall) :
    Agree (s.replies h calls, s.run h calls) (t.replies h calls, t.run h calls) := by
  induction calls generalizing s t h with
  | nil => exact ⟨rfl, hst, rfl⟩
  | cons call rest ih =>
    obtain ⟨hanswer, hstore, hheap⟩ := hst.call h call
    obtain ⟨hanswers, hstore', hheap'⟩ := ih hstore (s.call h call).2
    dsimp only at hanswer hheap hanswers hstore' hheap'
    simp only [replies, PersistentStore.run]
    rw [← hheap]
    exact ⟨by rw [hanswer, hanswers], hstore', hheap'⟩

end PersistentStore.Alike
end EngineHandles
