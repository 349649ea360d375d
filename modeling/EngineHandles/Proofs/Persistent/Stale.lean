/-
# Stale handles

Storage is append-only: a slot that was emptied, by `delete` or by a sweep, stays empty, and
`make` always writes behind all slots.  So the addresses that are given out are the
positions in order (`issued_run`), and none comes twice.

A handle that names an emptied slot does nothing any more (`Inert`).  To delete it or to make
it weak leaves the store as it is.  To make it strong changes the kind of the empty slot,
which nobody can see (`PersistentStore.Alike`).  This is so in every later state, whatever
was called in between (`run_emptied_inert`).
-/

import EngineHandles.Proofs.Persistent.Alike

namespace EngineHandles

/-- The address that an answer gives out. -/
def StoreReply.issued? : StoreReply → Option SlotAddr
  | .made (.ok addr) => some addr
  | _ => none

namespace PersistentStore

/-- The addresses that answers give out, in order. -/
def issued (replies : List StoreReply) : List SlotAddr := replies.filterMap StoreReply.issued?

/-- Whether an address names a slot that holds nothing any more. -/
def IsEmptied (s : PersistentStore) (addr : SlotAddr) : Prop :=
  ∃ x, s.slots.get? addr = some x ∧ x.object = none

variable {s : PersistentStore} {h : Heap} {addr : SlotAddr} {c : ArenaConfig} {xs : List Slot}

/-! ### What calls do to the arena -/

/-- **All calls but `make`** write slots that there are, with their objects or with none. -/
theorem slots_call {P : Arena → Prop} (hP : ∀ {a : Arena} {addr : SlotAddr} {x : Slot}, P a →
    a.get? addr = some x → ∀ y : Slot, y.object = x.object ∨ y.object = none → P (a.write addr y))
    (hs : P s.slots) (h : Heap) (call : StoreCall)
    (hmake : ∀ o, call = .make o → P (s.make o h).2.1.slots) : P (s.call h call).1.slots := by
  cases call with
  | make o => exact hmake o rfl
  | delete addr =>
    show P (s.delete addr h).2.1.slots
    unfold delete
    cases hx : s.slots.get? addr with
    | none => exact hs
    | some x =>
      dsimp only
      split
      · exact hs
      · exact hP hs hx (x.release h).2.1 (.inr (by rw [Slot.release_emptied]; rfl))
  | makeWeak addr r =>
    show P (s.makeWeak addr r h).2.1.slots
    unfold makeWeak
    cases hx : s.slots.get? addr with
    | none => exact hs
    | some x =>
      dsimp only
      split
      · exact hs
      · exact hP hs hx (x.makeWeak h).1 (.inl (x.object_makeWeak h))
  | clearWeak addr =>
    show P (s.clearWeak addr h).2.1.slots
    unfold clearWeak
    cases hx : s.slots.get? addr with
    | none => exact hs
    | some x => exact hP hs hx (x.makeStrong h).1 (.inl (x.object_makeStrong h))
  | sweep => exact Sweep.slots_judgeAll (w := { store := s, heap := h }) hP hs _
  | host work => exact hs

/-- What `make` answers and stores. -/
theorem make_cases (hs : s.slots.Stores c xs) (o : ObjectId) (h : Heap) :
    (xs.length < c.capacity ∧ (s.make o h).1 = .ok (c.slotAt xs.length) ∧
      (s.make o h).2.1.slots.Stores c (xs ++ [.holding o .strong]) ∧
      ∀ addr, addr ≠ c.slotAt xs.length →
        (s.make o h).2.1.slots.get? addr = s.slots.get? addr) ∨
    ((∃ e, (s.make o h).1 = .error e) ∧ (s.make o h).2.1.slots = s.slots) := by
  unfold make Arena.add
  by_cases hlt : xs.length < c.capacity
  · obtain ⟨a', ha, hs', -, hframe⟩ := hs.append_frame hlt (.holding o .strong)
    rw [ha]
    exact .inl ⟨hlt, rfl, hs', hframe⟩
  · have := hs.fits
    rw [hs.append_full _ (by omega)]
    exact .inr ⟨⟨_, rfl⟩, rfl⟩

/-- **An emptied slot stays empty,** and it stays the slot of its address. -/
theorem IsEmptied.call (hx : s.IsEmptied addr) (hs : s.IsStored) (h : Heap) (call : StoreCall) :
    (s.call h call).1.IsEmptied addr := by
  refine slots_call (P := fun a => ∃ x, a.get? addr = some x ∧ x.object = none) ?_ hx h call ?_
  · rintro a b z ⟨x, hget, hnone⟩ hz y hy
    by_cases he : addr = b
    · subst he
      obtain rfl : x = z := Option.some.inj (hget.symm.trans hz)
      rw [hnone, or_self] at hy
      exact ⟨y, Arena.get?_write_self hz y, hy⟩
    · exact ⟨x, by rw [Arena.get?_write_of_ne he, hget], hnone⟩
  · rintro o -
    obtain ⟨c, xs, hs⟩ := hs
    obtain ⟨x, hget, hnone⟩ := hx
    rcases make_cases hs o h with ⟨hlt, -, -, hframe⟩ | ⟨-, hsame⟩
    · refine ⟨x, (hframe addr ?_).trans hget, hnone⟩
      rintro rfl
      rw [hs.get?_next hlt] at hget
      cases hget
    · exact ⟨x, by rw [hsame, hget], hnone⟩

/-! ### Addresses -/

/-- One call gives out the address of the next position, or stores nothing. -/
theorem issued_call (hs : s.slots.Stores c xs) (h : Heap) (call : StoreCall) :
    ∃ ys, (s.call h call).1.slots.Stores c ys ∧
      (List.range xs.length).map c.slotAt ++ (s.reply h call).issued?.toList
        = (List.range ys.length).map c.slotAt := by
  have hkeep : (∀ o, call ≠ .make o) →
      ∃ ys, (s.call h call).1.slots.Stores c ys ∧ ys.length = xs.length := fun hne => by
    refine slots_call (P := fun a => ∃ ys, a.Stores c ys ∧ ys.length = xs.length) ?_
      ⟨xs, hs, rfl⟩ h call fun o ho => absurd ho (hne o)
    rintro a addr x ⟨ys, hys, hlen⟩ hx y -
    obtain ⟨k, R, -, -, hw⟩ := hys.write hx
    exact ⟨_, (hw y).1, by rw [List.length_set, hlen]⟩
  cases call with
  | make o =>
    rcases make_cases hs o h with ⟨-, hok, hs', -⟩ | ⟨⟨e, herr⟩, hsame⟩
    · refine ⟨_, hs', ?_⟩
      simp [reply, hok, StoreReply.issued?, List.range_succ]
    · refine ⟨xs, by rw [call, hsame]; exact hs, ?_⟩
      simp [reply, herr, StoreReply.issued?]
  | _ =>
    obtain ⟨ys, hys, hlen⟩ := hkeep (by simp)
    exact ⟨ys, hys, by simp [reply, StoreReply.issued?, hlen]⟩

/-- **The addresses given out** are those of the positions, in order. -/
theorem issued_run (hs : s.slots.Stores c xs) (h : Heap) (calls : List StoreCall) :
    ∃ ys, (s.run h calls).1.slots.Stores c ys ∧
      (List.range xs.length).map c.slotAt ++ issued (s.replies h calls)
        = (List.range ys.length).map c.slotAt := by
  induction calls generalizing s h xs with
  | nil => exact ⟨xs, hs, by simp [replies, issued]⟩
  | cons call rest ih =>
    obtain ⟨ys, hys, hfirst⟩ := issued_call hs h call
    obtain ⟨zs, hzs, hrest⟩ := ih hys (s.call h call).2
    refine ⟨zs, hzs, ?_⟩
    rw [← hrest, ← hfirst, List.append_assoc]
    congr 1
    rw [replies, issued, List.filterMap_cons]
    cases (s.reply h call).issued? <;> rfl

/-! ### Inert handles -/

/-- **A handle that does nothing any more:** nothing is read through it, to delete it or to
make it weak leaves store and heap as they are, and to make it strong changes nothing that
could ever be told. -/
structure Inert (s : PersistentStore) (addr : SlotAddr) (h : Heap) : Prop where
  get_eq : s.get? addr = none
  isWeak_eq : s.isWeak addr = false
  isNearDeath_eq : s.isNearDeath addr h = false
  delete_eq : s.delete addr h = (.ok false, s, h)
  makeWeak_eq : ∀ r, s.makeWeak addr r h = (.ok (), s, h)
  clearWeak_eq : ∃ t, s.clearWeak addr h = (.ok (), t, h) ∧
    (∀ b, b ≠ addr → t.kept b = s.kept b) ∧ t.ReadsAs s ∧
    ∀ later, t.replies h later = s.replies h later ∧ (t.run h later).2 = (s.run h later).2 ∧
      (t.run h later).1.ReadsAs (s.run h later).1

theorem forget_of_none (hr : s.record? addr = none) : s.forget addr = s := by
  rw [record?, Option.map_eq_none_iff, List.find?_eq_none] at hr
  have hall : s.records.filter (fun r => r.1 != addr) = s.records :=
    List.filter_eq_self.2 fun r hmem => by simpa using hr r hmem
  rw [forget, hall]

/-- To change the kind of an empty slot leaves the arena alike. -/
theorem alike_write (hs : s.IsStored) {x y : Slot} (hx : s.slots.get? addr = some x)
    (hxy : y.blank = x.blank) : (s.slots.write addr y).Alike s.slots := by
  obtain ⟨c, xs, hs⟩ := hs
  obtain ⟨k, rfl, hk⟩ := hs.exists_of_get? hx
  obtain ⟨hlt, rfl⟩ := List.getElem?_eq_some_iff.1 hk
  refine ⟨c, _, xs, hs.write_slotAt hlt y, hs, ?_⟩
  rw [List.map_set, hxy, ← List.map_set, List.set_getElem_self]

/-- **A handle to an emptied slot is inert.** -/
theorem IsEmptied.inert {latest : SlotAddr → Option WeakRecord} (hx : s.IsEmptied addr)
    (hs : s.Recorded latest) (h : Heap) : s.Inert addr h := by
  obtain ⟨⟨object, kind⟩, hget, hnone⟩ := hx
  obtain rfl : object = none := hnone
  have hr : s.record? addr = none := (hs.fits addr).none_of_ne fun o => by
    rw [hget]
    simp [Slot.holding]
  have hforget := forget_of_none hr
  have hweak : s.isWeak addr = false := by rw [isWeak, hget]; rfl
  refine ⟨by rw [get?, hget]; rfl, hweak, by rw [isNearDeath, hweak, Bool.false_and], ?_,
    fun r => ?_, ?_⟩
  · rw [delete, hget]
    show (Except.ok false, s.forget addr, h) = _
    rw [hforget]
  · rw [makeWeak, hget]
    rfl
  · have hstrong : (⟨none, kind⟩ : Slot).makeStrong h = (⟨none, .strong⟩, h) := by
      cases kind <;> rfl
    have hrecords : (s.forget addr).records = s.records := by rw [hforget]
    have halike : ((s.write addr ⟨none, .strong⟩).forget addr).Alike s :=
      ⟨alike_write hs.stored hget rfl, hrecords, rfl⟩
    refine ⟨(s.write addr ⟨none, .strong⟩).forget addr, ?_, fun b hb => ?_, halike.reads,
      fun later => ?_⟩
    · rw [clearWeak, hget]
      dsimp only
      rw [hstrong]
    · rw [kept_write_forget hget, if_neg hb]
    · obtain ⟨hanswers, hstore, hheap⟩ := halike.run h later
      exact ⟨hanswers, hheap, hstore.reads⟩

/-- What was emptied before a run is inert after it. -/
theorem IsEmptied.run {latest : SlotAddr → Option WeakRecord} (hx : s.IsEmptied addr)
    (hs : s.Recorded latest) (h : Heap) (calls : List StoreCall) :
    (s.run h calls).1.IsEmptied addr := by
  induction calls generalizing s h latest with
  | nil => exact hx
  | cons call rest ih => exact ih (hx.call hs.stored h call) (hs.call h call) (s.call h call).2

/-- A slot that is deleted is emptied. -/
theorem isEmptied_delete {destroyed : Bool} (hok : (s.delete addr h).1 = .ok destroyed) :
    (s.delete addr h).2.1.IsEmptied addr := by
  unfold delete at hok ⊢
  cases hx : s.slots.get? addr with
  | none =>
    rw [hx] at hok
    cases hok
  | some x =>
    dsimp only
    split
    · next he => exact ⟨x, hx, Option.isNone_iff_eq_none.1 he⟩
    · refine ⟨_, Arena.get?_write_self hx _, ?_⟩
      rw [Slot.release_emptied]
      rfl

/-- **The addresses given out** by a run from a new store are the first positions, in order. -/
theorem exists_issued {c : ArenaConfig} {s₀ : PersistentStore} (hs : ofConfig? c = .ok s₀)
    (h₀ : Heap) (calls : List StoreCall) :
    ∃ xs, (s₀.run h₀ calls).1.slots.Stores c xs ∧
      issued (s₀.replies h₀ calls) = (List.range xs.length).map c.slotAt := by
  unfold ofConfig? at hs
  split at hs
  · cases hs
  · next ha =>
    cases hs
    obtain ⟨xs, hxs, he⟩ :=
      issued_run (s := { slots := _ }) (Arena.stores_of_ofConfig? ha) h₀ calls
    exact ⟨xs, hxs, he⟩

/-- **Stale handles are inert for ever.**  On every run of calls the `i`-th address that is
given out is the `i`-th position, whatever was deleted or swept before, so none is given out
twice.  A slot that is deleted, or that a sweep lets go, is emptied; and through every later
run of calls the handle to it is inert. -/
theorem run_emptied_inert {c : ArenaConfig} {s₀ : PersistentStore} (hs : ofConfig? c = .ok s₀)
    (h₀ : Heap) (calls : List StoreCall) :
    let s := (s₀.run h₀ calls).1
    let h := (s₀.run h₀ calls).2
    let addrs := issued (s₀.replies h₀ calls)
    ((∀ i addr, addrs[i]? = some addr →
        addr.slab.toNat = i / c.slabSize.toNat ∧ addr.offset.toNat = i % c.slabSize.toNat) ∧
      addrs.Nodup) ∧
    (∀ addr destroyed, (s.delete addr h).1 = .ok destroyed → (s.delete addr h).2.1.IsEmptied addr) ∧
    (∀ d ∈ s.decisions h, d.outcome = .release → (s.sweep h).2.1.IsEmptied d.call.slot) ∧
    ∀ addr, s.IsEmptied addr → ∀ later,
      (s.run h later).1.IsEmptied addr ∧ (s.run h later).1.Inert addr (s.run h later).2 := by
  intro s h addrs
  have hrec := (Recorded.of_ofConfig? hs).run h₀ calls
  obtain ⟨xs, hstores, haddrs⟩ : ∃ xs, s.slots.Stores c xs ∧
      addrs = (List.range xs.length).map c.slotAt := exists_issued hs h₀ calls
  have hfits := hstores.fits
  refine ⟨⟨fun i addr hi => ?_, ?_⟩, fun addr destroyed => isEmptied_delete, fun d hd ho => ?_,
    fun addr hx later => ?_⟩
  · rw [haddrs, List.getElem?_map] at hi
    obtain ⟨k, hk, rfl⟩ := Option.map_eq_some_iff.1 hi
    obtain ⟨hlt, rfl⟩ := List.getElem?_eq_some_iff.1 hk
    rw [List.length_range] at hlt
    rw [List.getElem_range]
    exact hstores.valid.toNat_slotAt (by omega)
  · rw [haddrs]
    refine List.Nodup.map_on (fun i hi j hj => ?_) List.nodup_range
    rw [List.mem_range] at hi hj
    exact hstores.valid.slotAt_inj (by omega) (by omega)
  · obtain ⟨-, -, hdecided, -⟩ := hrec.sweep_decided h
    exact ⟨_, congrArg Prod.fst (hdecided.released d hd ho), rfl⟩
  · have hlater := hx.run hrec h later
    exact ⟨hlater, hlater.inert (hrec.run h later) _⟩

/-- A sweep empties the first slot; afterwards a third one is made, and the stale handle is
made strong and swept again. -/
theorem run_emptied_inert_swept :
    let record : WeakRecord := ⟨0, fun _ _ => { outcome := .release }⟩
    let calls : List StoreCall := [.host fun h => (h.make ⟨.unit, []⟩).2,
      .host fun h => (h.make ⟨.unit, []⟩).2, .make ⟨0⟩, .make ⟨1⟩,
      .makeWeak (.ofCounts 0 0) record, .sweep]
    let later : List StoreCall := [.make ⟨1⟩, .clearWeak (.ofCounts 0 0), .sweep]
    let s₀ : PersistentStore := { slots := { config := ⟨2, 4⟩ } }
    let s := (s₀.run {} calls).1
    let h := (s₀.run {} calls).2
    ofConfig? ⟨2, 4⟩ = .ok s₀ ∧ s.IsEmptied (.ofCounts 0 0) ∧
      (s.run h later).1.Inert (.ofCounts 0 0) (s.run h later).2 := by
  intro record calls later s₀ s h
  have hs : ofConfig? ⟨2, 4⟩ = .ok s₀ := rfl
  have hempty : s.IsEmptied (.ofCounts 0 0) := ⟨⟨none, .weak⟩, by decide, rfl⟩
  have hall := run_emptied_inert hs {} calls
  exact ⟨hs, hempty, (hall.2.2.2 _ hempty later).2⟩

end PersistentStore
end EngineHandles
