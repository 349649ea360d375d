/-
# Answers without the null address

A call from outside that makes a local answers three words, the addresses of its slot, of the
next free one and of the end of the slab, or three times the null address.  A caller tells the
two apart by any one of the words: the call answers the addresses of the local that it makes
(`Foreign.Surface.localNew_fst`), and none of them is the null address, as the arena behind
them has a valid configuration (`Isolate.ne_null_of_addLocalTo`).

`SlotAddr.run_addresses_faithful` puts this beside what makes it so: that words stand for pairs,
and that the arena's counts fit into these.
-/

import EngineHandles.Proofs.Foreign.Simulation

namespace EngineHandles

namespace Foreign

/-- Whether one of the words is the null address. -/
def SlotRef.HasNull (r : SlotRef) : Prop := SlotAddr.null.raw ∈ [r.slot, r.nextFree, r.limit]

/-- **The words of a local** are null only if one of its addresses is. -/
theorem SlotRef.not_hasNull_ofLocal {l : LocalHandle} {f : Frontier} (hslot : l.slot ≠ .null)
    (hnext : f.nextFree ≠ .null) (hlimit : f.limit ≠ .null) : ¬ (ofLocal l f).HasNull := by
  have hraw : ∀ {a : SlotAddr}, a ≠ .null → SlotAddr.null.raw ≠ a.raw :=
    fun ha he => ha (SlotAddr.ext he.symm)
  intro h
  simp only [HasNull, ofLocal, List.mem_cons, List.not_mem_nil, or_false] at h
  rcases h with h | h | h
  · exact hraw hslot h
  · exact hraw hnext h
  · exact hraw hlimit h

namespace Surface

variable {c : Surface}

/-- The local that a call makes, with the frontier behind it, unless the call fails: because a
handle does not resolve, or because the isolate refuses the local. -/
def localMade? (c : Surface) (t : ThreadKey) (isolate object : UInt64) :
    Option (LocalHandle × Frontier) :=
  (c.isolate? isolate).bind fun i =>
    (c.objects.get? object).bind fun o => (i.addLocal t o c.world.shared).1.toOption

/-- **A call answers the local that it makes,** or null words. -/
theorem localNew_fst (c : Surface) (t : ThreadKey) (isolate object : UInt64) :
    (c.localNew t isolate object).1
      = (c.localMade? t isolate object).elim .null fun (l, f) => .ofLocal l f := by
  rw [localNew, localMade?, isolate?]
  cases c.objects.get? object with
  | none => simp
  | some o =>
    dsimp only
    rw [perform?]
    cases c.isolates.get? isolate with
    | none => rfl
    | some i =>
      dsimp only [Option.bind_some]
      rw [World.perform?]
      cases c.world.isolate? i with
      | none => rfl
      | some iso =>
        dsimp only [Option.bind_some]
        generalize iso.addLocal t o c.world.shared = r
        obtain ⟨e | ⟨l, f⟩, left⟩ := r <;> rfl

/-- **No word of a local that is made is null.** -/
theorem Sound.not_hasNull (hc : c.Sound) {t : ThreadKey} {isolate object : UInt64}
    {l : LocalHandle} {f : Frontier} (h : c.localMade? t isolate object = some (l, f)) :
    ¬ (SlotRef.ofLocal l f).HasNull := by
  obtain ⟨iso, hiso, h⟩ := Option.bind_eq_some_iff.1 h
  obtain ⟨o, -, h⟩ := Option.bind_eq_some_iff.1 h
  obtain ⟨i, -, hiso⟩ := Option.bind_eq_some_iff.1 hiso
  have hadd : (iso.addLocal t o c.world.shared).1 = .ok (l, f) := by
    cases hr : (iso.addLocal t o c.world.shared).1 with
    | error e =>
      rw [hr] at h
      cases h
    | ok p =>
      rw [hr] at h
      exact congrArg Except.ok (Option.some.inj h)
  obtain ⟨hslot, hnext, hlimit⟩ := Isolate.ne_null_of_addLocalTo (hc.rooted hiso) hadd
  exact SlotRef.not_hasNull_ofLocal hslot hnext hlimit

/-- Calls that set an isolate up with the greatest arenas for locals, open a scope there, and
make an object. -/
def greatestScopeOpened : List Event :=
  [.call (.create (some { localSlabSize := 4294967294, localMaxSlabs := 4294967294 }) true),
    .call (.enter ⟨0⟩ 1), .call (.scopeOpen ⟨0⟩ 1 true), .call (.objectNew 7 true)]

end Surface
end Foreign

namespace SlotAddr

open Foreign (Event Surface SlotRef)

/-- **Addresses are faithful up to the limits.**  Packing takes the pairs of a slab and an
offset to all words, one to one, with `slab` and `offset` for its inverse, and words are
ordered as pairs are.  Whatever the numbers of a valid configuration, which go up to the greatest
word but one, and whatever an arena went through: it packs no count that does not fit, its slots
have addresses that increase in order of adding, and no address that it tells is the null
address (`Arena.Addressed`).  So of the words that a call from outside answers for a new local
none is the null address, and if the call fails they all are. -/
theorem run_addresses_faithful {σ : Type} {c : ArenaConfig} (hc : c.IsValid) (w : Heap × σ)
    (calls : List (ArenaCall σ)) (events : List Event) :
    let after := Arena.run { config := c } w calls
    let surface := ({} : Surface).run events
    (Function.Bijective fun p : UInt32 × UInt32 => (ofParts p.1 p.2).raw) ∧
    (∀ s o, (ofParts s o).slab = s ∧ (ofParts s o).offset = o) ∧
    (∀ a, ofParts a.slab a.offset = a) ∧
    (∀ a b : SlotAddr,
      a.raw < b.raw ↔ Prod.Lex (· < ·) (· < ·) (a.slab, a.offset) (b.slab, b.offset)) ∧
    (∀ d : ArenaConfig, d.IsValid ↔ (1 ≤ d.slabSize.toNat ∧ d.slabSize.toNat ≤ 2 ^ 32 - 2) ∧
      1 ≤ d.maxSlabs.toNat ∧ d.maxSlabs.toNat ≤ 2 ^ 32 - 2) ∧
    after.2.1.Addressed after.1 ∧
    ∀ t isolate object,
      (∀ l f, surface.localMade? t isolate object = some (l, f) →
        (surface.localNew t isolate object).1 = .ofLocal l f ∧ ¬ (SlotRef.ofLocal l f).HasNull) ∧
      (surface.localMade? t isolate object = none →
        (surface.localNew t isolate object).1 = .null) := by
  intro after surface
  have hsound : surface.Sound := Surface.Sound.init.run events
  refine ⟨bijective_raw, fun s o => ⟨slab_ofParts s o, offset_ofParts s o⟩, ofParts_slab_offset,
    raw_lt_raw_iff, ArenaConfig.isValid_iff_le, Arena.addressed_run hc w calls, ?_⟩
  intro t isolate object
  refine ⟨fun l f hmade => ⟨?_, hsound.not_hasNull hmade⟩, fun hnone => ?_⟩
  · rw [Surface.localNew_fst, hmade]
    rfl
  · rw [Surface.localNew_fst, hnone]
    rfl

/-- Slabs of the greatest size, and as many of them as there can be.  A slot is cut away and
another one takes its address; the end of the slab comes next to the null address, seen from
inside and from outside.  There is no second object. -/
theorem run_addresses_faithful_greatest :
    let c : ArenaConfig := ⟨4294967294, 4294967294⟩
    let calls : List (ArenaCall Unit) :=
      [.add ⟨0⟩, .adopt ⟨1⟩, .delete (some (.ofCounts 0 1)), .add ⟨2⟩]
    let after := Arena.run { config := c } ({}, ()) calls
    let surface := ({} : Surface).run Surface.greatestScopeOpened
    c.IsValid ∧ after.2.1.entries.map Prod.fst = [.ofCounts 0 0, .ofCounts 0 1] ∧
      after.2.1.frontier.limit = .ofParts 0 4294967294 ∧ after.2.1.Addressed after.1 ∧
      (surface.localNew ⟨0⟩ 1 1).1 = ⟨0, 1, 4294967294⟩ ∧
      ¬ (surface.localNew ⟨0⟩ 1 1).1.HasNull ∧ (surface.localNew ⟨0⟩ 1 2).1 = .null := by
  intro c calls after surface
  have hc : c.IsValid := by decide
  obtain ⟨-, -, -, -, -, haddressed, hlocal⟩ :=
    run_addresses_faithful hc ({}, ()) calls Surface.greatestScopeOpened
  have hsome : (surface.localMade? ⟨0⟩ 1 1).isSome = true := by decide +kernel
  have hnone : surface.localMade? ⟨0⟩ 1 2 = none := by decide +kernel
  obtain ⟨⟨l, f⟩, hmade⟩ := Option.isSome_iff_exists.1 hsome
  obtain ⟨hwords, hnull⟩ := (hlocal ⟨0⟩ 1 1).1 l f hmade
  exact ⟨hc, by decide, by decide, haddressed, by decide +kernel, by rwa [hwords],
    (hlocal ⟨0⟩ 1 2).2 hnone⟩

end SlotAddr
end EngineHandles
