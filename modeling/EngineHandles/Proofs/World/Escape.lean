/-
# Escapes in every run

In a run that opens no more scopes than there are ids, the scopes that are open on a thread
are different ones (`World.Housed.run`).  So an escape that succeeds moves the object that
its slot denotes in the scope that is closed; the local that it was asked to move denotes
that object just if it names this scope, and is stale otherwise (`World.run_escapes`).
-/

import EngineHandles.Proofs.World.Scopes

namespace EngineHandles

namespace World

/-- **What escapes move,** in every state that a run reaches which opens no more scopes than
there are ids.  If an escape from a scope succeeds, the local that it answers denotes the
object that the slot of the moved local denotes in that scope.  The moved local itself
denotes this object if it names that scope; if it names another one, whose slot this may
have been before, it is stale, and yet the escape succeeds.  A guard's escape is one of its
isolate. -/
theorem run_escapes (acts : List Act) (hopened : acts.countP Act.opensScope ≤ 2 ^ 64) :
    let w := ({} : World).run acts
    (∀ iso ∈ w.isolates, ∀ t scope l l', (iso.escape t scope l w.shared).1 = .ok l' →
      ∃ o, (iso.getLocal t { l with scope } w.shared).1 = .ok o ∧
        ((iso.escape t scope l w.shared).2.1.getLocal t l'
          (iso.escape t scope l w.shared).2.2).1 = .ok o ∧
        (iso.getLocal t l w.shared).1
          = if l.scope = scope then .ok o else .error (.usage (.staleLocal l.scope))) ∧
    ∀ g scope l l' w', w.escapeGuard? g scope l = some (.ok l', w') →
      ∃ iso ∈ w.isolates, iso.id = g.isolate ∧
        (iso.escape g.thread scope l w.shared).1 = .ok l' := by
  intro w
  have hdrawn := World.opened_le {} acts
  obtain ⟨homes, -, hs, -⟩ := housed_init.run acts (by
    rw [List.length_nil]
    omega)
  constructor
  · intro iso hi t scope l l' hesc
    exact Isolate.escape_ok (hs.of_stack? hi) hesc
  · intro g scope l l' w' hesc
    unfold escapeGuard? at hesc
    split at hesc
    · cases hesc
    · next hp =>
      cases hesc
      obtain ⟨iso, hi, he, -⟩ := perform?_eq_some_iff.1 hp
      obtain ⟨hmem, hid⟩ := mem_of_isolate? hi
      exact ⟨iso, hmem, hid, he.symm⟩
    · obtain ⟨w₂, -, he⟩ := Option.map_eq_some_iff.1 hesc
      cases he

/-- After this run the slot of a local whose scope was closed holds another object, in
another scope. -/
def slotReused : List Act :=
  [.make ⟨.unit, []⟩,
    .make ⟨.unit, []⟩,
    .newIsolate {},
    .enter ⟨0⟩ ⟨1⟩,
    .request ⟨0⟩ ⟨1⟩ .openScope,
    .request ⟨0⟩ ⟨1⟩ .openScope,
    .request ⟨0⟩ ⟨1⟩ (.addLocal none ⟨0⟩),
    .request ⟨0⟩ ⟨1⟩ (.closeScope ⟨2⟩),
    .request ⟨0⟩ ⟨1⟩ .openScope,
    .request ⟨0⟩ ⟨1⟩ (.addLocal none ⟨1⟩)]

/-- The local is stale, and yet its escape succeeds. -/
theorem run_escapes_slotReused :
    slotReused.countP Act.opensScope ≤ 2 ^ 64 ∧
      ∃ iso ∈ (({} : World).run slotReused).isolates, ∃ l',
        (iso.escape ⟨0⟩ ⟨3⟩ ⟨⟨1⟩, ⟨2⟩, .ofCounts 0 0⟩ (({} : World).run slotReused).shared).1
          = .ok l' ∧
        (iso.getLocal ⟨0⟩ ⟨⟨1⟩, ⟨2⟩, .ofCounts 0 0⟩ (({} : World).run slotReused).shared).1
          = .error (.usage (.staleLocal ⟨2⟩)) := by
  have hopened : slotReused.countP Act.opensScope ≤ 2 ^ 64 := by decide
  have hescape : ((({} : World).run slotReused).isolate? ⟨1⟩).map (fun iso =>
      (iso.escape ⟨0⟩ ⟨3⟩ ⟨⟨1⟩, ⟨2⟩, .ofCounts 0 0⟩ (({} : World).run slotReused).shared).1)
      = some (.ok ⟨⟨1⟩, ⟨1⟩, .ofCounts 0 0⟩) := by
    decide +kernel
  obtain ⟨iso, hi, hescape⟩ := Option.map_eq_some_iff.1 hescape
  obtain ⟨hmem, -⟩ := mem_of_isolate? hi
  obtain ⟨o, -, -, hget⟩ := (run_escapes slotReused hopened).1 iso hmem _ _ _ _ hescape
  rw [if_neg (by decide)] at hget
  exact ⟨hopened, iso, hmem, _, hescape, hget⟩

/-- So not every local that an escape moves can be read. -/
theorem not_escape_only_readable :
    ¬ ∀ (acts : List Act) (iso : Isolate) (t : ThreadKey) (scope : ScopeId) (l l' : LocalHandle),
      iso ∈ (({} : World).run acts).isolates →
      (iso.escape t scope l (({} : World).run acts).shared).1 = .ok l' →
      ∃ o, (iso.getLocal t l (({} : World).run acts).shared).1 = .ok o := by
  intro h
  have hboth : ((({} : World).run slotReused).isolate? ⟨1⟩).map (fun iso =>
      ((iso.escape ⟨0⟩ ⟨3⟩ ⟨⟨1⟩, ⟨2⟩, .ofCounts 0 0⟩ (({} : World).run slotReused).shared).1,
        (iso.getLocal ⟨0⟩ ⟨⟨1⟩, ⟨2⟩, .ofCounts 0 0⟩ (({} : World).run slotReused).shared).1))
      = some (.ok ⟨⟨1⟩, ⟨1⟩, .ofCounts 0 0⟩, .error (.usage (.staleLocal ⟨2⟩))) := by
    decide +kernel
  obtain ⟨iso, hi, hboth⟩ := Option.map_eq_some_iff.1 hboth
  obtain ⟨hescape, hget⟩ := Prod.mk.inj hboth
  obtain ⟨o, ho⟩ := h slotReused iso ⟨0⟩ ⟨3⟩ _ _ (mem_of_isolate? hi).1 hescape
  rw [hget] at ho
  cases ho

end World
end EngineHandles
