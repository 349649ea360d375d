/-
# Persistent handles in every run

Whatever is done with an isolate, its persistent handles change only by calls of the interface
of their store (`Request.reaches_serve`).  So in every run the store of each isolate comes from
a fresh one by such calls (`World.Supplied.run`), and whatever holds of a store after any calls,
such as which slots have a record, holds of the store of each isolate
(`World.Supplied.exists_recorded`).
-/

import EngineHandles.Proofs.Persistent.Records
import EngineHandles.Proofs.World.Run

namespace EngineHandles
namespace PersistentStore

variable {s s' s'' : PersistentStore}

/-- One store comes from another by calls of its interface, with any heap at each of them. -/
inductive Reaches (s : PersistentStore) : PersistentStore → Prop where
  | refl : Reaches s s
  | call {s' : PersistentStore} (before : Reaches s s') (h : Heap) (call : StoreCall) :
      Reaches s (s'.call h call).1

theorem Reaches.of_call (h : Heap) (call : StoreCall) : s.Reaches (s.call h call).1 :=
  .call .refl h call

theorem Reaches.trans (h : s.Reaches s') (h' : s'.Reaches s'') : s.Reaches s'' := by
  induction h' with
  | refl => exact h
  | call _ heap call ih => exact .call ih heap call

/-- Records stay right, for some latest calls. -/
theorem Reaches.exists_recorded (h : s.Reaches s') (hs : ∃ latest, s.Recorded latest) :
    ∃ latest, s'.Recorded latest := by
  induction h with
  | refl => exact hs
  | call _ heap call ih =>
    obtain ⟨latest, hs'⟩ := ih
    exact ⟨_, hs'.call heap call⟩

end PersistentStore

theorem Storage.persistents_removeStack (s : Storage) (t : ThreadKey) :
    (s.removeStack t).persistents = s.persistents := by
  unfold Storage.removeStack
  split
  · rfl
  · split
    · rfl
    · split <;> rfl

namespace Isolate

variable {i : Isolate} {t : ThreadKey} {w : Shared}

/-- Running an operation on the storage does to the persistent handles what the operation does. -/
theorem reaches_run {α : Type} {site : Site}
    {op : Storage → Shared → Except HandleError (α × RootTransition) × Storage × Shared}
    (hop : i.storage.persistents.Reaches (op i.storage w).2.1.persistents) :
    i.storage.persistents.Reaches (i.run t site w op).2.1.storage.persistents := by
  refine run_keeps (P := fun s _ _ => i.storage.persistents.Reaches s.persistents)
    (fun s _ _ tr hs => ?_) .refl hop
  rw [Storage.persistents_note]
  exact hs

/-- An operation on the storage that leaves the persistent handles alone. -/
theorem reaches_run_of_eq {α : Type} {site : Site}
    {op : Storage → Shared → Except HandleError (α × RootTransition) × Storage × Shared}
    (hop : (op i.storage w).2.1.persistents = i.storage.persistents) :
    i.storage.persistents.Reaches (i.run t site w op).2.1.storage.persistents := by
  refine reaches_run ?_
  rw [hop]
  exact .refl

/-! Scopes and locals. -/

theorem reaches_openScope :
    i.storage.persistents.Reaches (i.openScope t w).2.1.storage.persistents := by
  refine reaches_run_of_eq ?_
  cases i.storage.stack? t with
  | some stack => rfl
  | none =>
    dsimp only
    split <;> rfl

theorem reaches_closeScope (scope : ScopeId) :
    i.storage.persistents.Reaches (i.closeScope t scope w).2.1.storage.persistents := by
  refine reaches_run_of_eq ?_
  cases i.storage.stack? t with
  | none => rfl
  | some stack =>
    dsimp only
    split
    · rfl
    · split
      · exact Storage.persistents_removeStack i.storage t
      · rfl

theorem reaches_addLocalTo (scope : Option ScopeId) (o : ObjectId) :
    i.storage.persistents.Reaches (i.addLocalTo t scope o w).2.1.storage.persistents := by
  refine reaches_run_of_eq ?_
  cases i.storage.stack? t with
  | none => rfl
  | some stack =>
    dsimp only
    split
    · rfl
    · split <;> rfl

theorem reaches_getLocal (l : LocalHandle) :
    i.storage.persistents.Reaches (i.getLocal t l w).2.1.storage.persistents := by
  refine getLocal_keeps (P := fun s _ _ => i.storage.persistents.Reaches s.persistents)
    (fun s _ _ tr hs => ?_) l .refl
  rw [Storage.persistents_note]
  exact hs

theorem reaches_escape (scope : ScopeId) (l : LocalHandle) :
    i.storage.persistents.Reaches (i.escape t scope l w).2.1.storage.persistents := by
  refine reaches_run_of_eq ?_
  split
  · rfl
  · split
    · rfl
    · split <;> rfl

/-! Persistent handles. -/

theorem reaches_makePersistent (o : ObjectId) :
    i.storage.persistents.Reaches (i.makePersistent t o w).2.1.storage.persistents := by
  unfold makePersistent
  split
  · exact .refl
  · refine reaches_run ?_
    have hmake := PersistentStore.Reaches.of_call (s := i.storage.persistents) w.heap (.make o)
    rw [PersistentStore.call] at hmake
    split
    · next hop =>
      rw [hop] at hmake
      exact hmake
    · next hop =>
      rw [hop] at hmake
      exact hmake

theorem reaches_persistLocal (l : LocalHandle) :
    i.storage.persistents.Reaches (i.persistLocal t l w).2.1.storage.persistents := by
  have hread := reaches_getLocal (i := i) (t := t) (w := w) l
  unfold persistLocal
  split
  · next hget =>
    rw [hget] at hread
    exact hread
  · next o i' w' hget =>
    rw [hget] at hread
    exact hread.trans (reaches_makePersistent o)

/-- An operation on the persistent handles that is a call of their store. -/
theorem reaches_runOwned {α : Type} {site : Site} {owner : IsolateId}
    {op : PersistentStore → Heap → Except UsageError α × PersistentStore × Heap}
    (call : StoreCall) (hop : ∀ s h, (op s h).2 = s.call h call) :
    i.storage.persistents.Reaches (i.runOwned t site owner w op).2.1.storage.persistents := by
  refine reaches_run ?_
  have hcall := PersistentStore.Reaches.of_call (s := i.storage.persistents) w.heap call
  rw [← hop] at hcall
  split
  · exact .refl
  · split
    · next hres =>
      rw [hres] at hcall
      exact hcall
    · next hres =>
      rw [hres] at hcall
      exact hcall

end Isolate

/-- **What a request does to the persistent handles** is a call of their store, or nothing. -/
theorem Request.reaches_serve (r : Request) (t : ThreadKey) (i : Isolate) (w : Shared) :
    i.storage.persistents.Reaches (r.serve t i w).2.1.storage.persistents := by
  cases r with
  | openScope => exact Isolate.reaches_openScope
  | closeScope scope => exact Isolate.reaches_closeScope scope
  | addLocal scope o => exact Isolate.reaches_addLocalTo scope o
  | getLocal l => exact Isolate.reaches_getLocal l
  | escape scope l => exact Isolate.reaches_escape scope l
  | makePersistent o => exact Isolate.reaches_makePersistent o
  | persistLocal l => exact Isolate.reaches_persistLocal l
  | dispose p => exact Isolate.reaches_runOwned (.delete p.slot) fun _ _ => rfl
  | makeWeak p record => exact Isolate.reaches_runOwned (.makeWeak p.slot record) fun _ _ => rfl
  | clearWeak p => exact Isolate.reaches_runOwned (.clearWeak p.slot) fun _ _ => rfl
  | collectWeak => exact .of_call w.heap .sweep

namespace World

variable {w w' : World} {i : IsolateId} {iso : Isolate}

/-- The store of each isolate comes from a fresh one by calls of its interface. -/
def Supplied (w : World) : Prop :=
  ∀ iso ∈ w.isolates, ∃ c s₀, PersistentStore.ofConfig? c = .ok s₀ ∧
    s₀.Reaches iso.storage.persistents

namespace Supplied

theorem init : ({} : World).Supplied := nofun

theorem put (hw : w.Supplied) (hi : iso ∈ w.isolates) {r : Isolate × Shared}
    (hr : iso.storage.persistents.Reaches r.1.storage.persistents) : (w.put r).Supplied := by
  intro x hx
  obtain ⟨j, hj, rfl⟩ := List.mem_map.1 hx
  split
  · obtain ⟨c, s₀, hc, hs⟩ := hw iso hi
    exact ⟨c, s₀, hc, hs.trans hr⟩
  · exact hw j hj

theorem request (hw : w.Supplied) (t : ThreadKey) (i : IsolateId) (r : Request) :
    (w.act (.request t i r)).Supplied := by
  rw [act_request]
  cases hi : w.isolate? i with
  | none => exact hw
  | some iso => exact hw.put (mem_of_isolate? hi).1 (r.reaches_serve t iso w.shared)

theorem works {P : ThreadKey → Prop} (hw : w.Supplied) (h : Works P w w') : w'.Supplied := by
  induction h with
  | beside hi _ _ _ _ =>
    intro iso hiso
    exact hw iso (hi ▸ hiso)
  | @rewrite w iso iso' hi _ hstorage _ =>
    refine hw.put (r := (iso', w.shared)) (mem_of_isolate? hi).1 ?_
    rw [hstorage]
    exact .refl
  | @serve w iso hi t r _ =>
    exact hw.put (mem_of_isolate? hi).1 (r.reaches_serve t iso w.shared)
  | reap w i =>
    rcases w.reap_cases i with hr | ⟨_, -, hr⟩ <;> rw [hr]
    · exact hw
    · intro iso hiso
      exact hw iso (List.mem_filter.1 hiso).1
  | trans _ _ ih₁ ih₂ => exact ih₂ (ih₁ hw)

theorem newIsolate (hw : w.Supplied) (c : IsolateConfig) : (w.newIsolate c).2.Supplied := by
  rcases w.newIsolate_cases c with hn | ⟨iso, hc, hn⟩ <;> rw [hn]
  · exact hw
  · intro x hx
    rcases List.mem_append.1 hx with hx | hx
    · exact hw x hx
    · obtain rfl := List.mem_singleton.1 hx
      exact ⟨_, _, (Isolate.ofConfig?_eq_ok hc).2.2, .refl⟩

theorem act (hw : w.Supplied) (a : Act) : (w.act a).Supplied := by
  cases a with
  | tally | make | furnish => exact hw
  | newIsolate c => exact hw.newIsolate c
  | request t i r => exact hw.request t i r
  | openGuarded t i => exact (hw.request t i .openScope).works (w.works_openGuarded t i)
  | _ => exact hw.works (works_act w rfl)

/-- **Every store comes from a fresh one** by calls of its interface, in every run. -/
theorem run (hw : w.Supplied) (acts : List Act) : (w.run acts).Supplied := by
  induction acts generalizing w with
  | nil => exact hw
  | cons a rest ih => exact ih (hw.act a)

/-- In every isolate exactly the slots that hold their objects weakly have a record. -/
theorem exists_recorded (hw : w.Supplied) (hi : w.isolate? i = some iso) :
    ∃ latest, iso.storage.persistents.Recorded latest := by
  obtain ⟨c, s₀, hc, hs⟩ := hw iso (mem_of_isolate? hi).1
  exact hs.exists_recorded ⟨_, .of_ofConfig? hc⟩

end Supplied

end World
end EngineHandles
