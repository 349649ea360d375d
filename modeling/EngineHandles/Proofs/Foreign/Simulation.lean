/-
# Calls simulate the library

After any calls, and threads that end between them, every call does what the method for which
it stands does, and nothing else (`Surface.run_simulates`).  A call is refused, and leaves
everything as it is, exactly if a handle does not resolve or a pointer is missing
(`Surface.resolve`); otherwise the isolate is there, so the method has a result
(`Hosts.exists_result`), and the call tells this result.

A status alone says whether a call was refused: no failure of a method has one of the two
statuses of a refusal, but for an object without a word, which is only read
(`Result.eq_of_status`).  A call that answers only a slot says so by the null slot, as an arena
gives no slot this address (`ArenaConfig.IsValid.slotAt_ne_null`).
-/

import EngineHandles.Proofs.Arena.Addresses
import EngineHandles.Proofs.Foreign.Lent
import EngineHandles.Proofs.World.Rooting

namespace EngineHandles

/-! ### No local is at the null address -/

/-- A local that is added lies at the address of a position, and the frontier is that of an
arena that ends there. -/
theorem ScopeStack.IsFramed.added_eq {s : ScopeStack} (hs : s.IsFramed) {o : ObjectId} {h : Heap}
    {a : LocalAdded} (ha : (s.add o h).1 = .ok a) :
    ∃ c n, ArenaConfig.IsValid c ∧ a.added = ⟨c.slotAt n, c.frontierAt (n + 1)⟩ := by
  obtain ⟨c, xs, ps, hs⟩ := hs
  refine ⟨c, xs.length, hs.stores.valid, ?_⟩
  unfold add at ha
  cases hi : s.innermost? with
  | none =>
    rw [hi] at ha
    cases ha
  | some scope =>
    rw [hi] at ha
    dsimp only at ha
    rw [Arena.add] at ha
    rcases Nat.lt_or_ge xs.length c.capacity with hlt | hge
    · obtain ⟨_, happ, -⟩ := hs.stores.append_ok (.holding o .strong) hlt
      rw [happ] at ha
      cases ha
      rfl
    · rw [hs.stores.append_full (.holding o .strong) (Nat.le_antisymm hs.stores.fits hge)] at ha
      cases ha

/-- **What a new local answers,** no address of which is the null address. -/
theorem Isolate.ne_null_of_addLocalTo {i : Isolate} {t : ThreadKey} {w : Shared}
    (hi : i.storage.Rooted) {scope : Option ScopeId} {o : ObjectId} {l : LocalHandle}
    {f : Frontier} (h : (i.addLocalTo t scope o w).1 = .ok (l, f)) :
    l.slot ≠ .null ∧ f.nextFree ≠ .null ∧ f.limit ≠ .null := by
  obtain ⟨stack, a, hstack, ha, hlf, -⟩ := addLocalTo_eq_ok h
  obtain ⟨rfl, rfl⟩ := Prod.mk.inj hlf
  obtain ⟨c, n, hc, hadded⟩ := (hi.framed_of_stack? hstack).added_eq ha
  rw [hadded]
  exact ⟨hc.slotAt_ne_null n, hc.nextFree_ne_null _, hc.limit_ne_null _⟩

/-- Reading a local keeps the heap. -/
theorem Isolate.heap_getLocal (i : Isolate) (t : ThreadKey) (l : LocalHandle) (w : Shared) :
    (i.getLocal t l w).2.2.heap = w.heap := by
  rcases i.getLocal_cases t l w with ⟨e, h⟩ | ⟨o, h⟩ <;> rw [h]
  rfl

/-! ### Statuses of failures -/

namespace Foreign

namespace Call

variable {c : Surface} {call : Call} {m : Method} {o : ObjectId}

/-- Whether a call makes, looks up or gives up the handle of an object, and does nothing else
to the object. -/
def isOfObjects : Call → Bool
  | .objectNew _ _ | .objectRelease _ | .objectPayload _ _ | .objectRefcount _ _ _
  | .objectIsDestroyed _ _ | .localGet _ _ _ _ _ => true
  | _ => false

end Call

namespace Surface

variable {c : Surface} {call : Call} {m : Method}

/-- Handles of objects come and go without the objects. -/
theorem Hosts.cell_eq (hc : c.Hosts) (hcall : call.isOfObjects = true)
    (hm : call.method? c = some m) {o : ObjectId} (ho : c.world.heap.contains o = true) :
    (m.effect c.world).heap.cell o = c.world.heap.cell o := by
  cases call with
  | objectNew payload =>
    obtain rfl := Option.some.inj hm
    refine (Heap.cell_make _ _ o).trans (if_neg ?_)
    rintro rfl
    exact Heap.not_contains_make _ _ ho
  | objectRelease | objectPayload | objectRefcount | objectIsDestroyed =>
    obtain ⟨_, -, rfl⟩ := Option.map_eq_some_iff.1 hm
    rfl
  | localGet t h scope slot =>
    obtain ⟨i, hi, rfl⟩ := Option.map_eq_some_iff.1 hm
    obtain ⟨iso, hiso⟩ := Option.isSome_iff_exists.1 (hc h i hi)
    rw [effect_request hiso]
    exact congrArg (fun heap => Heap.cell heap o) (iso.heap_getLocal t _ c.world.shared)
  | _ => cases hcall

/-- The storage of an isolate is as a run of acts leaves it. -/
theorem Sound.rooted (hc : c.Sound) {i : IsolateId} {iso : Isolate}
    (hiso : c.world.isolate? i = some iso) : iso.storage.Rooted := by
  obtain ⟨acts, hacts⟩ := hc.reached
  refine (World.rooted_run acts).2 iso ?_
  rw [← hacts]
  exact (World.mem_of_isolate? hiso).1

end Surface
end Foreign
end EngineHandles
