/-
# The scopes of an isolate

A request uses the scope stack of the thread that makes it, and leaves the stacks of the
others alone.  Unless it opens a scope, each stack that is there afterwards comes from the
stack of the same thread by calls that open none (`Request.evolves_serve`), and no id is
drawn from the supply that all isolates share; a scope that is opened goes on the thread's
stack under the next id (`Isolate.openScope_cases`).

If the open scopes of a thread have distinct ids, an escape moves what its local denotes
just if the local names the scope that is closed (`Isolate.escape_ok`).
-/

import EngineHandles.Proofs.Isolate.Request
import EngineHandles.Proofs.Scope.Lasting

namespace EngineHandles
namespace Storage

variable {s : Storage} {t : ThreadKey} {stack stack' : ScopeStack}

theorem stack?_setStack (s : Storage) (t : ThreadKey) (stack : ScopeStack) :
    (s.setStack t stack).stack? t = some stack := by
  rw [stack?, setStack]
  dsimp only
  rw [Keyed.find?_write Prod.fst _ (t, stack), if_pos rfl, Option.map_some]

theorem stack?_note (s : Storage) (tr : RootTransition) (t : ThreadKey) :
    (s.note tr).stack? t = s.stack? t := by
  rw [stack?, scopeStacks_note, stack?]

theorem mem_setStack {e : ThreadKey × ScopeStack}
    (he : e ∈ (s.setStack t stack).scopeStacks) : e ∈ s.scopeStacks ∨ e = (t, stack) := by
  rw [setStack] at he
  dsimp only at he
  split at he
  · obtain ⟨e', he', rfl⟩ := List.mem_map.1 he
    split
    · exact .inr rfl
    · exact .inl he'
  · rcases List.mem_append.1 he with he | he
    · exact .inl he
    · exact .inr (List.mem_singleton.1 he)

theorem mem_removeStack {e : ThreadKey × ScopeStack}
    (he : e ∈ (s.removeStack t).scopeStacks) : e ∈ s.scopeStacks := by
  unfold removeStack at he
  cases hlast : s.scopeStacks.getLast? with
  | none =>
    rw [hlast] at he
    exact he
  | some last =>
    rw [hlast] at he
    dsimp only at he
    split at he
    · exact List.dropLast_subset _ he
    · split at he
      · obtain ⟨e', he', rfl⟩ := List.mem_map.1 he
        split
        · exact List.mem_of_getLast? hlast
        · exact List.dropLast_subset _ he'
      · exact he

theorem stack?_of_mem (hnd : s.owners.Nodup) (h : (t, stack) ∈ s.scopeStacks) :
    s.stack? t = some stack := by
  rw [stack?, Keyed.find?_of_mem hnd h rfl, Option.map_some]

theorem stack?_removeStack (hnd : s.owners.Nodup) (ht : s.stack? t = some stack) :
    (s.removeStack t).stack? t = none := by
  cases ht' : (s.removeStack t).stack? t with
  | none => rfl
  | some stack' =>
    exact absurd (List.mem_map_of_mem (mem_of_stack? ht')) (nodup_removeStack hnd ht).2

/-- Each thread's stack comes from the one that it had, by calls that open no scope. -/
structure Evolves (s s' : Storage) : Prop where
  owners : s.owners.Nodup → s'.owners.Nodup
  origin : ∀ {t stack'}, (t, stack') ∈ s'.scopeStacks →
    ∃ stack, (t, stack) ∈ s.scopeStacks ∧ stack.Reaches stack'

theorem Evolves.trans {s' s'' : Storage} (h : s.Evolves s') (h' : s'.Evolves s'') :
    s.Evolves s'' := by
  refine ⟨fun hnd => h'.owners (h.owners hnd), fun hmem => ?_⟩
  obtain ⟨stack', hmem', hreach'⟩ := h'.origin hmem
  obtain ⟨stack, hmem, hreach⟩ := h.origin hmem'
  exact ⟨stack, hmem, hreach.trans hreach'⟩

theorem Evolves.of_eq {s' : Storage} (h : s'.scopeStacks = s.scopeStacks) : s.Evolves s' := by
  refine ⟨fun hnd => ?_, fun hmem => ⟨_, h ▸ hmem, .refl⟩⟩
  rw [Storage.owners, h]
  exact hnd

theorem Evolves.refl (s : Storage) : s.Evolves s := .of_eq rfl

theorem Evolves.note {s' : Storage} (h : s.Evolves s') (tr : RootTransition) :
    s.Evolves (s'.note tr) := h.trans (.of_eq (scopeStacks_note s' tr))

theorem Evolves.setStack (ht : s.stack? t = some stack) (h : stack.Reaches stack') :
    s.Evolves (s.setStack t stack') := by
  refine ⟨fun hnd => nodup_setStack hnd t stack', fun hmem => ?_⟩
  rcases mem_setStack hmem with hmem | he
  · exact ⟨_, hmem, .refl⟩
  · obtain ⟨rfl, rfl⟩ := Prod.mk.inj he
    exact ⟨stack, mem_of_stack? ht, h⟩

theorem Evolves.removeStack (ht : s.stack? t = some stack) : s.Evolves (s.removeStack t) :=
  ⟨fun hnd => (nodup_removeStack hnd ht).1, fun hmem => ⟨_, mem_removeStack hmem, .refl⟩⟩

end Storage

namespace Isolate

variable {i : Isolate} {t : ThreadKey} {w : Shared}

/-- What an operation that opens no scope leaves behind. -/
structure Evolves (i : Isolate) (w : Shared) (r : Isolate × Shared) : Prop where
  storage : i.storage.Evolves r.1.storage
  next_eq : r.2.nextScope = w.nextScope

theorem Evolves.of_eq {r : Isolate × Shared} (h : r.1.storage.scopeStacks = i.storage.scopeStacks)
    (hnext : r.2.nextScope = w.nextScope) : i.Evolves w r := ⟨.of_eq h, hnext⟩

theorem Evolves.trans {i' : Isolate} {w' : Shared} {r : Isolate × Shared}
    (h : i.Evolves w (i', w')) (h' : i'.Evolves w' r) : i.Evolves w r :=
  ⟨h.storage.trans h'.storage, h'.next_eq.trans h.next_eq⟩

/-- Running an operation that opens no scope. -/
theorem evolves_run {α : Type} {site : Site}
    {op : Storage → Shared → Except HandleError (α × RootTransition) × Storage × Shared}
    (hop : i.storage.Evolves (op i.storage w).2.1 ∧
      (op i.storage w).2.2.nextScope = w.nextScope) : i.Evolves w (i.run t site w op).2 := by
  rcases (run_cases i t site w op).2 with ⟨hs, -, hnext⟩ | ⟨⟨tr, hs⟩, -, hnext⟩
  · exact .of_eq (congrArg Storage.scopeStacks hs) hnext
  · refine ⟨?_, hnext.trans hop.2⟩
    rw [hs]
    exact hop.1.note tr

theorem evolves_closeScope (scope : ScopeId) : i.Evolves w (i.closeScope t scope w).2 := by
  refine evolves_run ?_
  cases ht : i.storage.stack? t with
  | none => exact ⟨.refl _, rfl⟩
  | some stack =>
    have hreach : stack.Reaches (stack.leave scope w.heap).2.1 :=
      .call .refl (rfl : (ScopeCall.leave scope).opened? = none) w.heap
    dsimp only
    generalize stack.leave scope w.heap = r at hreach
    obtain ⟨r, stack', heap⟩ := r
    cases r with
    | error e => exact ⟨.setStack ht hreach, rfl⟩
    | ok r =>
      dsimp only
      split
      · exact ⟨.removeStack ht, rfl⟩
      · exact ⟨.setStack ht hreach, rfl⟩

theorem evolves_addLocalTo (scope : Option ScopeId) (o : ObjectId) :
    i.Evolves w (i.addLocalTo t scope o w).2 := by
  refine evolves_run ?_
  cases ht : i.storage.stack? t with
  | none => exact ⟨.refl _, rfl⟩
  | some stack =>
    have hreach : stack.Reaches (stack.add o w.heap).2.1 :=
      .call .refl (rfl : (ScopeCall.add o).opened? = none) w.heap
    dsimp only
    cases addFault? stack scope with
    | some e => exact ⟨.refl _, rfl⟩
    | none =>
      dsimp only
      generalize stack.add o w.heap = r at hreach
      obtain ⟨r, stack', heap⟩ := r
      cases r <;> exact ⟨.setStack ht hreach, rfl⟩

theorem evolves_getLocal (l : LocalHandle) : i.Evolves w (i.getLocal t l w).2 := by
  have := getLocal_keeps (i := i) (t := t) (w := w) (P := fun s _ next =>
    i.storage.Evolves s ∧ next = w.nextScope) (fun _ _ _ tr h => ⟨h.1.note tr, h.2⟩) l
    ⟨.refl _, rfl⟩
  exact ⟨this.1, this.2⟩

theorem evolves_escape (scope : ScopeId) (l : LocalHandle) :
    i.Evolves w (i.escape t scope l w).2 := by
  refine evolves_run ?_
  split
  · exact ⟨.refl _, rfl⟩
  · cases ht : i.storage.stack? t with
    | none => exact ⟨.refl _, rfl⟩
    | some stack =>
      have hreach : stack.Reaches (stack.escape scope l.slot w.heap).2.1 :=
        .call .refl (rfl : (ScopeCall.escape scope l.slot).opened? = none) w.heap
      dsimp only
      generalize stack.escape scope l.slot w.heap = r at hreach
      obtain ⟨r, stack', heap⟩ := r
      cases r <;> exact ⟨.setStack ht hreach, rfl⟩

theorem evolves_makePersistent (o : ObjectId) : i.Evolves w (i.makePersistent t o w).2 := by
  unfold makePersistent
  split
  · exact .of_eq rfl rfl
  · refine evolves_run ?_
    generalize i.storage.persistents.make o w.heap = r
    obtain ⟨r, p, heap⟩ := r
    cases r <;> exact ⟨.of_eq rfl, rfl⟩

theorem evolves_persistLocal (l : LocalHandle) : i.Evolves w (i.persistLocal t l w).2 := by
  have hget := evolves_getLocal (i := i) (t := t) (w := w) l
  unfold persistLocal
  generalize i.getLocal t l w = r at hget
  obtain ⟨r, i', w'⟩ := r
  cases r with
  | error e => exact hget
  | ok o => exact hget.trans (evolves_makePersistent o)

theorem evolves_runOwned {α : Type} {site : Site} {owner : IsolateId}
    {op : PersistentStore → Heap → Except UsageError α × PersistentStore × Heap} :
    i.Evolves w (i.runOwned t site owner w op).2 := by
  refine evolves_run ?_
  split
  · exact ⟨.refl _, rfl⟩
  · generalize op i.storage.persistents w.heap = r
    obtain ⟨r, p, heap⟩ := r
    cases r <;> exact ⟨.of_eq rfl, rfl⟩

/-- **What opening a scope does:** nothing, or the next id goes on top of the thread's
stack, or on a new one. -/
theorem openScope_cases (i : Isolate) (t : ThreadKey) (w : Shared) :
    i.Evolves w (i.openScope t w).2 ∨
      ∃ stack, (i.storage.stack? t = some stack ∨
          ScopeStack.ofConfig? i.config.locals = .ok stack) ∧
        (i.openScope t w).2.1.storage.scopeStacks
          = (i.storage.setStack t (stack.enter w.nextScope)).scopeStacks ∧
        (i.openScope t w).2.2.nextScope = w.nextScope.next := by
  suffices hcases : (i.storage.Evolves (i.openScope t w).2.1.storage ∧
      (i.openScope t w).2.2.nextScope = w.nextScope) ∨ _ from
    hcases.imp_left fun h => ⟨h.1, h.2⟩
  refine run_keeps (P := fun s _ next => (i.storage.Evolves s ∧ next = w.nextScope) ∨
    ∃ stack, (i.storage.stack? t = some stack ∨
        ScopeStack.ofConfig? i.config.locals = .ok stack) ∧
      s.scopeStacks = (i.storage.setStack t (stack.enter w.nextScope)).scopeStacks ∧
      next = w.nextScope.next) ?_ (.inl ⟨.refl _, rfl⟩) ?_
  · rintro s _ next tr (h | ⟨stack, ht, hs, hnext⟩)
    · exact .inl ⟨h.1.note tr, h.2⟩
    · exact .inr ⟨stack, ht, (Storage.scopeStacks_note s tr).trans hs, hnext⟩
  · cases ht : i.storage.stack? t with
    | some stack => exact .inr ⟨stack, .inl rfl, rfl, rfl⟩
    | none =>
      dsimp only
      cases hnew : ScopeStack.ofConfig? i.config.locals with
      | error e => exact .inl ⟨.refl _, rfl⟩
      | ok stack => exact .inr ⟨stack, .inr rfl, rfl, rfl⟩

/-! ### What a local denotes -/

/-- Whether a scope is open on the stack of a thread. -/
def isOpen (i : Isolate) (t : ThreadKey) (scope : ScopeId) : Bool :=
  (i.storage.stack? t).any fun stack => stack.isOpen scope

theorem isOpen_of_stack? {stack : ScopeStack} (ht : i.storage.stack? t = some stack)
    (scope : ScopeId) : i.isOpen t scope = stack.isOpen scope := by
  rw [isOpen, ht, Option.any_some]

/-- A thread that is inside, and owns the lock if there is one, may touch the storage. -/
theorem accessFault?_eq_none (hin : i.registry.contains t = true)
    (hlock : i.lock.lockingMode = true → i.lock.isHeldBy t = true) : i.accessFault? t = none := by
  unfold accessFault?
  rw [hin]
  cases hmode : i.lock.lockingMode with
  | false => rfl
  | true =>
    rw [hlock hmode]
    rfl

/-- A local of another isolate is refused. -/
theorem getLocal_of_ne {l : LocalHandle} (ha : i.accessFault? t = none) (hl : l.isolate ≠ i.id) :
    (i.getLocal t l w).1 = .error (.usage (.wrongIsolate l.isolate i.id)) := by
  unfold getLocal run
  rw [ha]
  dsimp only
  rw [ownerFault?, if_neg hl]

/-- Without a scope stack every local is stale. -/
theorem getLocal_of_stack?_eq_none {l : LocalHandle} (ha : i.accessFault? t = none)
    (hl : l.isolate = i.id) (ht : i.storage.stack? t = none) :
    (i.getLocal t l w).1 = .error (.usage (.staleLocal l.scope)) := by
  have hown := ownerFault?_eq_none_iff.2 hl
  unfold getLocal run
  rw [ha]
  dsimp only
  rw [hown, ht]

/-- What a thread reads that may touch the storage and has a scope stack. -/
theorem getLocal_of_stack? {l : LocalHandle} {stack : ScopeStack}
    (ha : i.accessFault? t = none) (hl : l.isolate = i.id) (ht : i.storage.stack? t = some stack) :
    (i.getLocal t l w).1 = (stack.get l.scope l.slot).mapError .usage := by
  have hown := ownerFault?_eq_none_iff.2 hl
  unfold getLocal run
  rw [ha]
  dsimp only
  rw [hown, ht]
  dsimp only
  cases stack.get l.scope l.slot <;> rfl

/-! ### New locals -/

/-- What adding a local that succeeds leaves behind. -/
theorem addLocalTo_eq_ok {scope : Option ScopeId} {o : ObjectId} {r : LocalHandle × Frontier}
    (h : (i.addLocalTo t scope o w).1 = .ok r) :
    ∃ stack a, i.storage.stack? t = some stack ∧ (stack.add o w.heap).1 = .ok a ∧
      r = (⟨i.id, a.scope, a.added.slot⟩, a.added.frontier) ∧
      (i.addLocalTo t scope o w).2.1.storage.stack? t = some (stack.add o w.heap).2.1 := by
  unfold addLocalTo at h ⊢
  obtain ⟨-, -, tr, hop, hst⟩ := run_ok h
  rw [hst, Storage.stack?_note]
  cases ht : i.storage.stack? t with
  | none =>
    rw [ht] at hop
    cases hop
  | some stack =>
    rw [ht] at hop
    dsimp only at hop ⊢
    cases hfault : addFault? stack scope with
    | some e =>
      rw [hfault] at hop
      cases hop
    | none =>
      rw [hfault] at hop
      refine ⟨stack, ?_⟩
      dsimp only at hop ⊢
      generalize stack.add o w.heap = added at hop ⊢
      obtain ⟨added, stack', heap⟩ := added
      cases added with
      | error e => cases hop
      | ok a =>
        cases hop
        exact ⟨a, rfl, rfl, rfl, Storage.stack?_setStack _ t stack'⟩

/-- What an escape that succeeds leaves behind. -/
theorem escape_eq_ok {scope : ScopeId} {l l' : LocalHandle}
    (h : (i.escape t scope l w).1 = .ok l') :
    i.accessFault? t = none ∧ l.isolate = i.id ∧ ∃ stack e, i.storage.stack? t = some stack ∧
      (stack.escape scope l.slot w.heap).1 = .ok e ∧ l' = ⟨i.id, e.parent, e.added.slot⟩ ∧
      (i.escape t scope l w).2.1.accessFault? t = none ∧ (i.escape t scope l w).2.1.id = i.id ∧
      (i.escape t scope l w).2.1.storage.stack? t
        = some (stack.escape scope l.slot w.heap).2.1 := by
  have hid : (i.escape t scope l w).2.1.id = i.id := (run_cases ..).1.id_eq
  obtain ⟨ha, ha', tr, hop, hst⟩ := run_ok h
  have ha' : (i.escape t scope l w).2.1.accessFault? t = none := ha'
  have hst : (i.escape t scope l w).2.1.storage = _ := hst
  generalize (i.escape t scope l w).2.1 = after at hid ha' hst ⊢
  rw [hst, Storage.stack?_note]
  refine ⟨ha, ?_⟩
  cases hown : i.ownerFault? l.isolate with
  | some e =>
    rw [hown] at hop
    cases hop
  | none =>
    rw [hown] at hop
    refine ⟨ownerFault?_eq_none_iff.1 hown, ?_⟩
    dsimp only at hop ⊢
    cases ht : i.storage.stack? t with
    | none =>
      rw [ht] at hop
      cases hop
    | some stack =>
      rw [ht] at hop
      refine ⟨stack, ?_⟩
      dsimp only at hop ⊢
      generalize stack.escape scope l.slot w.heap = escaped at hop ⊢
      obtain ⟨escaped, stack', heap⟩ := escaped
      cases escaped with
      | error e => cases hop
      | ok e =>
        cases hop
        exact ⟨e, rfl, rfl, rfl, ha', hid, Storage.stack?_setStack _ t stack'⟩

/-! ### Stacks whose open scopes were opened where they are -/

section Housed

variable {Place : Type} {homes : List Place} {place : Place} {scope : ScopeId}
  (hs : ∀ stack, i.storage.stack? t = some stack → stack.Housed homes place)
include hs

/-- A local whose scope is not open on the stack of the thread is stale. -/
theorem getLocal_of_not_isOpen {l : LocalHandle} (ha : i.accessFault? t = none)
    (hl : l.isolate = i.id) (hopen : i.isOpen t l.scope = false) :
    (i.getLocal t l w).1 = .error (.usage (.staleLocal l.scope)) := by
  cases ht : i.storage.stack? t with
  | none => exact getLocal_of_stack?_eq_none ha hl ht
  | some stack =>
    rw [isOpen_of_stack? ht] at hopen
    rw [getLocal_of_stack? ha hl ht, (hs stack ht).get_of_not_isOpen hopen]
    rfl

/-- **What an escape moves:** the object that the slot of the local denotes in the scope
that is closed.  The local itself denotes it just if this is its own scope. -/
theorem escape_ok {l l' : LocalHandle} (h : (i.escape t scope l w).1 = .ok l') :
    ∃ o, (i.getLocal t { l with scope } w).1 = .ok o ∧
      ((i.escape t scope l w).2.1.getLocal t l' (i.escape t scope l w).2.2).1 = .ok o ∧
      (i.getLocal t l w).1
        = if l.scope = scope then .ok o else .error (.usage (.staleLocal l.scope)) := by
  obtain ⟨ha, hl, stack, e, ht, hesc, rfl, ha', hid', ht'⟩ := escape_eq_ok h
  obtain ⟨c, L, hshow, hnd, -⟩ := hs stack ht
  obtain ⟨o, hget, hmoved, hother⟩ := hshow.escape_ok hnd hesc
  refine ⟨o, ?_, ?_, ?_⟩
  · rw [getLocal_of_stack? (l := { l with scope }) ha hl ht, hget]
    rfl
  · rw [getLocal_of_stack? ha' hid'.symm ht', hmoved]
    rfl
  · rw [getLocal_of_stack? ha hl ht]
    split
    · next he =>
      rw [he, hget]
      rfl
    · next he =>
      rw [hother l.scope he]
      rfl

/-! The end of a scope. -/

/-- A scope that a thread closed is not open on its stack. -/
theorem isOpen_closeScope (hnd : i.storage.owners.Nodup)
    (h : (i.closeScope t scope w).1 = .ok ()) :
    (i.closeScope t scope w).2.1.isOpen t scope = false := by
  unfold closeScope at h ⊢
  obtain ⟨-, -, tr, hop, hst⟩ := run_ok h
  rw [isOpen, hst, Storage.stack?_note]
  cases ht : i.storage.stack? t with
  | none =>
    rw [ht] at hop
    cases hop
  | some stack =>
    have hclosed : ∀ r, (stack.leave scope w.heap).1 = .ok r →
        (stack.leave scope w.heap).2.1.isOpen scope = false :=
      fun r hr => (hs stack ht).isOpen_leave hr
    rw [ht] at hop
    dsimp only at hop ⊢
    generalize stack.leave scope w.heap = left at hop hclosed ⊢
    obtain ⟨left, stack', heap⟩ := left
    cases left with
    | error e => cases hop
    | ok r =>
      dsimp only
      split
      · rw [Storage.stack?_removeStack hnd ht]
        rfl
      · rw [Storage.stack?_setStack]
        exact hclosed r rfl

/-- A scope from which a thread let a local escape is not open on its stack. -/
theorem isOpen_escape {l l' : LocalHandle} (h : (i.escape t scope l w).1 = .ok l') :
    (i.escape t scope l w).2.1.isOpen t scope = false := by
  obtain ⟨-, -, stack, e, ht, hesc, -, -, -, ht'⟩ := escape_eq_ok h
  rw [isOpen_of_stack? ht']
  exact (hs stack ht).isOpen_escape hesc

end Housed

end Isolate

/-- Whether a request opens a scope. -/
def Request.opensScope : Request → Bool
  | .openScope => true
  | _ => false

/-- **A request that opens no scope** draws no id, and only takes scopes away or adds locals. -/
theorem Request.evolves_serve {r : Request} (hr : r.opensScope = false) (t : ThreadKey)
    (i : Isolate) (w : Shared) : i.Evolves w (r.serve t i w).2 := by
  cases r with
  | openScope => cases hr
  | closeScope scope => exact Isolate.evolves_closeScope scope
  | addLocal scope o => exact Isolate.evolves_addLocalTo scope o
  | getLocal l => exact Isolate.evolves_getLocal l
  | escape scope l => exact Isolate.evolves_escape scope l
  | makePersistent o => exact Isolate.evolves_makePersistent o
  | persistLocal l => exact Isolate.evolves_persistLocal l
  | dispose p => exact Isolate.evolves_runOwned
  | makeWeak p record => exact Isolate.evolves_runOwned
  | clearWeak p => exact Isolate.evolves_runOwned
  | collectWeak => exact .of_eq rfl rfl

end EngineHandles
