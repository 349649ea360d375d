/-
# Threads that have locals

The storage of an isolate counts the threads that have a local slot.  It is not counted anew: each
operation reports whether the calling thread came to have locals, or ceased to, and the count
follows what is reported.  An operation exchanges the scope stack of one thread at most
(`Storage.Exchanges`), and what it reports is what happened to the number of slots there
(`Storage.Reports`), also when it fails; so the count stays right (`Storage.Reports.rooted`).

Hence every request leaves a storage whose count is right, and tells the observer of the isolate
just the change that it made (`Request.tells_serve`).
-/

import EngineHandles.Proofs.Isolate.Access
import EngineHandles.Proofs.Scope.Outcomes

namespace EngineHandles

@[simp] theorem RootTransition.between_self (n : Nat) : between n n = .unchanged := by
  rw [between, if_neg fun h => h.2 h.1, if_neg fun h => h.1 h.2]

theorem RootTransition.between_zero_left {n : Nat} (hn : 0 < n) : between 0 n = .activated :=
  if_pos ⟨rfl, hn.ne'⟩

theorem RootTransition.between_zero_right {n : Nat} (hn : 0 < n) : between n 0 = .idle := by
  rw [between, if_neg fun h => h.2 rfl, if_pos ⟨hn.ne', rfl⟩]

namespace Storage

variable {s s' s'' : Storage} {t u : ThreadKey} {stack : ScopeStack} {tr : RootTransition}

/-- The number of local slots of a thread. -/
def localSize (s : Storage) (t : ThreadKey) : Nat := (s.stack? t).elim 0 ScopeStack.size

theorem localSize_note (s : Storage) (tr : RootTransition) (t : ThreadKey) :
    (s.note tr).localSize t = s.localSize t := by
  rw [localSize, stack?_note, localSize]

theorem localSize_of_stack? (ht : s.stack? t = some stack) : s.localSize t = stack.size := by
  rw [localSize, ht]
  rfl

theorem stack?_eq_some_iff (hnd : s.owners.Nodup) :
    s.stack? t = some stack ↔ (t, stack) ∈ s.scopeStacks :=
  ⟨mem_of_stack?, stack?_of_mem hnd⟩

theorem stack?_congr (h : s'.scopeStacks = s.scopeStacks) (t : ThreadKey) :
    s'.stack? t = s.stack? t := by
  rw [stack?, h, stack?]

/-- A storage that counts the threads that have a local slot. -/
structure Rooted (s : Storage) : Prop where
  owners : s.owners.Nodup
  framed : ∀ e ∈ s.scopeStacks, e.2.IsFramed
  rooting : s.rootingThreads = s.scopeStacks.countP fun e => 0 < e.2.size

namespace Rooted

theorem of_scopeStacks_eq (hs : s.Rooted) (h : s'.scopeStacks = s.scopeStacks)
    (hcount : s'.rootingThreads = s.rootingThreads) : s'.Rooted := by
  refine ⟨?_, ?_, ?_⟩
  · rw [Storage.owners, h]
    exact hs.owners
  · rw [h]
    exact hs.framed
  · rw [h, hcount]
    exact hs.rooting

theorem framed_of_stack? (hs : s.Rooted) (ht : s.stack? t = some stack) : stack.IsFramed :=
  hs.framed _ (mem_of_stack? ht)

/-- A thread without an open scope has no local slot. -/
theorem localSize_eq_zero (hs : s.Rooted)
    (ht : ∀ stack, s.stack? t = some stack → stack.frames = []) : s.localSize t = 0 := by
  unfold localSize
  cases h : s.stack? t with
  | none => rfl
  | some stack => exact (hs.framed_of_stack? h).size_of_frames_eq_nil (ht stack h)

/-- A thread that has a local slot is counted. -/
theorem rootingThreads_pos (hs : s.Rooted) (ht : 0 < s.localSize t) : 0 < s.rootingThreads := by
  unfold localSize at ht
  cases h : s.stack? t with
  | none =>
    rw [h] at ht
    cases ht
  | some stack =>
    rw [h] at ht
    rw [hs.rooting]
    exact List.countP_pos_iff.2 ⟨_, mem_of_stack? h, decide_eq_true ht⟩

/-- **What is counted:** the threads that have a local slot. -/
theorem rootingThreads_eq (hs : s.Rooted) :
    s.rootingThreads = {t | 0 < s.localSize t}.ncard := by
  have hnd : ((s.scopeStacks.filter fun e => 0 < e.2.size).map Prod.fst).Nodup :=
    hs.owners.sublist (List.filter_sublist.map _)
  rw [Keyed.ncard_of_nodup hnd fun t => ?_, List.length_map, ← List.countP_eq_length_filter,
    hs.rooting]
  rw [List.mem_map, localSize]
  constructor
  · rintro ⟨⟨t, stack⟩, he, rfl⟩
    obtain ⟨hmem, hpos⟩ := List.mem_filter.1 he
    rw [(stack?_eq_some_iff hs.owners).2 hmem]
    exact of_decide_eq_true hpos
  · intro hpos
    cases h : s.stack? t with
    | none =>
      rw [h] at hpos
      cases hpos
    | some stack =>
      rw [h] at hpos
      exact ⟨_, List.mem_filter.2 ⟨mem_of_stack? h, decide_eq_true hpos⟩, rfl⟩

end Rooted

/-! ### The stack of one thread -/

/-- One storage comes from another by exchanging the stack of one thread, if at all. -/
structure Exchanges (t : ThreadKey) (s s' : Storage) : Prop where
  owners : s'.owners.Nodup
  others : ∃ others, s.scopeStacks.Perm ((s.stack? t).toList.map (Prod.mk t) ++ others) ∧
    s'.scopeStacks.Perm ((s'.stack? t).toList.map (Prod.mk t) ++ others)

namespace Exchanges

theorem of_eq (hnd : s.owners.Nodup) (h : s'.scopeStacks = s.scopeStacks) : s.Exchanges t s' := by
  have howners : s'.owners.Nodup := by
    rw [Storage.owners, h]
    exact hnd
  refine ⟨howners, ?_⟩
  rw [stack?_congr h, h]
  cases ht : s.stack? t with
  | none => exact ⟨s.scopeStacks, .refl _, .refl _⟩
  | some stack =>
    obtain ⟨others, hperm, -⟩ := exists_perm hnd ht
    exact ⟨others, hperm, hperm⟩

theorem setStack (hnd : s.owners.Nodup) (t : ThreadKey) (stack : ScopeStack) :
    s.Exchanges t (s.setStack t stack) := by
  refine ⟨nodup_setStack hnd t stack, ?_⟩
  rw [stack?_setStack]
  cases ht : s.stack? t with
  | none =>
    rw [setStack_of_none ht]
    exact ⟨s.scopeStacks, .refl _, List.perm_append_comm⟩
  | some old =>
    obtain ⟨others, hperm, hset, -⟩ := exists_perm hnd ht
    exact ⟨others, hperm, hset stack⟩

theorem removeStack (hnd : s.owners.Nodup) (ht : s.stack? t = some stack) :
    s.Exchanges t (s.removeStack t) := by
  refine ⟨(nodup_removeStack hnd ht).1, ?_⟩
  rw [stack?_removeStack hnd ht, ht]
  obtain ⟨others, hperm, -, hrem⟩ := exists_perm hnd ht
  exact ⟨others, hperm, hrem⟩

/-- The stacks of the other threads stay. -/
theorem stack?_of_ne (h : s.Exchanges t s') (hnd : s.owners.Nodup) (hu : u ≠ t) :
    s'.stack? u = s.stack? u := by
  obtain ⟨others, hperm, hperm'⟩ := h.others
  have hmem : ∀ (x : Option ScopeStack) stack,
      (u, stack) ∈ x.toList.map (Prod.mk t) ++ others ↔ (u, stack) ∈ others := by
    intro x stack
    rw [List.mem_append, or_iff_right]
    rintro hm
    obtain ⟨y, -, he⟩ := List.mem_map.1 hm
    exact hu (congrArg Prod.fst he).symm
  refine Option.ext fun stack => ?_
  rw [stack?_eq_some_iff h.owners, stack?_eq_some_iff hnd, hperm'.mem_iff,
    hperm.mem_iff, hmem, hmem]

end Exchanges

/-! ### What operations report -/

/-- One thread more or less has locals, as a transition tells. -/
theorem rootingThreads_note {k m n : Nat} (h : s.rootingThreads = (if 0 < m then 1 else 0) + k) :
    (s.note (.between m n)).rootingThreads = (if 0 < n then 1 else 0) + k := by
  rcases Nat.eq_zero_or_pos m with rfl | hm <;> rcases Nat.eq_zero_or_pos n with rfl | hn
  · rw [RootTransition.between_self]
    exact h
  · rw [if_neg (Nat.lt_irrefl 0), Nat.zero_add] at h
    rw [RootTransition.between_zero_left hn, note, if_pos hn, h, Nat.add_comm]
  · rw [if_pos hm, Nat.add_comm] at h
    rw [RootTransition.between_zero_right hm, note, if_neg (Nat.lt_irrefl 0), Nat.zero_add, h,
      Nat.add_sub_cancel]
  · rw [if_pos hm] at h
    rw [RootTransition.between_of_pos hm hn, if_pos hn]
    exact h

/-- An operation exchanged the stack of one thread, and reports what happened to the number of
slots there. -/
structure Reports (t : ThreadKey) (s : Storage) (tr : RootTransition) (s' : Storage) : Prop where
  exchanges : s.Exchanges t s'
  framed : ∀ stack, s'.stack? t = some stack → stack.IsFramed
  count_eq : s'.rootingThreads = s.rootingThreads
  transition_eq : tr = .between (s.localSize t) (s'.localSize t)

namespace Reports

/-- Nothing is reported if no stack is touched. -/
theorem of_eq (hs : s.Rooted) (h : s'.scopeStacks = s.scopeStacks)
    (hcount : s'.rootingThreads = s.rootingThreads) : s.Reports t .unchanged s' := by
  refine ⟨.of_eq hs.owners h, fun stack ht => ?_, hcount, ?_⟩
  · rw [stack?_congr h] at ht
    exact hs.framed_of_stack? ht
  · rw [localSize, localSize, stack?_congr h, RootTransition.between_self]

theorem refl (hs : s.Rooted) : s.Reports t .unchanged s := .of_eq hs rfl rfl

/-- The stack of the thread is written. -/
theorem setStack (hs : s.Rooted) (hstack : stack.IsFramed)
    (htr : tr = .between (s.localSize t) stack.size) : s.Reports t tr (s.setStack t stack) := by
  refine ⟨.setStack hs.owners t stack, fun x hx => ?_, rfl, ?_⟩
  · rw [stack?_setStack] at hx
    exact Option.some.inj hx ▸ hstack
  · rw [htr, localSize, localSize, stack?_setStack]
    rfl

/-- The stack of the thread is removed when it has no slot left. -/
theorem removeStack (hs : s.Rooted) {old : ScopeStack} (ht : s.stack? t = some old)
    (htr : tr = .between (s.localSize t) 0) : s.Reports t tr (s.removeStack t) := by
  refine ⟨.removeStack hs.owners ht, fun x hx => ?_, ?_, ?_⟩
  · rw [stack?_removeStack hs.owners ht] at hx
    cases hx
  · unfold Storage.removeStack
    split
    · rfl
    · split
      · rfl
      · split <;> rfl
  · rw [htr, localSize, localSize, stack?_removeStack hs.owners ht]
    rfl

/-- **Counting what is reported** keeps the count right. -/
theorem rooted (h : s.Reports t tr s') (hs : s.Rooted) : (s'.note tr).Rooted := by
  obtain ⟨others, hperm, hperm'⟩ := h.exchanges.others
  have hown : ∀ x : Option ScopeStack, ((x.toList.map (Prod.mk t)).countP fun e => 0 < e.2.size)
      = if 0 < x.elim 0 ScopeStack.size then 1 else 0 := by
    intro x
    cases x with
    | none => rfl
    | some stack => by_cases hpos : 0 < stack.size <;> simp [hpos]
  have hcount := hs.rooting
  rw [hperm.countP_eq, List.countP_append, hown, ← localSize, ← h.count_eq] at hcount
  refine ⟨?_, fun e he => ?_, ?_⟩
  · rw [Storage.owners, scopeStacks_note]
    exact h.exchanges.owners
  · rw [scopeStacks_note, hperm'.mem_iff, List.mem_append] at he
    rcases he with he | he
    · obtain ⟨stack, hstack, rfl⟩ := List.mem_map.1 he
      exact h.framed stack (Option.mem_toList.1 hstack)
    · exact hs.framed e (hperm.mem_iff.2 (List.mem_append_right _ he))
  · rw [scopeStacks_note, hperm'.countP_eq, List.countP_append, hown, ← localSize,
      h.transition_eq]
    exact rootingThreads_note hcount

end Reports
end Storage

/-- What an operation on the storage reports; one that fails reports nothing. -/
def RootTransition.reported {α : Type} : Except HandleError (α × RootTransition) → RootTransition
  | .ok (_, tr) => tr
  | .error _ => .unchanged

namespace Isolate

variable {i i' : Isolate} {t u : ThreadKey} {w : Shared}

/-- What the observer is told when a thread had some number of local slots in an isolate, and
has another one now. -/
def rootEvent? (i i' : Isolate) (t : ThreadKey) : Option RootEvent :=
  let tr := RootTransition.between (i.storage.localSize t) (i'.storage.localSize t)
  if tr ≠ .unchanged ∧ i.config.observed = true then
    some ⟨i.id, t, tr, i'.storage.rootingThreads⟩
  else none

theorem rootEvent?_of_localSize_eq (h : i'.storage.localSize t = i.storage.localSize t) :
    i.rootEvent? i' t = none := by
  unfold rootEvent?
  rw [h, RootTransition.between_self]
  exact if_neg fun h => h.1 rfl

/-- What an operation for a thread leaves behind: the count of threads with locals is right, and
the observer was told of the change that it made to those of its thread. -/
structure Tells (i : Isolate) (t : ThreadKey) (w : Shared) (r : Isolate × Shared) : Prop where
  rooted : r.1.storage.Rooted
  others : ∀ u, u ≠ t → r.1.storage.stack? u = i.storage.stack? u
  events : r.2.rootEvents.toList = w.rootEvents.toList ++ (i.rootEvent? r.1 t).toList

/-- An operation that touches no stack. -/
theorem Tells.of_eq (hs : i.storage.Rooted) {r : Isolate × Shared}
    (h : r.1.storage.scopeStacks = i.storage.scopeStacks)
    (hcount : r.1.storage.rootingThreads = i.storage.rootingThreads)
    (hevents : r.2.rootEvents = w.rootEvents) : Tells i t w r := by
  refine ⟨hs.of_scopeStacks_eq h hcount, fun u _ => Storage.stack?_congr h u, ?_⟩
  rw [rootEvent?_of_localSize_eq, hevents, Option.toList_none, List.append_nil]
  rw [Storage.localSize, Storage.stack?_congr h, Storage.localSize]

/-- **Running an operation that reports what it does** to the stack of its thread. -/
theorem tells_run {α : Type} {site : Site}
    {op : Storage → Shared → Except HandleError (α × RootTransition) × Storage × Shared}
    (hs : i.storage.Rooted)
    (hop : i.storage.Reports t (.reported (op i.storage w).1) (op i.storage w).2.1 ∧
      (op i.storage w).2.2.rootEvents = w.rootEvents) : Tells i t w (i.run t site w op).2 := by
  unfold run
  split
  · exact .of_eq hs rfl rfl rfl
  · generalize op i.storage w = r at hop
    obtain ⟨r, s', w'⟩ := r
    obtain ⟨hop, hevents⟩ := hop
    have hrooted := hop.rooted hs
    have hothers : ∀ u, u ≠ t → s'.stack? u = i.storage.stack? u := fun u hu =>
      hop.exchanges.stack?_of_ne hs.owners hu
    have htr := hop.transition_eq
    cases r with
    | error e =>
      refine ⟨hrooted, hothers, ?_⟩
      have hnone : i.rootEvent? { i with storage := s' } t = none := by
        unfold rootEvent?
        rw [← htr]
        exact if_neg fun h => h.1 rfl
      show w'.rootEvents.toList
        = w.rootEvents.toList ++ (i.rootEvent? { i with storage := s' } t).toList
      rw [hnone, Option.toList_none, List.append_nil]
      exact congrArg Array.toList hevents
    | ok a =>
      obtain ⟨a, tr⟩ := a
      have hsize := Storage.localSize_note s' tr t
      refine ⟨hrooted, fun u hu => (Storage.stack?_note s' tr u).trans (hothers u hu), ?_⟩
      have hevent : i.rootEvent? { i with storage := s'.note tr } t
          = if tr ≠ .unchanged ∧ i.config.observed = true then
              some ⟨i.id, t, tr, (s'.note tr).rootingThreads⟩
            else none := by
        unfold rootEvent?
        dsimp only
        rw [hsize, ← htr]
        rfl
      show (Isolate.note _ t tr w').2.rootEvents.toList
        = w.rootEvents.toList ++ (i.rootEvent? { i with storage := s'.note tr } t).toList
      rw [hevent, Isolate.note]
      dsimp only at hevents ⊢
      split
      · rw [Array.toList_push, hevents]
        rfl
      · rw [hevents, Option.toList_none, List.append_nil]

/-- Running an operation that reports nothing, though it may touch the stack of its thread. -/
theorem tells_run_unchanged {α : Type} {site : Site}
    {op : Storage → Shared → Except HandleError (α × RootTransition) × Storage × Shared}
    (hs : i.storage.Rooted)
    (hop : (i.storage.Reports t .unchanged (op i.storage w).2.1 ∧
      (op i.storage w).2.2.rootEvents = w.rootEvents) ∧
        RootTransition.reported (op i.storage w).1 = .unchanged) :
    Tells i t w (i.run t site w op).2 ∧ RootTransition.between (i.storage.localSize t)
      ((i.run t site w op).2.1.storage.localSize t) = .unchanged := by
  obtain ⟨⟨hreports, hevents⟩, htr⟩ := hop
  refine ⟨tells_run hs ⟨htr.symm ▸ hreports, hevents⟩, ?_⟩
  rcases (run_cases i t site w op).2 with ⟨hst, -⟩ | ⟨⟨tr, hst⟩, -⟩
  · rw [hst, RootTransition.between_self]
  · rw [hst, Storage.localSize_note, ← hreports.transition_eq]

/-! ### The requests, one by one -/

section Requests

variable (hs : i.storage.Rooted)
include hs

theorem tells_openScope : Tells i t w (i.openScope t w).2 := by
  refine tells_run hs ?_
  cases ht : i.storage.stack? t with
  | some stack =>
    have hframed := (hs.framed_of_stack? ht).enter w.nextScope
    refine ⟨.setStack hs hframed ?_, rfl⟩
    rw [Storage.localSize_of_stack? ht]
    exact (RootTransition.between_self stack.size).symm
  | none =>
    dsimp only
    cases hnew : ScopeStack.ofConfig? i.config.locals with
    | error e => exact ⟨.refl hs, rfl⟩
    | ok stack =>
      have hframed := (ScopeStack.isFramed_of_ofConfig? hnew).1
      have hsize := hframed.size_of_frames_eq_nil (ScopeStack.shows_of_ofConfig? hnew).frames_eq
      refine ⟨.setStack hs (hframed.enter w.nextScope) ?_, rfl⟩
      rw [Storage.localSize, ht]
      show _ = RootTransition.between 0 stack.size
      rw [hsize]
      rfl

theorem tells_closeScope (scope : ScopeId) : Tells i t w (i.closeScope t scope w).2 := by
  refine tells_run hs ?_
  cases ht : i.storage.stack? t with
  | none => exact ⟨.refl hs, rfl⟩
  | some stack =>
    have hframed := hs.framed_of_stack? ht
    have hsize := Storage.localSize_of_stack? ht
    dsimp only
    rcases hframed.leave_cases scope w.heap with ⟨e, he⟩ | ⟨n, stack', h', he, hframed', -⟩ <;>
      rw [he] <;> dsimp only
    · exact ⟨.setStack hs hframed (by rw [hsize, RootTransition.between_self]; rfl), rfl⟩
    · refine ⟨?_, rfl⟩
      split
      · next hempty =>
        have hnil := hframed'.size_of_frames_eq_nil (List.isEmpty_iff.1 hempty)
        refine .removeStack hs ht ?_
        rw [hsize, ← hnil]
        rfl
      · refine .setStack hs hframed' ?_
        rw [hsize]
        rfl

theorem tells_addLocalTo (scope : Option ScopeId) (o : ObjectId) :
    Tells i t w (i.addLocalTo t scope o w).2 := by
  refine tells_run hs ?_
  cases ht : i.storage.stack? t with
  | none => exact ⟨.refl hs, rfl⟩
  | some stack =>
    have hframed := hs.framed_of_stack? ht
    have hsize := Storage.localSize_of_stack? ht
    dsimp only
    cases addFault? stack scope with
    | some e => exact ⟨.refl hs, rfl⟩
    | none =>
      dsimp only
      rcases hframed.add_cases o w.heap with ⟨e, he⟩ | ⟨top, added, stack', h', he, hframed', -⟩ <;>
        rw [he] <;> dsimp only
      · exact ⟨.setStack hs hframed (by rw [hsize, RootTransition.between_self]; rfl), rfl⟩
      · refine ⟨.setStack hs hframed' ?_, rfl⟩
        rw [hsize]
        rfl

theorem tells_getLocal (l : LocalHandle) : Tells i t w (i.getLocal t l w).2 := by
  rcases i.getLocal_cases t l w with ⟨e, he⟩ | ⟨o, he⟩ <;> rw [he] <;>
    exact .of_eq hs rfl rfl rfl

/-- If an escape changes anything, the thread had a local and still has one. -/
theorem tells_escape (scope : ScopeId) (l : LocalHandle) :
    Tells i t w (i.escape t scope l w).2 ∧ RootTransition.between (i.storage.localSize t)
      ((i.escape t scope l w).2.1.storage.localSize t) = .unchanged := by
  refine tells_run_unchanged hs ?_
  split
  · exact ⟨⟨.refl hs, rfl⟩, rfl⟩
  cases ht : i.storage.stack? t with
  | none => exact ⟨⟨.refl hs, rfl⟩, rfl⟩
  | some stack =>
    have hframed := hs.framed_of_stack? ht
    have hsize := Storage.localSize_of_stack? ht
    dsimp only
    rcases hframed.escape_cases scope l.slot w.heap with ⟨e, he⟩ | ⟨hframed', hpos, hpos', -, htr⟩
    · rw [he]
      refine ⟨⟨.setStack hs hframed ?_, rfl⟩, rfl⟩
      rw [hsize, RootTransition.between_self]
    · have hset : i.storage.Reports t .unchanged
          (i.storage.setStack t (stack.escape scope l.slot w.heap).2.1) := by
        refine .setStack hs hframed' ?_
        rw [hsize, RootTransition.between_of_pos hpos hpos']
      generalize stack.escape scope l.slot w.heap = r at hset htr ⊢
      obtain ⟨r, stack', heap⟩ := r
      cases r with
      | error e => exact ⟨⟨hset, rfl⟩, rfl⟩
      | ok e => exact ⟨⟨hset, rfl⟩, htr e rfl⟩

theorem tells_makePersistent (o : ObjectId) : Tells i t w (i.makePersistent t o w).2 := by
  unfold makePersistent
  split
  · exact .of_eq hs rfl rfl rfl
  · refine tells_run hs ?_
    generalize i.storage.persistents.make o w.heap = r
    obtain ⟨r, p, heap⟩ := r
    cases r <;> exact ⟨.of_eq hs rfl rfl, rfl⟩

theorem tells_persistLocal (l : LocalHandle) : Tells i t w (i.persistLocal t l w).2 := by
  unfold persistLocal
  rcases i.getLocal_cases t l w with ⟨e, he⟩ | ⟨o, he⟩ <;> rw [he]
  · exact .of_eq hs rfl rfl rfl
  · exact tells_makePersistent hs o

theorem tells_runOwned {α : Type} {site : Site} {owner : IsolateId}
    {op : PersistentStore → Heap → Except UsageError α × PersistentStore × Heap} :
    Tells i t w (i.runOwned t site owner w op).2 := by
  refine tells_run hs ?_
  split
  · exact ⟨.refl hs, rfl⟩
  · generalize op i.storage.persistents w.heap = r
    obtain ⟨r, p, heap⟩ := r
    cases r <;> exact ⟨.of_eq hs rfl rfl, rfl⟩

end Requests
end Isolate

/-- **Every request** keeps the count of threads with locals right, and tells the observer what
became of the locals of its thread. -/
theorem Request.tells_serve {i : Isolate} (hs : i.storage.Rooted) (r : Request) (t : ThreadKey)
    (w : Shared) : i.Tells t w (r.serve t i w).2 := by
  cases r with
  | openScope => exact Isolate.tells_openScope hs
  | closeScope scope => exact Isolate.tells_closeScope hs scope
  | addLocal scope o => exact Isolate.tells_addLocalTo hs scope o
  | getLocal l => exact Isolate.tells_getLocal hs l
  | escape scope l => exact (Isolate.tells_escape hs scope l).1
  | makePersistent o => exact Isolate.tells_makePersistent hs o
  | persistLocal l => exact Isolate.tells_persistLocal hs l
  | dispose p => exact Isolate.tells_runOwned hs
  | makeWeak p record => exact Isolate.tells_runOwned hs
  | clearWeak p => exact Isolate.tells_runOwned hs
  | collectWeak => exact .of_eq hs rfl rfl rfl

end EngineHandles
