/-
# What a thread's scopes and locals depend on

In an isolate that was never locked, what becomes of a thread's scopes and locals depends on its
`Desk` only: how the arenas of locals are set up, how often the thread is inside, and its scope
stack.  If the desk of one isolate is that of another with the scopes by other names, then a
request about scopes and locals is answered with the same, but for the names, and leaves such
desks behind (`Request.twins_serve`).

Persistent handles and sweeps, and whatever other threads do, leave a desk alone
(`Request.desk_serve`, `Request.desk_serve_of_ne`).
-/

import EngineHandles.Proofs.Isolate.Registry
import EngineHandles.Proofs.Isolate.Reports
import EngineHandles.Proofs.Isolate.Rooting
import EngineHandles.Proofs.Scope.Renaming

namespace EngineHandles

/-- A stack without scopes has no name to change. -/
theorem ScopeStack.rename_of_ofConfig? {ρ : ScopeId → ScopeId} {c : ArenaConfig}
    {stack : ScopeStack} (h : ScopeStack.ofConfig? c = .ok stack) : stack.rename ρ = stack := by
  have hnil := (ScopeStack.shows_of_ofConfig? h).frames_eq
  obtain ⟨locals, frames⟩ := stack
  obtain rfl : frames = [] := hnil
  rfl

/-- What a thread's scopes and locals in an isolate depend on. -/
structure Desk where
  locals : ArenaConfig
  /-- How often the thread is inside, if it is. -/
  count : Option UInt32
  stack : Option ScopeStack

/-- A desk with the scopes by other names. -/
def Desk.rename (ρ : ScopeId → ScopeId) (d : Desk) : Desk :=
  { d with stack := d.stack.map (ScopeStack.rename ρ) }

/-- Whether a request is about scopes and locals. -/
def Request.isLocal : Request → Bool
  | .openScope | .closeScope _ | .addLocal _ _ | .getLocal _ | .escape _ _ => true
  | .makePersistent _ | .persistLocal _ | .dispose _ | .makeWeak _ _ | .clearWeak _
  | .collectWeak => false

/-- A request with the scopes by other names. -/
def Request.rename (ρ : ScopeId → ScopeId) : Request → Request
  | .closeScope scope => .closeScope (ρ scope)
  | .addLocal scope o => .addLocal (scope.map ρ) o
  | .getLocal l => .getLocal (l.rename ρ)
  | .escape scope l => .escape (ρ scope) (l.rename ρ)
  | .persistLocal l => .persistLocal (l.rename ρ)
  | r => r

/-- An answer with the scopes by other names. -/
def Answer.rename (ρ : ScopeId → ScopeId) : Answer → Answer
  | .scope opened => .scope (ρ opened)
  | .added l frontier => .added (l.rename ρ) frontier
  | .moved l => .moved (l.rename ρ)
  | a => a

namespace Isolate

variable {ρ : ScopeId → ScopeId} {i i' : Isolate} {t u : ThreadKey} {w w' : Shared} {α β : Type}

/-- The desk of a thread. -/
def desk (i : Isolate) (t : ThreadKey) : Desk :=
  ⟨i.config.locals, (i.registry.get? t).map RegistryEntry.count, i.storage.stack? t⟩

/-- Two isolates between which a thread cannot tell by its scopes and locals, but for the names
of scopes. -/
structure Twins (ρ : ScopeId → ScopeId) (t : ThreadKey) (i i' : Isolate) : Prop where
  id_eq : i'.id = i.id
  desk_eq : i'.desk t = (i.desk t).rename ρ
  unlocked : i.lock.lockingMode = false
  unlocked' : i'.lock.lockingMode = false
  owners : i.storage.owners.Nodup
  owners' : i'.storage.owners.Nodup

/-- Two outcomes between which the thread cannot tell, but for the names of scopes. -/
def Outcome.Twins (ρ : ScopeId → ScopeId) (f : α → α) (t : ThreadKey) (r r' : Outcome α) : Prop :=
  r'.1 = renamed (HandleError.rename ρ) f r.1 ∧ r'.2.1.desk t = (r.2.1.desk t).rename ρ

theorem Outcome.Twins.map {f : α → α} {g : β → β} {r r' : Outcome α} (h : Twins ρ f t r r')
    (m : α → β) (hm : ∀ a, m (f a) = g (m a)) : Twins ρ g t (r.map m) (r'.map m) := by
  obtain ⟨r, rest⟩ := r
  obtain ⟨r', rest'⟩ := r'
  obtain ⟨hr, hdesk⟩ := h
  dsimp only at hr
  refine ⟨?_, hdesk⟩
  subst hr
  cases r with
  | error e => rfl
  | ok a => exact congrArg Except.ok (hm a)

/-! ### Access -/

theorem accessFault?_eq_of_unlocked (h : i.lock.lockingMode = false) (t : ThreadKey) :
    i.accessFault? t = if (i.desk t).count.isSome then none else some (.notEntered i.id) := by
  unfold accessFault? Registry.contains desk
  rw [h, Bool.false_and, Option.isSome_map]
  cases (i.registry.get? t).isSome <;> rfl

namespace Twins

theorem stack?_eq (h : i.Twins ρ t i') :
    i'.storage.stack? t = (i.storage.stack? t).map (ScopeStack.rename ρ) :=
  congrArg Desk.stack h.desk_eq

theorem count_eq (h : i.Twins ρ t i') : (i'.registry.get? t).map RegistryEntry.count
    = (i.registry.get? t).map RegistryEntry.count := congrArg Desk.count h.desk_eq

theorem locals_eq (h : i.Twins ρ t i') : i'.config.locals = i.config.locals :=
  congrArg Desk.locals h.desk_eq

theorem accessFault?_eq (h : i.Twins ρ t i') : i'.accessFault? t = i.accessFault? t := by
  rw [accessFault?_eq_of_unlocked h.unlocked', accessFault?_eq_of_unlocked h.unlocked, h.desk_eq,
    h.id_eq]
  rfl

/-- Who has no access is told so, which names no scope. -/
theorem rename_accessFault (h : i.Twins ρ t i') {e : UsageError} (he : i.accessFault? t = some e) :
    e.rename ρ = e := by
  rw [accessFault?_eq_of_unlocked h.unlocked] at he
  split at he
  · cases he
  · cases he
    rfl

/-- **Running operations on storages** that treat the stack of the thread alike. -/
theorem run (h : i.Twins ρ t i') (f : α → α) {site : Site}
    {op op' : Storage → Shared → Except HandleError (α × RootTransition) × Storage × Shared}
    (hop : i.accessFault? t = none →
      (op' i'.storage w').1 = renamed (HandleError.rename ρ) (Prod.map f fun tr => tr) (op i.storage w).1 ∧
        (op' i'.storage w').2.1.stack? t
          = ((op i.storage w).2.1.stack? t).map (ScopeStack.rename ρ)) :
    Outcome.Twins ρ f t (i.run t site w op) (i'.run t site w' op') := by
  unfold Isolate.run
  rw [h.accessFault?_eq]
  cases ha : i.accessFault? t with
  | some e => exact ⟨congrArg _ (congrArg _ (h.rename_accessFault ha).symm), h.desk_eq⟩
  | none =>
    obtain ⟨hr, hstack⟩ := hop ha
    generalize op i.storage w = r at hr hstack
    generalize op' i'.storage w' = r' at hr hstack
    obtain ⟨r, s, g⟩ := r
    obtain ⟨r', s', g'⟩ := r'
    dsimp only at hr hstack
    subst hr
    have hdesk : (⟨i'.config.locals, (i'.registry.get? t).map RegistryEntry.count, s'.stack? t⟩ : Desk)
        = Desk.rename ρ
          ⟨i.config.locals, (i.registry.get? t).map RegistryEntry.count, s.stack? t⟩ := by
      rw [h.locals_eq, h.count_eq, hstack]
      rfl
    cases r with
    | error e => exact ⟨rfl, hdesk⟩
    | ok a =>
      refine ⟨rfl, ?_⟩
      show (⟨_, _, (s'.note _).stack? t⟩ : Desk) = Desk.rename ρ ⟨_, _, (s.note _).stack? t⟩
      rw [Storage.stack?_note, Storage.stack?_note]
      exact hdesk

theorem ownerFault?_eq (h : i.Twins ρ t i') (l : LocalHandle) :
    i'.ownerFault? (l.rename ρ).isolate = i.ownerFault? l.isolate := by
  unfold ownerFault?
  rw [h.id_eq]
  rfl

/-- That a handle belongs to another isolate names no scope. -/
theorem rename_ownerFault {owner : IsolateId} {e : UsageError}
    (he : i.ownerFault? owner = some e) : e.rename ρ = e := by
  unfold ownerFault? at he
  split at he
  · cases he
  · cases he
    rfl

/-! ### Being inside -/

/-- The thread is inside as often in both. -/
theorem setRegistry (h : i.Twins ρ t i') {r r' : Registry IsolateId}
    (hcount : (r'.get? t).map RegistryEntry.count = (r.get? t).map RegistryEntry.count) :
    ({ i' with registry := r' } : Isolate).desk t
      = (({ i with registry := r } : Isolate).desk t).rename ρ := by
  unfold desk
  rw [hcount, h.locals_eq, h.stack?_eq]
  rfl

theorem enter (h : i.Twins ρ t i') (previous previous' : Option IsolateId) (w w' : Shared) :
    (i'.enter t previous' w').1 = (i.enter t previous w).1 ∧
      (i'.enter t previous' w').2.1.desk t = ((i.enter t previous w).2.1.desk t).rename ρ := by
  obtain ⟨hcount, hinside⟩ := i.registry.count_enter t previous
  obtain ⟨hcount', hinside'⟩ := i'.registry.count_enter t previous'
  rw [h.count_eq] at hcount' hinside'
  exact ⟨hcount'.trans hcount.symm, h.setRegistry (hinside'.trans hinside.symm)⟩

theorem exit (h : i.Twins ρ t i') :
    Outcome.Twins ρ (fun x => x) t (i.exit t w) (i'.exit t w') := by
  have hcount := h.count_eq
  unfold Isolate.exit
  cases hget : i.registry.get? t with
  | none =>
    rw [hget, Option.map_none, Option.map_eq_none_iff] at hcount
    rw [Registry.exit_of_get?_eq_none hget, Registry.exit_of_get?_eq_none hcount, h.id_eq]
    exact ⟨rfl, h.desk_eq⟩
  | some e =>
    rw [hget, Option.map_some, Option.map_eq_some_iff] at hcount
    obtain ⟨e', hget', he⟩ := hcount
    obtain ⟨hsome, hleft⟩ := Registry.exit_of_get? hget
    obtain ⟨hsome', hleft'⟩ := Registry.exit_of_get? hget'
    have hinside : ((i'.registry.exit t).2.get? t).map RegistryEntry.count
        = ((i.registry.exit t).2.get? t).map RegistryEntry.count := by
      rw [hleft, hleft', he]
      split <;> simp
    generalize i.registry.exit t = r at hsome hinside
    generalize i'.registry.exit t = r' at hsome' hinside
    obtain ⟨left, registry⟩ := r
    obtain ⟨left', registry'⟩ := r'
    obtain ⟨x, rfl⟩ := Option.isSome_iff_exists.1 hsome
    obtain ⟨x', rfl⟩ := Option.isSome_iff_exists.1 hsome'
    exact ⟨rfl, h.setRegistry hinside⟩

end Twins

/-! ### The requests about scopes and locals -/

/-- The stack on which a thread opens its next scope. -/
def base (i : Isolate) (t : ThreadKey) : Except ArenaError ScopeStack :=
  match i.storage.stack? t with
  | some stack => .ok stack
  | none => ScopeStack.ofConfig? i.config.locals

theorem openScope_eq_ok (ha : i.accessFault? t = none) {stack : ScopeStack}
    (hbase : i.base t = .ok stack) : (i.openScope t w).1 = .ok w.nextScope := by
  refine (run_eq_ok_iff i t .openScope w _ _).2 ⟨ha, .unchanged, ?_⟩
  unfold base at hbase
  cases hs : i.storage.stack? t with
  | some old => rfl
  | none =>
    rw [hs] at hbase
    dsimp only at hbase ⊢
    rw [hbase]

/-- **Opening a scope,** if the ids that are drawn are names of the same scope. -/
theorem Twins.openScope (h : i.Twins ρ t i')
    (hdrawn : ∀ a b, (i.openScope t w).1 = .ok a → (i'.openScope t w').1 = .ok b → ρ a = b) :
    Outcome.Twins ρ ρ t (i.openScope t w) (i'.openScope t w') := by
  refine h.run ρ fun ha => ?_
  have ha' : i'.accessFault? t = none := h.accessFault?_eq.trans ha
  have hname : ∀ {stack stack'}, i.base t = .ok stack → i'.base t = .ok stack' →
      ρ w.nextScope = w'.nextScope := fun hb hb' =>
    hdrawn _ _ (openScope_eq_ok ha hb) (openScope_eq_ok ha' hb')
  have hset : ∀ (stack : ScopeStack), ρ w.nextScope = w'.nextScope →
      (i'.storage.setStack t ((stack.rename ρ).enter w'.nextScope)).stack? t
        = ((i.storage.setStack t (stack.enter w.nextScope)).stack? t).map (ScopeStack.rename ρ) := by
    intro stack hname
    rw [Storage.stack?_setStack, Storage.stack?_setStack, ← hname]
    rfl
  have hstack := h.stack?_eq
  unfold base at hname
  rw [h.locals_eq] at hname ⊢
  cases hs : i.storage.stack? t with
  | some stack =>
    rw [hs] at hstack hname
    rw [hstack] at hname ⊢
    have hname := hname rfl rfl
    exact ⟨congrArg (fun a => Except.ok (a, RootTransition.unchanged)) hname.symm, hset stack hname⟩
  | none =>
    have hsame := hstack
    rw [hs] at hstack hname
    rw [hstack] at hname ⊢
    dsimp only [Option.map_none] at hname ⊢
    cases hnew : ScopeStack.ofConfig? i.config.locals with
    | error e => exact ⟨congrArg _ e.rename_toHandleError.symm, hsame⟩
    | ok stack =>
      have hname := hname hnew hnew
      refine ⟨congrArg (fun a => Except.ok (a, RootTransition.unchanged)) hname.symm, ?_⟩
      have := hset stack hname
      rwa [ScopeStack.rename_of_ofConfig? hnew] at this

namespace Twins

variable (hρ : Function.Injective ρ)
include hρ

theorem closeScope (h : i.Twins ρ t i') (scope : ScopeId) :
    Outcome.Twins ρ (fun x => x) t (i.closeScope t scope w) (i'.closeScope t (ρ scope) w') := by
  refine h.run _ fun _ => ?_
  have hstack := h.stack?_eq
  have hsame := hstack
  cases hs : i.storage.stack? t with
  | none =>
    rw [hs] at hstack
    rw [hstack]
    exact ⟨rfl, hsame⟩
  | some stack =>
    rw [hs] at hstack
    obtain ⟨hr, hleft⟩ := stack.leave_rename hρ scope w.heap w'.heap
    rw [hstack]
    dsimp only [Option.map_some]
    generalize stack.leave scope w.heap = r at hr hleft ⊢
    generalize (stack.rename ρ).leave (ρ scope) w'.heap = r' at hr hleft ⊢
    obtain ⟨r, s, g⟩ := r
    obtain ⟨r', s', g'⟩ := r'
    dsimp only at hr hleft
    subst hr hleft
    cases r with
    | error e =>
      refine ⟨rfl, ?_⟩
      show (i'.storage.setStack t _).stack? t = ((i.storage.setStack t _).stack? t).map _
      rw [Storage.stack?_setStack, Storage.stack?_setStack]
      rfl
    | ok x =>
      refine ⟨rfl, ?_⟩
      dsimp only [renamed]
      rw [ScopeStack.isEmpty_rename]
      split
      · rw [Storage.stack?_removeStack h.owners' hstack, Storage.stack?_removeStack h.owners hs]
        rfl
      · rw [Storage.stack?_setStack, Storage.stack?_setStack]
        rfl

theorem addLocalTo (h : i.Twins ρ t i') (scope : Option ScopeId) (o : ObjectId) :
    Outcome.Twins ρ (Prod.map (LocalHandle.rename ρ) fun frontier => frontier) t (i.addLocalTo t scope o w)
      (i'.addLocalTo t (scope.map ρ) o w') := by
  refine h.run _ fun _ => ?_
  have hstack := h.stack?_eq
  have hsame := hstack
  cases hs : i.storage.stack? t with
  | none =>
    rw [hs] at hstack
    rw [hstack]
    exact ⟨rfl, hsame⟩
  | some stack =>
    rw [hs] at hstack
    have hfault : addFault? (stack.rename ρ) (scope.map ρ)
        = (addFault? stack scope).map (UsageError.rename ρ) := by
      cases scope with
      | none => rfl
      | some scope =>
        dsimp only [addFault?, Option.map_some]
        rw [ScopeStack.innermost?_rename, ScopeStack.isOpen_rename hρ]
        cases stack.innermost? with
        | none => rfl
        | some top =>
          dsimp only [Option.map_some]
          by_cases he : top = scope
          · rw [if_pos he, if_pos (congrArg ρ he)]
            rfl
          · rw [if_neg he, if_neg (hρ.ne he)]
            split <;> rfl
    rw [hstack]
    dsimp only [Option.map_some]
    rw [hfault]
    cases addFault? stack scope with
    | some e => exact ⟨rfl, hsame⟩
    | none =>
      obtain ⟨hr, hadded⟩ := stack.add_rename ρ o w.heap w'.heap
      dsimp only [Option.map_none]
      generalize stack.add o w.heap = r at hr hadded ⊢
      generalize (stack.rename ρ).add o w'.heap = r' at hr hadded ⊢
      obtain ⟨r, s, g⟩ := r
      obtain ⟨r', s', g'⟩ := r'
      dsimp only at hr hadded
      subst hr hadded
      have hset : (i'.storage.setStack t (s.rename ρ)).stack? t
          = ((i.storage.setStack t s).stack? t).map (ScopeStack.rename ρ) := by
        rw [Storage.stack?_setStack, Storage.stack?_setStack]
        rfl
      cases r with
      | error e => exact ⟨rfl, hset⟩
      | ok x =>
        refine ⟨?_, hset⟩
        dsimp only [renamed]
        rw [h.id_eq]
        rfl

theorem getLocal (h : i.Twins ρ t i') (l : LocalHandle) :
    Outcome.Twins ρ (fun x => x) t (i.getLocal t l w) (i'.getLocal t (l.rename ρ) w') := by
  refine h.run _ fun _ => ?_
  have hstack := h.stack?_eq
  have hsame := hstack
  rw [h.ownerFault?_eq]
  cases howner : i.ownerFault? l.isolate with
  | some e => exact ⟨congrArg _ (congrArg _ (rename_ownerFault howner).symm), hstack⟩
  | none =>
    dsimp only
    cases hs : i.storage.stack? t with
    | none =>
      rw [hs] at hstack
      rw [hstack]
      exact ⟨rfl, hsame⟩
    | some stack =>
      rw [hs] at hstack
      rw [hstack]
      dsimp only [Option.map_some, LocalHandle.rename]
      rw [ScopeStack.get_rename hρ]
      cases stack.get l.scope l.slot <;> exact ⟨rfl, hsame⟩

theorem escape (h : i.Twins ρ t i') (scope : ScopeId) (l : LocalHandle) :
    Outcome.Twins ρ (LocalHandle.rename ρ) t (i.escape t scope l w)
      (i'.escape t (ρ scope) (l.rename ρ) w') := by
  refine h.run _ fun _ => ?_
  have hstack := h.stack?_eq
  have hsame := hstack
  rw [h.ownerFault?_eq]
  cases howner : i.ownerFault? l.isolate with
  | some e => exact ⟨congrArg _ (congrArg _ (rename_ownerFault howner).symm), hstack⟩
  | none =>
    dsimp only
    cases hs : i.storage.stack? t with
    | none =>
      rw [hs] at hstack
      rw [hstack]
      exact ⟨rfl, hsame⟩
    | some stack =>
      rw [hs] at hstack
      rw [hstack]
      obtain ⟨hr, hmoved⟩ := stack.escape_rename hρ scope l.slot w.heap w'.heap
      dsimp only [Option.map_some, LocalHandle.rename]
      generalize stack.escape scope l.slot w.heap = r at hr hmoved ⊢
      generalize (stack.rename ρ).escape (ρ scope) l.slot w'.heap = r' at hr hmoved ⊢
      obtain ⟨r, s, g⟩ := r
      obtain ⟨r', s', g'⟩ := r'
      dsimp only at hr hmoved
      subst hr hmoved
      have hset : (i'.storage.setStack t (s.rename ρ)).stack? t
          = ((i.storage.setStack t s).stack? t).map (ScopeStack.rename ρ) := by
        rw [Storage.stack?_setStack, Storage.stack?_setStack]
        rfl
      cases r with
      | error e => exact ⟨rfl, hset⟩
      | ok x =>
        refine ⟨?_, hset⟩
        dsimp only [renamed]
        rw [h.id_eq]
        rfl

end Twins

/-! ### What leaves a desk alone -/

theorem desk_eq_of_stack?_eq (hconfig : i'.config = i.config) (hregistry : i'.registry = i.registry)
    (hstack : i'.storage.stack? t = i.storage.stack? t) : i'.desk t = i.desk t := by
  rw [desk, hconfig, hregistry, hstack, desk]

theorem scopeStacks_run {site : Site}
    {op : Storage → Shared → Except HandleError (α × RootTransition) × Storage × Shared}
    (hop : (op i.storage w).2.1.scopeStacks = i.storage.scopeStacks) :
    (i.run u site w op).2.1.storage.scopeStacks = i.storage.scopeStacks :=
  run_keeps (P := fun s _ _ => s.scopeStacks = i.storage.scopeStacks)
    (fun s _ _ tr h => (s.scopeStacks_note tr).trans h) rfl hop

theorem scopeStacks_makePersistent (i : Isolate) (u : ThreadKey) (o : ObjectId) (w : Shared) :
    (i.makePersistent u o w).2.1.storage.scopeStacks = i.storage.scopeStacks := by
  unfold makePersistent
  split
  · rfl
  · refine scopeStacks_run ?_
    split <;> rfl

theorem scopeStacks_runOwned {site : Site} {owner : IsolateId}
    {op : PersistentStore → Heap → Except UsageError α × PersistentStore × Heap} :
    (i.runOwned u site owner w op).2.1.storage.scopeStacks = i.storage.scopeStacks := by
  refine scopeStacks_run ?_
  split
  · rfl
  · split <;> rfl

end Isolate

namespace Request

variable {ρ : ScopeId → ScopeId} {i i' : Isolate} {t u : ThreadKey} {w w' : Shared} {r : Request}

/-- **A request about scopes and locals** is answered alike by two isolates between which the
thread cannot tell, and so they remain. -/
theorem twins_serve (hρ : Function.Injective ρ) (h : i.Twins ρ t i') (hr : r.isLocal = true)
    (hdrawn : ∀ a b, (r.serve t i w).1 = .ok (.scope a) →
      ((r.rename ρ).serve t i' w').1 = .ok (.scope b) → ρ a = b) :
    Isolate.Outcome.Twins ρ (Answer.rename ρ) t (r.serve t i w) ((r.rename ρ).serve t i' w') := by
  cases r with
  | openScope =>
    refine (h.openScope fun a b ha hb => hdrawn a b ?_ ?_).map _ fun _ => rfl
    · exact congrArg (Except.map Answer.scope) ha
    · exact congrArg (Except.map Answer.scope) hb
  | closeScope scope => exact (h.closeScope hρ scope).map _ fun _ => rfl
  | addLocal scope o => exact (h.addLocalTo hρ scope o).map _ fun _ => rfl
  | getLocal l => exact (h.getLocal hρ l).map _ fun _ => rfl
  | escape scope l => exact (h.escape hρ scope l).map _ fun _ => rfl
  | _ => cases hr

/-- **A request about persistent handles** leaves the desks of all threads alone. -/
theorem desk_serve (hr : r.isLocal = false) (u t : ThreadKey) (i : Isolate) (w : Shared) :
    (r.serve u i w).2.1.desk t = i.desk t := by
  obtain ⟨storage, failed, hserved⟩ := r.served u i w
  have hstacks : (r.serve u i w).2.1.storage.scopeStacks = i.storage.scopeStacks := by
    cases r with
    | makePersistent o => exact i.scopeStacks_makePersistent u o w
    | persistLocal l =>
      show (i.persistLocal u l w).2.1.storage.scopeStacks = _
      unfold Isolate.persistLocal
      rcases i.getLocal_cases u l w with ⟨e, he⟩ | ⟨o, he⟩ <;> rw [he]
      · rfl
      · exact i.scopeStacks_makePersistent u o w
    | dispose p => exact Isolate.scopeStacks_runOwned
    | makeWeak p record => exact Isolate.scopeStacks_runOwned
    | clearWeak p => exact Isolate.scopeStacks_runOwned
    | collectWeak => rfl
    | _ => cases hr
  refine Isolate.desk_eq_of_stack?_eq ?_ ?_ (Storage.stack?_congr hstacks t) <;> rw [hserved]

/-- **A request of another thread** leaves the desk of a thread alone. -/
theorem desk_serve_of_ne (r : Request) (hs : i.storage.Rooted) (hu : t ≠ u) (w : Shared) :
    (r.serve u i w).2.1.desk t = i.desk t := by
  obtain ⟨storage, failed, hserved⟩ := r.served u i w
  refine Isolate.desk_eq_of_stack?_eq ?_ ?_ ((r.tells_serve hs u w).others t hu) <;> rw [hserved]

end Request
end EngineHandles
