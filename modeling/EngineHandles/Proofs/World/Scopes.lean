/-
# Scopes in every run

A scope is opened at a place: by a thread, in an isolate.  Whatever happens in the world,
the scope stacks that are there afterwards come from those at the same places by calls that
open no scope (`World.Evolves`), or one scope was opened before that under the next id
(`World.Opens`); these are all the cases (`World.act_cases`).

So with `homes`, the list of the places where scopes were opened so far, a run that opens
no more scopes than there are ids keeps each stack's open scopes at home
(`World.Housed.run`), and keeps what the locals of these scopes denote for as long as the
scopes are open (`World.Keeps`).
-/

import EngineHandles.Proofs.Isolate.Scopes
import EngineHandles.Proofs.World.Run

namespace EngineHandles

/-- Whether an act may open a scope. -/
def Act.opensScope : Act → Bool
  | .request _ _ r => r.opensScope
  | .openGuarded _ _ => true
  | _ => false

/-- Where scopes are opened: by a thread, in an isolate. -/
structure Place where
  isolate : IsolateId
  thread : ThreadKey
deriving DecidableEq, Repr

namespace World

variable {w w' w'' : World} {place : Place} {stack stack' : ScopeStack} {id : ScopeId}
  {i : IsolateId} {iso : Isolate}

/-- The scope stack at a place. -/
def HasStack (w : World) (place : Place) (stack : ScopeStack) : Prop :=
  ∃ iso ∈ w.isolates, iso.id = place.isolate ∧ (place.thread, stack) ∈ iso.storage.scopeStacks

/-- No thread has two scope stacks in one isolate. -/
def OneStackEach (w : World) : Prop := ∀ iso ∈ w.isolates, iso.storage.owners.Nodup

theorem HasStack.of_stack? (hi : iso ∈ w.isolates) {t : ThreadKey}
    (ht : iso.storage.stack? t = some stack) : w.HasStack ⟨iso.id, t⟩ stack :=
  ⟨iso, hi, rfl, Storage.mem_of_stack? ht⟩

/-- The stack at a place is the one that its thread has in its isolate. -/
theorem HasStack.stack?_eq (hw : w.WellFormed) (howners : w.OneStackEach)
    (h : w.HasStack place stack) (hi : iso ∈ w.isolates) (hid : iso.id = place.isolate) :
    iso.storage.stack? place.thread = some stack := by
  obtain ⟨iso', hi', hid', hmem⟩ := h
  have hsame := (hw.isolate?_of_mem hi hid).symm.trans (hw.isolate?_of_mem hi' hid')
  obtain rfl := Option.some.inj hsame
  exact Storage.stack?_of_mem (howners iso hi) hmem

/-- There is one stack at a place. -/
theorem HasStack.unique (hw : w.WellFormed) (howners : w.OneStackEach)
    (h : w.HasStack place stack) (h' : w.HasStack place stack') : stack = stack' := by
  obtain ⟨iso, hi, hid, -⟩ := id h
  have ht := h.stack?_eq hw howners hi hid
  have ht' := h'.stack?_eq hw howners hi hid
  exact Option.some.inj (ht.symm.trans ht')

/-- The stacks after an operation are those of the isolate that it was on, or others'. -/
theorem hasStack_put {r : Isolate × Shared} (h : (w.put r).HasStack place stack) :
    w.HasStack place stack ∨
      place.isolate = r.1.id ∧ (place.thread, stack) ∈ r.1.storage.scopeStacks := by
  obtain ⟨iso, hi, hid, hmem⟩ := h
  obtain ⟨j, hj, rfl⟩ := List.mem_map.1 hi
  split at hid
  · next he =>
    rw [if_pos he] at hmem
    exact .inr ⟨hid.symm, hmem⟩
  · next he =>
    rw [if_neg he] at hmem
    exact .inl ⟨j, hj, hid, hmem⟩

theorem mem_put (hi : iso ∈ w.isolates) {r : Isolate × Shared} (hid : r.1.id = iso.id) :
    r.1 ∈ (w.put r).isolates := List.mem_map.2 ⟨iso, hi, if_pos hid.symm⟩

theorem OneStackEach.put (howners : w.OneStackEach) {r : Isolate × Shared}
    (hr : r.1.storage.owners.Nodup) : (w.put r).OneStackEach := by
  intro iso hi
  obtain ⟨j, hj, rfl⟩ := List.mem_map.1 hi
  split
  · exact hr
  · exact howners j hj

/-! ### What an act does to scopes -/

/-- Each stack comes from the one at the same place, by calls that open no scope. -/
structure Evolves (w w' : World) : Prop where
  next_eq : w'.shared.nextScope = w.shared.nextScope
  owners : w.OneStackEach → w'.OneStackEach
  origin : ∀ {place stack'}, w'.HasStack place stack' →
    ∃ stack, w.HasStack place stack ∧ stack.Reaches stack'

namespace Evolves

theorem trans (h : Evolves w w') (h' : Evolves w' w'') : Evolves w w'' := by
  refine ⟨h'.next_eq.trans h.next_eq, fun howners => h'.owners (h.owners howners), fun hs => ?_⟩
  obtain ⟨stack', hs', hreach'⟩ := h'.origin hs
  obtain ⟨stack, hs, hreach⟩ := h.origin hs'
  exact ⟨stack, hs, hreach.trans hreach'⟩

/-- Isolates that were there, or have no scope yet. -/
theorem of_mem (hnext : w'.shared.nextScope = w.shared.nextScope)
    (h : ∀ iso ∈ w'.isolates, iso ∈ w.isolates ∨ iso.storage.scopeStacks = []) : Evolves w w' := by
  refine ⟨hnext, fun howners iso hi => ?_, ?_⟩
  · rcases h iso hi with hi | hnone
    · exact howners iso hi
    · rw [Storage.owners, hnone]
      exact .nil
  · rintro place stack ⟨iso, hi, hid, hmem⟩
    rcases h iso hi with hi | hnone
    · exact ⟨stack, ⟨iso, hi, hid, hmem⟩, .refl⟩
    · rw [hnone] at hmem
      cases hmem

theorem of_isolates_eq (hnext : w'.shared.nextScope = w.shared.nextScope)
    (h : w'.isolates = w.isolates) : Evolves w w' := .of_mem hnext fun _ hi => .inl (h ▸ hi)

theorem refl (w : World) : Evolves w w := .of_isolates_eq rfl rfl

/-- An operation on an isolate that opens no scope. -/
theorem put (hi : iso ∈ w.isolates) {r : Isolate × Shared} (hid : r.1.id = iso.id)
    (hr : iso.Evolves w.shared r) : Evolves w (w.put r) := by
  refine ⟨hr.next_eq, fun howners => howners.put (hr.storage.owners (howners iso hi)), ?_⟩
  intro place stack' h
  rcases hasStack_put h with h | ⟨hplace, hmem⟩
  · exact ⟨stack', h, .refl⟩
  · obtain ⟨stack, hmem, hreach⟩ := hr.storage.origin hmem
    exact ⟨stack, ⟨iso, hi, (hplace.trans hid).symm, hmem⟩, hreach⟩

/-- A request that opens no scope. -/
theorem serve (hi : iso ∈ w.isolates) (t : ThreadKey) {r : Request}
    (hr : r.opensScope = false) : Evolves w (w.put (r.serve t iso w.shared).2) :=
  .put hi (r.id_serve t iso w.shared) (r.evolves_serve hr t iso w.shared)

/-- The work of threads and guards opens no scope. -/
theorem works {P : ThreadKey → Prop} (h : Works P w w') : Evolves w w' := by
  induction h with
  | beside hi _ _ hn _ => exact .of_isolates_eq hn hi
  | @rewrite w iso iso' hi hid hst _ =>
    have hiso : iso.Evolves w.shared (iso', w.shared) :=
      .of_eq (congrArg Storage.scopeStacks hst) rfl
    exact .put (mem_of_isolate? hi).1 hid hiso
  | @serve w iso hi t r hr =>
    refine .serve (mem_of_isolate? hi).1 t ?_
    cases r with
    | openScope => cases hr
    | _ => rfl
  | reap w i =>
    rcases w.reap_cases i with hr | ⟨iso, -, hr⟩
    · rw [hr]
      exact .refl w
    · rw [hr]
      exact .of_mem rfl fun iso hi => .inl (List.mem_filter.1 hi).1
  | trans _ _ ih₁ ih₂ => exact ih₁.trans ih₂

theorem newIsolate (w : World) (c : IsolateConfig) : Evolves w (w.newIsolate c).2 := by
  rcases w.newIsolate_cases c with hn | ⟨iso, hc, hn⟩
  · rw [hn]
    exact .refl w
  · rw [hn]
    obtain ⟨-, hstacks, -⟩ := Isolate.ofConfig?_eq_ok hc
    refine .of_mem rfl fun j hj => ?_
    rcases List.mem_append.1 hj with hj | hj
    · exact .inl hj
    · obtain rfl := List.mem_singleton.1 hj
      exact .inr hstacks

/-- An act that is not one of opening a scope. -/
theorem act (w : World) {a : Act} (ha : a.opensScope = false) : Evolves w (w.act a) := by
  cases a with
  | tally | make | furnish => exact .of_isolates_eq rfl rfl
  | newIsolate c => exact .newIsolate w c
  | request t i r =>
    rw [act_request]
    cases hi : w.isolate? i with
    | none => exact .refl w
    | some iso => exact .serve (mem_of_isolate? hi).1 t ha
  | openGuarded t i => cases ha
  | _ => exact .works (works_act w rfl)

end Evolves

/-- A scope is opened at a place: the next id goes on top of the stack there, or on a new
one. -/
structure Opens (place : Place) (w w' : World) : Prop where
  next_eq : w'.shared.nextScope = w.shared.nextScope.next
  owners : w.OneStackEach → w'.OneStackEach
  origin : ∀ {p stack'}, w'.HasStack p stack' → w.HasStack p stack' ∨
    p = place ∧ ∃ stack, (w.HasStack place stack ∨ ∃ c, ScopeStack.ofConfig? c = .ok stack) ∧
      stack' = stack.enter w.shared.nextScope

/-- **What a request to open a scope does.** -/
theorem openScope_cases (w : World) (t : ThreadKey) (i : IsolateId) :
    Evolves w (w.act (.request t i .openScope)) ∨
      ∃ place, Opens place w (w.act (.request t i .openScope)) := by
  rw [act_request]
  cases hi : w.isolate? i with
  | none => exact .inl (.refl w)
  | some iso =>
    have hmem := (mem_of_isolate? hi).1
    have hid := Request.openScope.id_serve t iso w.shared
    dsimp only
    rcases iso.openScope_cases t w.shared with hev | ⟨stack, hstack, hset, hnext⟩
    · exact .inl (.put hmem hid hev)
    · refine .inr ⟨⟨iso.id, t⟩, hnext, fun howners => howners.put ?_, fun {p stack'} h => ?_⟩
      · show ((iso.openScope t w.shared).2.1.storage.scopeStacks.map Prod.fst).Nodup
        rw [hset]
        exact Storage.nodup_setStack (howners iso hmem) t _
      · rcases hasStack_put h with h | ⟨hplace, h⟩
        · exact .inl h
        · have hplace : p.isolate = iso.id := hplace.trans hid
          have h : (p.thread, stack') ∈ (iso.openScope t w.shared).2.1.storage.scopeStacks := h
          rw [hset] at h
          rcases Storage.mem_setStack h with h | he
          · exact .inl ⟨iso, hmem, hplace.symm, h⟩
          · obtain ⟨ht, rfl⟩ := Prod.mk.inj he
            refine .inr ⟨?_, stack, hstack.imp (.of_stack? hmem) fun h => ⟨_, h⟩, rfl⟩
            rw [← hplace, ← ht]

/-- **What an act does to scopes:** it opens none, or one and then no other. -/
theorem act_cases (w : World) (a : Act) :
    Evolves w (w.act a) ∨
      a.opensScope = true ∧ ∃ place w₁, Opens place w w₁ ∧ Evolves w₁ (w.act a) := by
  cases ha : a.opensScope with
  | false => exact .inl (.act w ha)
  | true =>
    cases a with
    | request t i r =>
      obtain rfl : r = .openScope := by
        cases r with
        | openScope => rfl
        | _ => cases ha
      refine (w.openScope_cases t i).imp_right fun ⟨place, h⟩ => ?_
      exact ⟨rfl, place, _, h, .refl _⟩
    | openGuarded t i =>
      have hev : Evolves _ (w.act (.openGuarded t i)) := .works (w.works_openGuarded t i)
      refine (w.openScope_cases t i).imp (fun h => h.trans hev) fun ⟨place, h⟩ => ?_
      exact ⟨rfl, place, _, h, hev⟩
    | _ => cases ha

/-! ### Scopes stay at home -/

/-- A world in which the open scopes of each stack are different ones that were opened at
its place, if `homes` tells of every scope where it was opened. -/
structure Housed (homes : List Place) (w : World) : Prop where
  next_eq : w.shared.nextScope = .nth homes.length
  owners : w.OneStackEach
  stack : ∀ {place stack}, w.HasStack place stack → stack.Housed homes place

/-- If a scope is open, it was open at the same place before, with locals that denote what
they denoted. -/
def Keeps (id : ScopeId) (w w' : World) : Prop :=
  ∀ place stack', w'.HasStack place stack' → stack'.isOpen id = true →
    ∃ stack, w.HasStack place stack ∧ ScopeStack.Keeps id stack stack'

/-- How many scopes a run opens: each draws the next id, and nothing else does. -/
def opened (w : World) : List Act → Nat
  | [] => 0
  | a :: rest =>
    (if (w.act a).shared.nextScope = w.shared.nextScope then 0 else 1) + (w.act a).opened rest

variable {homes : List Place}

theorem housed_init : Housed [] ({} : World) := ⟨rfl, nofun, nofun⟩

theorem Keeps.refl (id : ScopeId) (w : World) : Keeps id w w :=
  fun _ stack h _ => ⟨stack, h, .refl id stack⟩

theorem Keeps.trans (h : Keeps id w w') (h' : Keeps id w' w'') : Keeps id w w'' := by
  intro place stack'' hs hopen
  obtain ⟨stack', hs', hkeep'⟩ := h' _ _ hs hopen
  obtain ⟨stack, hs, hkeep⟩ := h _ _ hs' (hkeep'.isOpen hopen)
  exact ⟨stack, hs, hkeep.trans hkeep'⟩

theorem opened_append (w : World) (xs ys : List Act) :
    w.opened (xs ++ ys) = w.opened xs + (w.run xs).opened ys := by
  induction xs generalizing w with
  | nil => exact (Nat.zero_add _).symm
  | cons a xs ih =>
    rw [List.cons_append, opened, opened, ih, Nat.add_assoc]
    rfl

namespace Housed

theorem of_stack? (hs : Housed homes w) (hi : iso ∈ w.isolates) {t : ThreadKey}
    (stack : ScopeStack) (ht : iso.storage.stack? t = some stack) :
    stack.Housed homes ⟨iso.id, t⟩ := hs.stack (.of_stack? hi ht)

theorem evolves (hs : Housed homes w) (h : Evolves w w') : Housed homes w' := by
  refine ⟨h.next_eq.trans hs.next_eq, h.owners hs.owners, fun hs' => ?_⟩
  obtain ⟨stack, hstack, hreach⟩ := h.origin hs'
  exact (hs.stack hstack).reaches hreach

theorem keeps_of_evolves (hs : Housed homes w) (h : Evolves w w') (id : ScopeId) :
    Keeps id w w' := by
  intro place stack' hs' _
  obtain ⟨stack, hstack, hreach⟩ := h.origin hs'
  exact ⟨stack, hstack, (hs.stack hstack).keeps hreach id⟩

/-- What a scope is opened on is a stack of that place. -/
theorem of_opens (hs : Housed homes w)
    (h : w.HasStack place stack ∨ ∃ c, ScopeStack.ofConfig? c = .ok stack) :
    stack.Housed homes place := by
  rcases h with h | ⟨c, hc⟩
  · exact hs.stack h
  · exact ScopeStack.housed_of_ofConfig? hc homes place

theorem opens (hs : Housed homes w) (hn : homes.length < 2 ^ 64) (h : Opens place w w') :
    Housed (homes ++ [place]) w' := by
  refine ⟨?_, h.owners hs.owners, fun hs' => ?_⟩
  · rw [h.next_eq, hs.next_eq, ScopeId.next_nth, List.length_append]
    rfl
  · rcases h.origin hs' with hs' | ⟨rfl, stack, hstack, rfl⟩
    · exact (hs.stack hs').append [place]
    · rw [hs.next_eq]
      exact (hs.of_opens hstack).enter hn

theorem keeps_of_opens (hs : Housed homes w) (hn : homes.length < 2 ^ 64) (h : Opens place w w')
    (hid : id ≠ .nth homes.length) : Keeps id w w' := by
  intro p stack' hs' hopen
  rcases h.origin hs' with hs' | ⟨rfl, stack, hstack, rfl⟩
  · exact ⟨stack', hs', .refl id stack'⟩
  · rw [hs.next_eq] at hopen ⊢
    have hkeep := (hs.of_opens hstack).keeps_enter hn hid
    rcases hstack with hstack | ⟨c, hc⟩
    · exact ⟨stack, hstack, hkeep⟩
    · -- a new stack has no scope but the one that is opened on it
      obtain ⟨k, hk, -⟩ := (ScopeStack.housed_of_ofConfig? hc [] p).exists_home
        (hkeep.isOpen hopen)
      cases hk

/-- **A scope is open at one place only.** -/
theorem place_unique (hs : Housed homes w) (hn : homes.length ≤ 2 ^ 64) {p : Place}
    (h : w.HasStack place stack) (hopen : stack.isOpen id = true)
    (h' : w.HasStack p stack') (hopen' : stack'.isOpen id = true) : p = place := by
  obtain ⟨k, hk, rfl⟩ := (hs.stack h).exists_home hopen
  obtain ⟨k', hk', he⟩ := (hs.stack h').exists_home hopen'
  have hlt := (List.getElem?_eq_some_iff.1 hk).1
  have hlt' := (List.getElem?_eq_some_iff.1 hk').1
  obtain rfl := ScopeId.nth_inj (by omega) (by omega) he
  exact Option.some.inj (hk'.symm.trans hk)

/-- **An act** opens at most one scope, under an id of its own, and keeps all others. -/
theorem act (hs : Housed homes w) (a : Act) (h : homes.length + w.opened [a] ≤ 2 ^ 64) :
    ∃ homes', homes'.length = homes.length + w.opened [a] ∧ Housed homes' (w.act a) ∧
      ∀ k < homes.length, Keeps (.nth k) w (w.act a) := by
  rw [opened] at h ⊢
  rcases w.act_cases a with hev | ⟨-, place, w₁, hopen, hev⟩
  · rw [if_pos hev.next_eq]
    exact ⟨homes, rfl, hs.evolves hev, fun k _ => hs.keeps_of_evolves hev _⟩
  · have hnext := hev.next_eq.trans hopen.next_eq
    rw [hs.next_eq, ScopeId.next_nth] at hnext
    have hne : (w.act a).shared.nextScope ≠ w.shared.nextScope := by
      rw [hnext, hs.next_eq]
      exact ScopeId.nth_succ_ne homes.length
    rw [if_neg hne] at h ⊢
    have hn : homes.length < 2 ^ 64 := by
      rw [opened] at h
      omega
    have hs₁ := hs.opens hn hopen
    refine ⟨homes ++ [place], by rw [List.length_append]; rfl, hs₁.evolves hev, fun k hk => ?_⟩
    refine (hs.keeps_of_opens hn hopen fun he => ?_).trans (hs₁.keeps_of_evolves hev _)
    have := ScopeId.nth_inj (by omega) hn he
    omega

/-- **In every run that does not exhaust the supply of ids** scopes stay at home, and the
locals of each scope denote what they denoted, for as long as it is open. -/
theorem run (hs : Housed homes w) (acts : List Act)
    (h : homes.length + w.opened acts ≤ 2 ^ 64) :
    ∃ homes', homes'.length = homes.length + w.opened acts ∧ Housed homes' (w.run acts) ∧
      ∀ k < homes.length, Keeps (.nth k) w (w.run acts) := by
  induction acts generalizing homes w with
  | nil => exact ⟨homes, rfl, hs, fun k _ => .refl _ w⟩
  | cons a rest ih =>
    have hsplit : w.opened (a :: rest) = w.opened [a] + (w.act a).opened rest :=
      w.opened_append [a] rest
    rw [hsplit, ← Nat.add_assoc] at h ⊢
    obtain ⟨homes₁, hlen₁, hs₁, hkeep₁⟩ := hs.act a (by omega)
    rw [← hlen₁] at h ⊢
    obtain ⟨homes₂, hlen₂, hs₂, hkeep₂⟩ := ih hs₁ h
    refine ⟨homes₂, hlen₂, hs₂, fun k hk => ?_⟩
    exact (hkeep₁ k hk).trans (hkeep₂ k (by omega))

end Housed

/-- A run opens no more scopes than it has acts that may open one. -/
theorem opened_le (w : World) (acts : List Act) : w.opened acts ≤ acts.countP Act.opensScope := by
  induction acts generalizing w with
  | nil => exact Nat.le_refl _
  | cons a rest ih =>
    rw [opened, List.countP_cons]
    have := ih (w.act a)
    rcases w.act_cases a with hev | ⟨ha, -⟩
    · rw [if_pos hev.next_eq]
      omega
    · rw [ha, if_pos rfl]
      split <;> omega

end World
end EngineHandles
