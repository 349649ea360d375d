/-
# Open scopes as a stack of lists

What a scope stack is for can be said without an arena: a list of open scopes,
innermost first, each with the objects of its locals in order of adding.  Opening a
scope pushes an empty list, a local goes to the end of the top list, and closing the
top scope pops its list and releases what is in it (`releaseAll`).  An escape pops the
top list too, but hands one of its references to the list below instead of releasing
it.  Addresses are positions in the concatenation of all lists, outermost first
(`objects`).

`Levels.call` is this machine for one call of the interface, with the answers and the
effect on the heap that a scope stack shows.
-/

import EngineHandles.Scope.Stack
import EngineHandles.Proofs.Arena.Cut

namespace EngineHandles

/-- An open scope, and the objects of its locals in order of adding. -/
structure Level where
  id : ScopeId
  objects : List ObjectId
deriving DecidableEq, Repr

/-- One call of a scope stack's interface. -/
inductive ScopeCall where
  | enter (id : ScopeId)
  | leave (id : ScopeId)
  | add (object : ObjectId)
  | escape (id : ScopeId) (slot : SlotAddr)
  | get (id : ScopeId) (slot : SlotAddr)
  | references
deriving DecidableEq, Repr

/-- What a call answers. -/
inductive ScopeReply where
  | entered
  | left (result : Except HandleError (Nat × RootTransition))
  | added (result : Except HandleError LocalAdded)
  | escaped (result : Except HandleError Escaped)
  | got (result : Except UsageError ObjectId)
  | visited (references : List (SlotAddr × ObjectId))

/-- The scope that a call opens. -/
def ScopeCall.opened? : ScopeCall → Option ScopeId
  | .enter id => some id
  | _ => none

/-- The scopes that calls open, in order. -/
def ScopeCall.opened (calls : List ScopeCall) : List ScopeId := calls.filterMap opened?

/-- Releases strong references to objects, the last one first. -/
def Heap.releaseAll (h : Heap) (objects : List ObjectId) : Heap :=
  objects.foldr (fun o h => (h.release o .strong).2) h

namespace ScopeStack

/-- Serves one call. -/
def call (s : ScopeStack) (h : Heap) : ScopeCall → ScopeReply × ScopeStack × Heap
  | .enter id => (.entered, s.enter id, h)
  | .leave id => let (r, s', h') := s.leave id h; (.left r, s', h')
  | .add o => let (r, s', h') := s.add o h; (.added r, s', h')
  | .escape id slot => let (r, s', h') := s.escape id slot h; (.escaped r, s', h')
  | .get id slot => (.got (s.get id slot), s, h)
  | .references => (.visited s.references, s, h)

/-- Serves calls in order. -/
def run (s : ScopeStack) (h : Heap) : List ScopeCall → List ScopeReply × ScopeStack × Heap
  | [] => ([], s, h)
  | call :: rest =>
    let (r, s', h') := s.call h call
    let (rs, s'', h'') := s'.run h' rest
    (r :: rs, s'', h'')

end ScopeStack

/-- The open scopes of a thread, innermost first. -/
abbrev Levels := List Level

namespace Levels

/-- The objects of all locals, those of the outermost scope first. -/
def objects : Levels → List ObjectId
  | [] => []
  | l :: below => objects below ++ l.objects

/-- The ids of the open scopes, innermost first. -/
def ids (L : Levels) : List ScopeId := L.map Level.id

/-- Why a scope that is not `top` may not be closed, if `below` are the scopes below `top`. -/
def closeError (top : Level) (below : Levels) (id : ScopeId) : UsageError :=
  if id ∈ ids below then .scopeNotInnermost id top.id else .scopeAlreadyClosed id

/-- The place in the list of `l` of the local with an address, if `below` are the scopes
below `l`. -/
def index? (c : ArenaConfig) (l : Level) (below : Levels) (slot : SlotAddr) : Option Nat :=
  (List.range l.objects.length).find? fun j => c.slotAt ((objects below).length + j) == slot

/-- Opens a scope. -/
def enter (L : Levels) (id : ScopeId) : Levels := ⟨id, []⟩ :: L

/-- Closes the top scope and releases each of its references. -/
def leave (L : Levels) (id : ScopeId) (h : Heap) :
    Except HandleError (Nat × RootTransition) × Levels × Heap :=
  match L with
  | [] => (.error (.usage (.scopeAlreadyClosed id)), [], h)
  | l :: below =>
    if l.id = id then
      (.ok (l.objects.length, .between (objects (l :: below)).length (objects below).length),
        below, h.releaseAll l.objects)
    else (.error (.usage (closeError l below id)), l :: below, h)

/-- Adds a reference at the end of the top list, if the arena has room. -/
def add (c : ArenaConfig) (L : Levels) (o : ObjectId) (h : Heap) :
    Except HandleError LocalAdded × Levels × Heap :=
  match L with
  | [] => (.error (.usage .noEnclosingScope), [], h)
  | l :: below =>
    let n := (objects (l :: below)).length
    if n < c.capacity then
      (.ok ⟨l.id, ⟨c.slotAt n, c.frontierAt (n + 1)⟩, .between n (n + 1)⟩,
        { l with objects := l.objects ++ [o] } :: below, h.retain o .strong)
    else (.error (.resourceExhausted c.maxSlabs.toNat c.maxSlabs.toNat), l :: below, h)

/-- Closes the top scope, moves the reference at an address to the end of the list
below, and releases the others. -/
def escape (c : ArenaConfig) (L : Levels) (id : ScopeId) (slot : SlotAddr) (h : Heap) :
    Except HandleError Escaped × Levels × Heap :=
  match L with
  | [] => (.error (.usage (.scopeAlreadyClosed id)), [], h)
  | l :: below =>
    if l.id ≠ id then (.error (.usage (closeError l below id)), l :: below, h)
    else
      match below with
      | [] => (.error (.usage (.escapeWithoutParent id)), [l], h)
      | parent :: rest =>
        match index? c l (parent :: rest) slot with
        | none => (.error (.usage (.slotOutsideScope slot id)), l :: parent :: rest, h)
        | some j =>
          let n := (objects (parent :: rest)).length
          let moved := l.objects[j]?.toList
          (.ok ⟨parent.id, ⟨c.slotAt n, c.frontierAt (n + 1)⟩,
              .between (objects (l :: parent :: rest)).length (n + 1)⟩,
            { parent with objects := parent.objects ++ moved } :: rest,
            h.releaseAll (l.objects.eraseIdx j))

/-- The object of the local of an open scope with an address. -/
def get (c : ArenaConfig) : Levels → ScopeId → SlotAddr → Except UsageError ObjectId
  | [], id, _ => .error (.staleLocal id)
  | l :: below, id, slot =>
    if l.id = id then
      match (index? c l below slot).bind (l.objects[·]?) with
      | some o => .ok o
      | none => .error (.staleLocal id)
    else get c below id slot

/-- The scope whose list holds position `k` of all objects, and the object there. -/
def owner? : Levels → Nat → Option (ScopeId × ObjectId)
  | [], _ => none
  | l :: below, k =>
    if k < (objects below).length then owner? below k
    else l.objects[k - (objects below).length]?.map fun o => (l.id, o)

/-- All references with their addresses. -/
def references (c : ArenaConfig) (L : Levels) : List (SlotAddr × ObjectId) :=
  L.objects.zipIdx.map fun (o, k) => (c.slotAt k, o)

/-- Serves one call. -/
def call (c : ArenaConfig) (L : Levels) (h : Heap) : ScopeCall → ScopeReply × Levels × Heap
  | .enter id => (.entered, L.enter id, h)
  | .leave id => let (r, L', h') := L.leave id h; (.left r, L', h')
  | .add o => let (r, L', h') := L.add c o h; (.added r, L', h')
  | .escape id slot => let (r, L', h') := L.escape c id slot h; (.escaped r, L', h')
  | .get id slot => (.got (L.get c id slot), L, h)
  | .references => (.visited (L.references c), L, h)

/-- Serves calls in order. -/
def run (c : ArenaConfig) (L : Levels) (h : Heap) :
    List ScopeCall → List ScopeReply × Levels × Heap
  | [] => ([], L, h)
  | call :: rest =>
    let (r, L', h') := L.call c h call
    let (rs, L'', h'') := run c L' h' rest
    (r :: rs, L'', h'')

variable {c : ArenaConfig}

@[simp] theorem objects_nil : objects [] = [] := rfl

@[simp] theorem objects_cons (l : Level) (below : Levels) :
    objects (l :: below) = objects below ++ l.objects := rfl

/-- The objects of the scopes below come first. -/
theorem objects_append (L M : Levels) : objects (L ++ M) = objects M ++ objects L := by
  induction L with
  | nil => exact (List.append_nil _).symm
  | cons l L ih => rw [List.cons_append, objects_cons, ih, objects_cons, List.append_assoc]

@[simp] theorem ids_nil : ids [] = [] := rfl

@[simp] theorem ids_cons (l : Level) (L : Levels) : ids (l :: L) = l.id :: ids L := rfl

theorem ids_append (L M : Levels) : ids (L ++ M) = ids L ++ ids M := List.map_append

/-- **What the place of a local means:** its address is that of its position among all. -/
theorem index?_eq_some_iff (hc : c.IsValid) {l : Level} {below : Levels} {slot : SlotAddr} {j : Nat}
    (hcap : (objects (l :: below)).length ≤ c.capacity) :
    index? c l below slot = some j
      ↔ j < l.objects.length ∧ c.slotAt ((objects below).length + j) = slot := by
  rw [objects_cons, List.length_append] at hcap
  rw [index?, List.find?_range_eq_some]
  simp only [beq_iff_eq, Bool.not_eq_true', beq_eq_false_iff_ne, List.mem_range]
  refine ⟨fun ⟨hs, hj, _⟩ => ⟨hj, hs⟩, fun ⟨hj, hs⟩ => ⟨hs, hj, fun i hi he => ?_⟩⟩
  have := hc.slotAt_inj (by omega) (by omega) (he.trans hs.symm)
  omega

theorem index?_eq_none_iff {l : Level} {below : Levels} {slot : SlotAddr} :
    index? c l below slot = none
      ↔ ∀ j < l.objects.length, c.slotAt ((objects below).length + j) ≠ slot := by
  simp [index?, List.find?_eq_none]

theorem get_of_not_mem {L : Levels} {id : ScopeId} (h : id ∉ L.ids) (slot : SlotAddr) :
    L.get c id slot = .error (.staleLocal id) := by
  induction L with
  | nil => rfl
  | cons l L ih =>
    rw [ids_cons, List.mem_cons, not_or] at h
    rw [get, if_neg fun he => h.1 he.symm, ih h.2]

theorem get_append_of_not_mem {above : Levels} {id : ScopeId} (h : id ∉ above.ids) (M : Levels)
    (slot : SlotAddr) : get c (above ++ M) id slot = get c M id slot := by
  induction above with
  | nil => rfl
  | cons l above ih =>
    rw [ids_cons, List.mem_cons, not_or] at h
    rw [List.cons_append, get, if_neg fun he => h.1 he.symm, ih h.2]

theorem owner?_eq_some {L : Levels} {k : Nat} {id : ScopeId} {o : ObjectId}
    (h : L.owner? k = some (id, o)) : id ∈ L.ids ∧ k < L.objects.length := by
  induction L with
  | nil => cases h
  | cons l below ih =>
    rw [owner?] at h
    rw [ids_cons, List.mem_cons, objects_cons, List.length_append]
    split at h
    · have := ih h
      exact ⟨.inr this.1, by omega⟩
    · obtain ⟨o', ho', he⟩ := Option.map_eq_some_iff.1 h
      cases he
      have := (List.getElem?_eq_some_iff.1 ho').1
      exact ⟨.inl rfl, by omega⟩

/-- Every position lies in the list of a scope. -/
theorem exists_owner? {L : Levels} {k : Nat} (hk : k < L.objects.length) :
    ∃ id, L.owner? k = some (id, L.objects[k]) := by
  induction L with
  | nil => cases hk
  | cons l below ih =>
    simp only [objects_cons, List.length_append] at hk
    simp only [owner?, objects_cons]
    split
    · next hlt =>
      obtain ⟨id, hid⟩ := ih hlt
      exact ⟨id, by rw [hid, List.getElem_append_left hlt]⟩
    · next hge =>
      refine ⟨l.id, ?_⟩
      rw [List.getElem?_eq_getElem (by omega), List.getElem_append_right (by omega)]
      rfl

/-- **Which local a scope and an address denote:** the object at that address, if it lies
in the list of that scope. -/
theorem get_eq_ok_iff {L : Levels} (hc : c.IsValid) (hcap : L.objects.length ≤ c.capacity)
    (hnd : L.ids.Nodup) {id : ScopeId} {slot : SlotAddr} {o : ObjectId} :
    L.get c id slot = .ok o ↔ ∃ k, c.slotAt k = slot ∧ L.owner? k = some (id, o) := by
  induction L with
  | nil => exact ⟨nofun, fun ⟨_, _, h⟩ => nomatch h⟩
  | cons l below ih =>
    have hcap' := hcap
    rw [objects_cons, List.length_append] at hcap'
    rw [ids_cons, List.nodup_cons] at hnd
    rw [get]
    by_cases he : l.id = id
    · subst he
      rw [if_pos rfl]
      constructor
      · intro h
        cases hidx : index? c l below slot with
        | none => rw [hidx] at h; cases h
        | some j =>
          obtain ⟨hj, hs⟩ := (index?_eq_some_iff hc hcap).1 hidx
          rw [hidx, Option.bind_some, List.getElem?_eq_getElem hj] at h
          cases h
          refine ⟨_, hs, ?_⟩
          rw [owner?, if_neg (by omega), Nat.add_sub_cancel_left, List.getElem?_eq_getElem hj]
          rfl
      · rintro ⟨k, hs, hk⟩
        rw [owner?] at hk
        split at hk
        · exact absurd (owner?_eq_some hk).1 hnd.1
        · obtain ⟨o', ho', he⟩ := Option.map_eq_some_iff.1 hk
          cases he
          have hj := (List.getElem?_eq_some_iff.1 ho').1
          rw [(index?_eq_some_iff hc hcap).2 ⟨hj, by rw [Nat.add_sub_cancel' (by omega)]; exact hs⟩,
            Option.bind_some, ho']
    · rw [if_neg he, ih (by omega) hnd.2]
      refine exists_congr fun k => and_congr_right fun _ => ?_
      rw [owner?]
      split
      · rfl
      · next hge =>
        constructor
        · intro h
          exact absurd (owner?_eq_some h).2 hge
        · intro h
          obtain ⟨_, _, he'⟩ := Option.map_eq_some_iff.1 h
          exact absurd (congrArg Prod.fst he') he

/-- What a call can do to the open scopes. -/
inductive Moves : Levels → ScopeCall → Levels → Prop where
  | stays (L : Levels) (call : ScopeCall) (h : call.opened? = none) : Moves L call L
  | opens (L : Levels) (id : ScopeId) : Moves L (.enter id) (⟨id, []⟩ :: L)
  | adds (l : Level) (below : Levels) (o : ObjectId) :
      Moves (l :: below) (.add o) (⟨l.id, l.objects ++ [o]⟩ :: below)
  | closes (l : Level) (below : Levels) : Moves (l :: below) (.leave l.id) below
  | escapes (l parent : Level) (rest : Levels) (slot : SlotAddr) (moved : List ObjectId) :
      Moves (l :: parent :: rest) (.escape l.id slot)
        (⟨parent.id, parent.objects ++ moved⟩ :: rest)

theorem moves_call (c : ArenaConfig) (L : Levels) (h : Heap) (call : ScopeCall) :
    Moves L call (L.call c h call).2.1 := by
  cases call with
  | enter id => exact .opens L id
  | leave id =>
    cases L with
    | nil => exact .stays _ _ rfl
    | cons l below =>
      by_cases he : l.id = id
      · subst he
        rw [call, leave, if_pos rfl]
        exact .closes l below
      · rw [call, leave, if_neg he]
        exact .stays _ _ rfl
  | add o =>
    cases L with
    | nil => exact .stays _ _ rfl
    | cons l below =>
      by_cases hlt : (objects (l :: below)).length < c.capacity
      · rw [call, add, if_pos hlt]
        exact .adds l below o
      · rw [call, add, if_neg hlt]
        exact .stays _ _ rfl
  | escape id slot =>
    cases L with
    | nil => exact .stays _ _ rfl
    | cons l below =>
      rw [call, escape.eq_def]
      by_cases he : l.id = id
      · subst he
        dsimp only
        rw [if_neg (not_not_intro rfl)]
        cases below with
        | nil => exact .stays _ _ rfl
        | cons parent rest =>
          dsimp only
          cases index? c l (parent :: rest) slot with
          | none => exact .stays _ _ rfl
          | some j => exact .escapes l parent rest slot _
      · dsimp only
        rw [if_pos he]
        exact .stays _ _ rfl
  | get id slot => exact .stays _ _ rfl
  | references => exact .stays _ _ rfl

/-- A call opens no scope but the one it names. -/
theorem Moves.ids_sublist {L L' : Levels} {call : ScopeCall} (h : Moves L call L') :
    L'.ids.Sublist (call.opened?.toList ++ L.ids) := by
  cases h with
  | stays => exact List.sublist_append_right _ _
  | opens => exact List.Sublist.refl _
  | adds l below o => exact List.Sublist.refl _
  | closes l below => exact List.sublist_cons_self _ _
  | escapes l parent rest slot moved => exact List.sublist_cons_self _ _

theorem opened_cons (call : ScopeCall) (rest : List ScopeCall) :
    ScopeCall.opened (call :: rest) = call.opened?.toList ++ ScopeCall.opened rest := by
  rw [ScopeCall.opened, List.filterMap_cons]
  cases call.opened? <;> rfl

/-- The scopes still to be opened and those that are open stay distinct. -/
theorem Moves.nodup {L L' : Levels} {call : ScopeCall} (h : Moves L call L')
    {rest : List ScopeCall} (hnd : (ScopeCall.opened (call :: rest) ++ L.ids).Nodup) :
    (ScopeCall.opened rest ++ L'.ids).Nodup := by
  rw [opened_cons, List.append_assoc] at hnd
  have hperm := (List.perm_append_comm_assoc call.opened?.toList (ScopeCall.opened rest) L.ids)
  exact (hperm.nodup hnd).sublist (h.ids_sublist.append_left _)

/-- **A scope lasts until it is closed:** the scopes that were open when it was opened are
below it, unchanged. -/
def Since (id : ScopeId) (L M : Levels) : Prop :=
  (∃ above objects, M = above ++ ⟨id, objects⟩ :: L) ∨ id ∉ M.ids

theorem Moves.since {id : ScopeId} {L M M' : Levels} {call : ScopeCall} (h : Moves M call M')
    (hid : id ∉ L.ids) (hcall : call.opened? ≠ some id) (hs : Since id L M) : Since id L M' := by
  rcases hs with ⟨above, os, hM⟩ | hs
  · cases h with
    | stays => exact .inl ⟨above, os, hM⟩
    | opens _ id' => exact .inl ⟨⟨id', []⟩ :: above, os, by rw [hM, List.cons_append]⟩
    | adds l below o =>
      rcases List.cons_eq_append_iff.1 hM with ⟨rfl, h⟩ | ⟨above, rfl, rfl⟩
      · obtain ⟨rfl, rfl⟩ := List.cons.inj h
        exact .inl ⟨[], os ++ [o], rfl⟩
      · exact .inl ⟨_ :: above, os, rfl⟩
    | closes l below =>
      rcases List.cons_eq_append_iff.1 hM with ⟨rfl, h⟩ | ⟨above, rfl, rfl⟩
      · obtain ⟨rfl, rfl⟩ := List.cons.inj h
        exact .inr hid
      · exact .inl ⟨above, os, rfl⟩
    | escapes l parent rest slot moved =>
      rcases List.cons_eq_append_iff.1 hM with ⟨rfl, h⟩ | ⟨above, rfl, h⟩
      · obtain ⟨rfl, rfl⟩ := List.cons.inj h
        exact .inr hid
      · rcases List.cons_eq_append_iff.1 h with ⟨rfl, h⟩ | ⟨above, rfl, rfl⟩
        · obtain ⟨rfl, rfl⟩ := List.cons.inj h
          exact .inl ⟨[], os ++ moved, rfl⟩
        · exact .inl ⟨_ :: above, os, rfl⟩
  · refine .inr fun hm => ?_
    rcases List.mem_append.1 (h.ids_sublist.subset hm) with hm | hm
    · exact hcall (Option.mem_toList.1 hm)
    · exact hs hm

/-- The scopes that are open after a run were opened by it or were open before. -/
theorem nodup_run (c : ArenaConfig) (L : Levels) (h : Heap) (calls : List ScopeCall)
    (rest : List ScopeCall) (hnd : (ScopeCall.opened (calls ++ rest) ++ L.ids).Nodup) :
    (ScopeCall.opened rest ++ (run c L h calls).2.1.ids).Nodup := by
  induction calls generalizing L h with
  | nil => exact hnd
  | cons call calls ih => exact ih _ _ ((moves_call c L h call).nodup hnd)

theorem since_run {id : ScopeId} {L M : Levels} (h : Heap) (hid : id ∉ L.ids)
    (calls : List ScopeCall) (hcalls : id ∉ ScopeCall.opened calls) (hs : Since id L M) :
    Since id L (run c M h calls).2.1 := by
  induction calls generalizing M h with
  | nil => exact hs
  | cons call calls ih =>
    rw [opened_cons, List.mem_append, not_or] at hcalls
    have hcall : call.opened? ≠ some id := fun he => hcalls.1 (Option.mem_toList.2 he)
    exact ih _ hcalls.2 ((moves_call c M h call).since hid hcall hs)

/-- Closing a scope restores the scopes that were open when it was opened. -/
theorem leave_since {id : ScopeId} {L M : Levels} (hs : Since id L M) (hnd : M.ids.Nodup)
    (h : Heap) {r : Nat × RootTransition} (hr : (M.leave id h).1 = .ok r) :
    (M.leave id h).2.1 = L := by
  cases M with
  | nil => cases hr
  | cons l below =>
    rw [leave] at hr ⊢
    by_cases he : l.id = id
    · subst he
      rw [if_pos rfl]
      rcases hs with ⟨above, os, hM⟩ | hs
      · rcases List.cons_eq_append_iff.1 hM with ⟨rfl, h⟩ | ⟨above, rfl, rfl⟩
        · exact (List.cons.inj h).2.symm
        · rw [ids_cons, List.nodup_cons, ids_append, List.mem_append, not_or] at hnd
          exact absurd List.mem_cons_self hnd.1.2
      · exact absurd List.mem_cons_self hs
    · rw [if_neg he] at hr
      cases hr

end Levels
end EngineHandles
