/-
# Locals last as long as their scopes

A call that opens no scope only takes scopes away and adds locals at the end of what is
left, so a scope that is open afterwards was open before, and each position of its list
holds what it held (`Levels.Narrows`).  Hence a local denotes the same object from when it
was made until its scope is closed, whatever happens to the slots of scopes further in
(`ScopeStack.Keeps`).

For this to be of use over a whole run, a scope must not come back under its old id.  The
list `homes` records where each scope was opened, in the order of their ids; a stack is
`Housed` if its open scopes are different ones that were opened at its place.
-/

import EngineHandles.Proofs.Scope.Escape

namespace EngineHandles
namespace Levels

variable {L L' L'' : Levels} {l : Level} {below : Levels} {k : Nat} {id : ScopeId} {o : ObjectId}

/-- Adding to a list moves nothing. -/
theorem owner?_grow {p : ScopeId × ObjectId} (more : List ObjectId)
    (h : owner? (l :: below) k = some p) :
    owner? (⟨l.id, l.objects ++ more⟩ :: below) k = some p := by
  rw [owner?] at h ⊢
  split
  · next hlt => rwa [if_pos hlt] at h
  · next hge =>
    rw [if_neg hge] at h
    obtain ⟨o, ho, rfl⟩ := Option.map_eq_some_iff.1 h
    have hlt := (List.getElem?_eq_some_iff.1 ho).1
    rw [List.getElem?_append_left hlt, ho, Option.map_some]

/-- What scopes below the top one hold, they hold without it. -/
theorem owner?_below (hid : id ≠ l.id) (h : owner? (l :: below) k = some (id, o)) :
    owner? below k = some (id, o) := by
  rw [owner?] at h
  split at h
  · exact h
  · obtain ⟨o', -, he⟩ := Option.map_eq_some_iff.1 h
    exact absurd (congrArg Prod.fst he).symm hid

/-- Opening a scope moves nothing. -/
theorem owner?_enter {p : ScopeId × ObjectId} (new : ScopeId) (h : L.owner? k = some p) :
    (L.enter new).owner? k = some p := by
  rw [enter, owner?, if_pos (owner?_eq_some h).2, h]

/-- Of the open scopes some are left, with the locals that they had where they had them. -/
structure Narrows (L L' : Levels) : Prop where
  ids : L'.ids.Sublist L.ids
  kept : ∀ {k id o}, id ∈ L'.ids → L.owner? k = some (id, o) → L'.owner? k = some (id, o)

theorem Narrows.refl (L : Levels) : L.Narrows L := ⟨List.Sublist.refl _, fun _ h => h⟩

theorem Narrows.trans (h : L.Narrows L') (h' : L'.Narrows L'') : L.Narrows L'' :=
  ⟨h'.ids.trans h.ids, fun hid ho => h'.kept hid (h.kept (h'.ids.subset hid) ho)⟩

/-- **A call that opens no scope** takes scopes away, or adds at the end. -/
theorem Moves.narrows {call : ScopeCall} (h : Moves L call L') (hcall : call.opened? = none)
    (hnd : L.ids.Nodup) : L.Narrows L' := by
  have hids := h.ids_sublist
  rw [hcall, Option.toList_none, List.nil_append] at hids
  refine ⟨hids, fun {k id o} hid ho => ?_⟩
  cases h with
  | stays => exact ho
  | opens => cases hcall
  | adds l below o => exact owner?_grow [o] ho
  | closes l below =>
    refine owner?_below ?_ ho
    rintro rfl
    exact (List.nodup_cons.1 hnd).1 hid
  | escapes l parent rest slot moved =>
    refine owner?_grow moved (owner?_below ?_ ho)
    rintro rfl
    exact (List.nodup_cons.1 hnd).1 hid

end Levels

namespace ScopeStack

variable {s s' s'' : ScopeStack} {c : ArenaConfig} {L L' : Levels} {id : ScopeId}
  {slot : SlotAddr} {o : ObjectId}

/-- One stack comes from another by calls that open no scope. -/
inductive Reaches (s : ScopeStack) : ScopeStack → Prop where
  | refl : Reaches s s
  | call {s' : ScopeStack} (before : Reaches s s') {call : ScopeCall}
      (opens : call.opened? = none) (heap : Heap) : Reaches s (s'.call heap call).2.1

theorem Reaches.trans (h : s.Reaches s') (h' : s'.Reaches s'') : s.Reaches s'' := by
  induction h' with
  | refl => exact h
  | call _ hcall heap ih => exact .call ih hcall heap

theorem Reaches.narrows (h : s.Reaches s') (hs : s.Shows c L) (hnd : L.ids.Nodup) :
    ∃ L', s'.Shows c L' ∧ L.Narrows L' := by
  induction h with
  | refl => exact ⟨L, hs, .refl L⟩
  | @call s' _ call hcall heap ih =>
    obtain ⟨L', hs', hL'⟩ := ih
    have hnd' := hnd.sublist hL'.ids
    obtain ⟨-, hs'', -⟩ := hs'.call hnd' call heap
    exact ⟨_, hs'', hL'.trans ((Levels.moves_call c L' heap call).narrows hcall hnd')⟩

/-- A slot is stale under the id of a scope that is not open. -/
theorem Shows.get_of_not_isOpen (hs : s.Shows c L) (hnd : L.ids.Nodup)
    (h : s.isOpen id = false) (slot : SlotAddr) : s.get id slot = .error (.staleLocal id) := by
  rw [hs.get hnd, Levels.get_of_not_mem]
  intro hid
  rw [(hs.isOpen_iff id).2 hid] at h
  cases h

/-- A slot denotes something only under the id of a scope that is open. -/
theorem Shows.isOpen_of_get (hs : s.Shows c L) (hnd : L.ids.Nodup)
    (h : s.get id slot = .ok o) : s.isOpen id = true := by
  cases hopen : s.isOpen id with
  | true => rfl
  | false =>
    rw [hs.get_of_not_isOpen hnd hopen] at h
    cases h

/-- A scope that is opened under a new id leaves the ids of the open scopes distinct. -/
theorem Shows.nodup_enter (hs : s.Shows c L) (hnd : L.ids.Nodup) (h : s.isOpen id = false) :
    (L.enter id).ids.Nodup := by
  refine List.nodup_cons.2 ⟨fun hid => ?_, hnd⟩
  rw [(hs.isOpen_iff id).2 hid] at h
  cases h

/-- A scope that is open now was open before, and its locals are what they were. -/
structure Keeps (id : ScopeId) (s s' : ScopeStack) : Prop where
  isOpen : s'.isOpen id = true → s.isOpen id = true
  get : s'.isOpen id = true → ∀ (slot : SlotAddr) (o : ObjectId),
    s.get id slot = .ok o → s'.get id slot = .ok o

theorem Keeps.refl (id : ScopeId) (s : ScopeStack) : Keeps id s s :=
  ⟨fun h => h, fun _ _ _ h => h⟩

theorem Keeps.trans (h : Keeps id s s') (h' : Keeps id s' s'') : Keeps id s s'' := by
  refine ⟨fun ho => h.isOpen (h'.isOpen ho), fun ho slot o hget => ?_⟩
  exact h'.get ho slot o (h.get (h'.isOpen ho) slot o hget)

/-- What the lists keep, the stacks that show them keep. -/
theorem Shows.keeps (hs : s.Shows c L) (hnd : L.ids.Nodup) (hs' : s'.Shows c L')
    (hnd' : L'.ids.Nodup) (hids : id ∈ L'.ids → id ∈ L.ids)
    (hkept : ∀ {k o}, id ∈ L'.ids → L.owner? k = some (id, o) → L'.owner? k = some (id, o)) :
    Keeps id s s' := by
  constructor
  · rw [hs.isOpen_iff, hs'.isOpen_iff]
    exact hids
  · intro hopen slot o hget
    rw [hs'.isOpen_iff] at hopen
    rw [hs.get hnd, Levels.get_eq_ok_iff hs.stores.valid hs.fits hnd] at hget
    rw [hs'.get hnd', Levels.get_eq_ok_iff hs'.stores.valid hs'.fits hnd']
    obtain ⟨k, hk, ho⟩ := hget
    exact ⟨k, hk, hkept hopen ho⟩

/-! ### Where scopes were opened -/

variable {Place : Type} {homes : List Place} {place : Place}

/-- A stack whose open scopes are different ones, opened at its place; `homes` tells of each
scope that was ever opened where that was. -/
def Housed (homes : List Place) (place : Place) (s : ScopeStack) : Prop :=
  ∃ c L, s.Shows c L ∧ L.ids.Nodup ∧ ∀ id ∈ L.ids, ∃ k, homes[k]? = some place ∧ id = .nth k

theorem housed_of_ofConfig? (h : ofConfig? c = .ok s) (homes : List Place) (place : Place) :
    s.Housed homes place := ⟨c, [], shows_of_ofConfig? h, .nil, nofun⟩

namespace Housed

/-- A scope that is open was opened here. -/
theorem exists_home (hs : s.Housed homes place) (h : s.isOpen id = true) :
    ∃ k, homes[k]? = some place ∧ id = .nth k := by
  obtain ⟨c, L, hshow, -, hids⟩ := hs
  exact hids id ((hshow.isOpen_iff id).1 h)

theorem get_of_not_isOpen (hs : s.Housed homes place) (h : s.isOpen id = false)
    (slot : SlotAddr) : s.get id slot = .error (.staleLocal id) := by
  obtain ⟨c, L, hshow, hnd, -⟩ := hs
  exact hshow.get_of_not_isOpen hnd h slot

theorem isOpen_of_get (hs : s.Housed homes place) (h : s.get id slot = .ok o) :
    s.isOpen id = true := by
  obtain ⟨c, L, hshow, hnd, -⟩ := hs
  exact hshow.isOpen_of_get hnd h

/-- Scopes that are opened elsewhere change nothing here. -/
theorem append (hs : s.Housed homes place) (more : List Place) :
    s.Housed (homes ++ more) place := by
  obtain ⟨c, L, hshow, hnd, hids⟩ := hs
  refine ⟨c, L, hshow, hnd, fun id hid => ?_⟩
  obtain ⟨k, hk, rfl⟩ := hids id hid
  exact ⟨k, by rw [List.getElem?_append_left (List.getElem?_eq_some_iff.1 hk).1, hk], rfl⟩

theorem reaches (hs : s.Housed homes place) (h : s.Reaches s') : s'.Housed homes place := by
  obtain ⟨c, L, hshow, hnd, hids⟩ := hs
  obtain ⟨L', hshow', hL'⟩ := h.narrows hshow hnd
  exact ⟨c, L', hshow', hnd.sublist hL'.ids, fun id hid => hids id (hL'.ids.subset hid)⟩

/-- **Calls that open no scope** keep the locals of every scope that stays open. -/
theorem keeps (hs : s.Housed homes place) (h : s.Reaches s') (id : ScopeId) : Keeps id s s' := by
  obtain ⟨c, L, hshow, hnd, -⟩ := hs
  obtain ⟨L', hshow', hL'⟩ := h.narrows hshow hnd
  exact hshow.keeps hnd hshow' (hnd.sublist hL'.ids) (fun hid => hL'.ids.subset hid)
    fun hid => hL'.kept hid

variable (hs : s.Housed homes place) (hn : homes.length < 2 ^ 64)
include hs hn

/-- The next scope has an id of its own, while the supply lasts. -/
theorem isOpen_next : s.isOpen (.nth homes.length) = false := by
  rw [Bool.eq_false_iff]
  intro h
  obtain ⟨k, hk, he⟩ := hs.exists_home h
  have hlt := (List.getElem?_eq_some_iff.1 hk).1
  have := ScopeId.nth_inj hn (by omega) he
  omega

theorem enter : (s.enter (.nth homes.length)).Housed (homes ++ [place]) place := by
  have hnew := hs.isOpen_next hn
  obtain ⟨c, L, hshow, hnd, hids⟩ := hs.append [place]
  refine ⟨c, _, hshow.enter _, hshow.nodup_enter hnd hnew, fun id hid => ?_⟩
  rcases List.mem_cons.1 hid with rfl | hid
  · exact ⟨_, List.getElem?_concat_length, rfl⟩
  · exact hids id hid

/-- **Opening a scope** keeps the locals of every scope that is open. -/
theorem keeps_enter (hid : id ≠ .nth homes.length) :
    Keeps id s (s.enter (.nth homes.length)) := by
  have hnew := hs.isOpen_next hn
  obtain ⟨c, L, hshow, hnd, -⟩ := hs
  refine hshow.keeps hnd (hshow.enter _) (hshow.nodup_enter hnd hnew) (fun hmem => ?_)
    fun _ => Levels.owner?_enter _
  exact (List.mem_cons.1 hmem).resolve_left hid

end Housed

/-- What was just added is what the new local denotes. -/
theorem Housed.get_add (hs : s.Housed homes place) {heap : Heap} {r : LocalAdded}
    (hr : (s.add o heap).1 = .ok r) :
    (s.add o heap).2.1.get r.scope r.added.slot = .ok o := by
  obtain ⟨c, L, hshow, hnd, -⟩ := hs
  obtain ⟨hreply, hshow', -⟩ := hshow.add o heap
  rw [hreply] at hr
  rcases L with _ | ⟨l, below⟩
  · cases hr
  rw [Levels.add] at hr hshow'
  split at hr
  · next hlt =>
    rw [if_pos hlt] at hshow'
    cases hr
    have hnd' : (Levels.ids (⟨l.id, l.objects ++ [o]⟩ :: below)).Nodup := hnd
    rw [hshow'.get hnd', Levels.get_eq_ok_iff hshow'.stores.valid hshow'.fits hnd']
    refine ⟨_, rfl, ?_⟩
    rw [Levels.objects_cons, List.length_append, Levels.owner?, if_neg (by omega),
      Nat.add_sub_cancel_left, List.getElem?_concat_length, Option.map_some]
  · cases hr

/-! ### The end of a scope -/

/-- A scope that was closed is not open. -/
theorem Housed.isOpen_leave (hs : s.Housed homes place) {heap : Heap} {r : Nat × RootTransition}
    (hr : (s.leave id heap).1 = .ok r) : (s.leave id heap).2.1.isOpen id = false := by
  obtain ⟨c, L, hshow, hnd, -⟩ := hs
  obtain ⟨hreply, hshow', -⟩ := hshow.leave id heap
  rw [hreply] at hr
  rw [Bool.eq_false_iff, Ne, hshow'.isOpen_iff]
  rcases L with _ | ⟨l, below⟩
  · cases hr
  · rw [Levels.leave] at hr ⊢
    by_cases he : l.id = id
    · subst he
      rw [if_pos rfl]
      exact (List.nodup_cons.1 hnd).1
    · rw [if_neg he] at hr
      cases hr

/-- A scope from which a local escaped is not open. -/
theorem Housed.isOpen_escape (hs : s.Housed homes place) {heap : Heap} {e : Escaped}
    (he : (s.escape id slot heap).1 = .ok e) :
    (s.escape id slot heap).2.1.isOpen id = false := by
  obtain ⟨c, L, hshow, hnd, -⟩ := hs
  obtain ⟨hreply, hshow', -⟩ := hshow.escape hnd id slot heap
  rw [hreply] at he
  obtain ⟨l, parent, rest, j, rfl, rfl, -, -, -, hL'⟩ := Levels.escape_ok he
  rw [hL'] at hshow'
  rw [Bool.eq_false_iff, Ne, hshow'.isOpen_iff]
  exact (List.nodup_cons.1 hnd).1

end ScopeStack
end EngineHandles
