/-
# What a scope stack refuses

An escape empties a slot, cuts the innermost scope away and stores the reference again.  Each
of these steps has an error of its own, an emptied slot, an address that is not stored or a full
arena, and after two of them the reference would be lost.  None of them is ever told
(`HandleError.isInternal`): between calls no slot is empty, each frontier to which the stack
cuts back is one of its own, and the slot that moves leaves a place behind, even if its scope
was opened at the end of the last slab there may be.

What is told is a mistake of the caller, found before anything is changed (`closeFault?`,
`escapeFault?`).  Without one, closing a scope releases its references and keeps the others
(`Shows.leave_done`), and an escape does so too, but for the reference at its slot, which is
then the last one of the parent (`Shows.escape_done`).

The slots of a scope are told by the frame of its id, so the ids of scopes must be distinct, as
their supply takes care.
-/

import EngineHandles.Proofs.Scope.Outcomes

namespace EngineHandles

/-- Errors that would tell of a fault in the storage of locals. -/
def HandleError.isInternal : HandleError → Bool
  | .usage (.doubleEscape _) | .usage (.invalidAddress _) | .resourceExhausted _ _ => true
  | _ => false

/-- Values numbered from `n`, without the one that has a number. -/
theorem map_fst_filter_zipIdx {α : Type} (xs : List α) (n j : Nat) :
    ((xs.zipIdx n).filter fun p => p.2 != n + j).map Prod.fst = xs.eraseIdx j := by
  induction xs generalizing n j with
  | nil => rfl
  | cons x xs ih =>
    rw [List.zipIdx_cons]
    cases j with
    | zero =>
      -- all numbers behind are greater
      have hlater : ∀ p ∈ xs.zipIdx (n + 1), (p.2 != n + 0) = true := fun p hp => by
        have := List.le_snd_of_mem_zipIdx hp
        rw [bne_iff_ne]
        omega
      rw [List.filter_cons_of_neg (by simp), List.filter_eq_self.2 hlater, List.zipIdx_map_fst]
      rfl
    | succ j =>
      rw [List.filter_cons_of_pos (by simp), List.map_cons, List.eraseIdx_cons_succ,
        ← ih (n + 1) j, Nat.add_right_comm, Nat.add_assoc]

namespace ScopeStack

/-- The references of a scope, with their addresses. -/
def referencesOf (s : ScopeStack) (id : ScopeId) : List (SlotAddr × ObjectId) :=
  s.references.filter fun r => s.owns id r.1

/-- The references of the other scopes. -/
def referencesBeside (s : ScopeStack) (id : ScopeId) : List (SlotAddr × ObjectId) :=
  s.references.filter fun r => !s.owns id r.1

/-- The caller's mistake for which an escape is refused, if there is one. -/
def escapeFault? (s : ScopeStack) (id : ScopeId) (slot : SlotAddr) : Option UsageError :=
  match s.closeFault? id with
  | some cause => some cause
  | none =>
    if s.depth < 2 then some (.escapeWithoutParent id)
    else if s.owns id slot then none
    else some (.slotOutsideScope slot id)

variable {s : ScopeStack} {c : ArenaConfig} {L : Levels} {l parent : Level} {below : Levels}
  {id : ScopeId} {slot : SlotAddr} {cause : UsageError}

/-! ### Mistakes -/

theorem isInternal_closeFault? (h : s.closeFault? id = some cause) :
    (HandleError.usage cause).isInternal = false := by
  unfold closeFault? at h
  split at h
  · cases h
    rfl
  · split at h
    · cases h
    · split at h <;>
      · cases h
        rfl

theorem isInternal_escapeFault? (h : s.escapeFault? id slot = some cause) :
    (HandleError.usage cause).isInternal = false := by
  unfold escapeFault? at h
  split at h
  · next hclose =>
    cases h
    exact isInternal_closeFault? hclose
  · split at h
    · cases h
      rfl
    · split at h
      · cases h
      · cases h
        rfl

/-- **A mistake is found** before anything is changed. -/
theorem escape_refused (h : s.escapeFault? id slot = some cause) (heap : Heap) :
    s.escape id slot heap = (.error (.usage cause), s, heap) := by
  unfold escapeFault? at h
  unfold escape
  cases hclose : s.closeFault? id with
  | some cause' =>
    rw [hclose] at h
    cases h
    rfl
  | none =>
    rw [hclose] at h
    dsimp only at h ⊢
    split at h
    · next hdepth =>
      cases h
      rw [List.getElem?_eq_none (Nat.le_of_lt_succ hdepth)]
    · next hdepth =>
      split at h
      · cases h
      · next howns =>
        cases h
        rw [depth, Nat.not_lt] at hdepth
        rw [List.getElem?_eq_getElem hdepth, Bool.eq_false_iff.2 howns]
        rfl

/-! ### What a scope holds -/

namespace Shows

/-- The references of the top scope are those of its list, the others those of the lists
below. -/
theorem references_split (h : s.Shows c (l :: below)) (hid : l.id ∉ Levels.ids below) :
    s.referencesOf l.id
        = (l.objects.zipIdx (Levels.objects below).length).map (fun (o, k) => (c.slotAt k, o)) ∧
      s.referencesBeside l.id = Levels.references c below := by
  have hv := h.stores.valid
  have hfits := h.fits
  rw [Levels.objects_cons, List.length_append] at hfits
  have hall : s.references = Levels.references c below
      ++ (l.objects.zipIdx (Levels.objects below).length).map fun (o, k) => (c.slotAt k, o) := by
    rw [h.references, Levels.references, Levels.objects_cons, List.zipIdx_append,
      List.map_append, Nat.zero_add]
    rfl
  have htop : s.Shows c ([] ++ l :: below) := h
  have howns := htop.owns_iff hid
  have hbelow : ∀ r ∈ Levels.references c below, s.owns l.id r.1 = false := by
    intro r hr
    obtain ⟨⟨o, k⟩, hk, rfl⟩ := List.mem_map.1 hr
    have hlt := List.snd_lt_of_mem_zipIdx hk
    rw [Bool.eq_false_iff, Ne, howns]
    rintro ⟨j, hj, he⟩
    have := hv.slotAt_inj (by omega) (by omega) he
    omega
  have hown : ∀ r ∈ (l.objects.zipIdx (Levels.objects below).length).map
      (fun (o, k) => (c.slotAt k, o)), s.owns l.id r.1 = true := by
    intro r hr
    obtain ⟨⟨o, k⟩, hk, rfl⟩ := List.mem_map.1 hr
    have hle := List.le_snd_of_mem_zipIdx hk
    have hlt := List.snd_lt_add_of_mem_zipIdx hk
    rw [howns]
    exact ⟨k - (Levels.objects below).length, by omega, by rw [Nat.add_sub_cancel' hle]⟩
  rw [referencesOf, referencesBeside, hall, List.filter_append, List.filter_append]
  constructor
  · rw [List.filter_eq_nil_iff.2 fun r hr => by rw [hbelow r hr]; exact Bool.false_ne_true,
      List.filter_eq_self.2 hown, List.nil_append]
  · rw [List.filter_eq_self.2 fun r hr => by rw [hbelow r hr]; rfl,
      List.filter_eq_nil_iff.2 fun r hr => by rw [hown r hr]; exact Bool.false_ne_true,
      List.append_nil]

/-- **Closing a scope** releases its references and keeps the others. -/
theorem leave_done (h : s.Shows c L) (hnd : L.ids.Nodup) (hclose : s.closeFault? id = none)
    (heap : Heap) :
    ∃ t s', s.leave id heap = (.ok ((s.referencesOf id).length, t), s',
        heap.releaseAll ((s.referencesOf id).map Prod.snd)) ∧
      s'.references = s.referencesBeside id := by
  obtain ⟨hreply, hshow, hheap⟩ := h.leave id heap
  cases L with
  | nil =>
    rw [h.closeFault?_nil] at hclose
    cases hclose
  | cons l below =>
    rw [h.closeFault?_cons] at hclose
    rcases Decidable.em (l.id = id) with rfl | he
    · obtain ⟨hof, hbeside⟩ := h.references_split (List.nodup_cons.1 hnd).1
      rw [Levels.leave, if_pos rfl] at hreply hshow hheap
      obtain ⟨t, ht⟩ : ∃ t, (s.leave l.id heap).1 = .ok (l.objects.length, t) := ⟨_, hreply⟩
      refine ⟨t, (s.leave l.id heap).2.1, ?_, hshow.references.trans hbeside.symm⟩
      rw [hof, List.length_map, List.length_zipIdx, List.map_map]
      exact Prod.ext ht (Prod.ext rfl (hheap.trans
        (congrArg heap.releaseAll (List.zipIdx_map_fst _ _).symm)))
    · rw [if_neg he] at hclose
      cases hclose

/-- **An escape** keeps the reference at its slot as the last one of the parent, releases the
others of its scope and leaves those of the other scopes where they are. -/
theorem escape_done (h : s.Shows c L) (hnd : L.ids.Nodup)
    (hfault : s.escapeFault? id slot = none) (heap : Heap) :
    ∃ o e s', s.get id slot = .ok o ∧
      s.escape id slot heap = (.ok e, s',
        heap.releaseAll (((s.referencesOf id).filter fun r => r.1 != slot).map Prod.snd)) ∧
      s'.references = s.referencesBeside id ++ [(e.added.slot, o)] ∧
      s'.get e.parent e.added.slot = .ok o := by
  obtain ⟨hreply, hshow, hheap⟩ := h.escape hnd id slot heap
  unfold escapeFault? at hfault
  cases hclose : s.closeFault? id with
  | some cause =>
    rw [hclose] at hfault
    cases hfault
  | none =>
    rw [hclose] at hfault
    dsimp only at hfault
    split at hfault
    · cases hfault
    rename_i hdepth
    split at hfault
    swap
    · cases hfault
    rename_i howns
    -- the lists are those of the scope, of its parent, and of others
    obtain ⟨l, parent, rest, rfl⟩ : ∃ l parent rest, L = l :: parent :: rest := by
      rw [depth, h.frames_eq] at hdepth
      rcases L with _ | ⟨l, _ | ⟨parent, rest⟩⟩
      · exact absurd (Nat.succ_pos 1) hdepth
      · exact absurd (Nat.lt_succ_self 1) hdepth
      · exact ⟨l, parent, rest, rfl⟩
    rw [h.closeFault?_cons] at hclose
    obtain rfl : l.id = id := by
      by_contra he
      rw [if_neg he] at hclose
      cases hclose
    have hid := (List.nodup_cons.1 hnd).1
    have htop : s.Shows c ([] ++ l :: parent :: rest) := h
    obtain ⟨j, hj, hslot⟩ := (htop.owns_iff hid slot).1 howns
    have hidx := (Levels.index?_eq_some_iff h.stores.valid h.fits).2 ⟨hj, hslot⟩
    rw [Levels.escape.eq_def] at hreply hshow hheap
    dsimp only at hreply hshow hheap
    rw [if_neg (not_not_intro rfl), hidx] at hreply hshow hheap
    dsimp only at hreply hshow hheap
    rw [List.getElem?_eq_getElem hj, Option.toList_some] at hshow
    obtain ⟨hof, hbeside⟩ := h.references_split hid
    obtain ⟨o, hget, hget', -⟩ := h.escape_ok hnd hreply
    have hobject : s.get l.id slot = .ok l.objects[j] := by
      rw [h.get hnd, Levels.get, if_pos rfl, hidx, Option.bind_some, List.getElem?_eq_getElem hj]
    obtain rfl : l.objects[j] = o := Except.ok.inj (hobject.symm.trans hget)
    refine ⟨_, _, (s.escape l.id slot heap).2.1, hget, Prod.ext hreply (Prod.ext rfl ?_), ?_, hget'⟩
    · -- of the scope's references all but the one at the slot are released
      have hfits := h.fits
      rw [Levels.objects_cons, List.length_append] at hfits
      rw [hheap, hof, List.filter_map, List.map_map]
      refine congrArg heap.releaseAll ?_
      rw [← map_fst_filter_zipIdx l.objects (Levels.objects (parent :: rest)).length j]
      refine congrArg _ (List.filter_congr fun p hp => ?_)
      obtain ⟨o, k⟩ := p
      have hlt : k < _ := List.snd_lt_add_of_mem_zipIdx hp
      rw [Function.comp, ← hslot, Bool.eq_iff_iff, bne_iff_ne, bne_iff_ne, Ne, Ne, not_iff_not]
      exact ⟨fun he => congrArg c.slotAt he,
        fun he => h.stores.valid.slotAt_inj (by omega) (by omega) he⟩
    · rw [hshow.references, hbeside, Levels.references, Levels.references, Levels.objects_cons,
        ← List.append_assoc, ← Levels.objects_cons parent rest, List.zipIdx_append,
        List.map_append, Nat.zero_add]
      rfl

end Shows

/-- What calls come to if the storage of locals is in order. -/
structure Intact (s : ScopeStack) : Prop where
  /-- No slot is empty. -/
  full : ∀ addr x, s.locals.get? addr = some x → x.isEmpty = false
  size_eq : s.size = s.references.length
  leave_done : ∀ id h, s.closeFault? id = none → ∃ t s',
    s.leave id h = (.ok ((s.referencesOf id).length, t), s',
      h.releaseAll ((s.referencesOf id).map Prod.snd)) ∧
    s'.references = s.referencesBeside id
  escape_done : ∀ id slot h, s.escapeFault? id slot = none → ∃ o e s',
    s.get id slot = .ok o ∧
    s.escape id slot h = (.ok e, s',
      h.releaseAll (((s.referencesOf id).filter fun r => r.1 != slot).map Prod.snd)) ∧
    s'.references = s.referencesBeside id ++ [(e.added.slot, o)] ∧
    s'.get e.parent e.added.slot = .ok o
  /-- An error is that of a mistake, and then nothing has changed. -/
  leave_refused : ∀ id h e, (s.leave id h).1 = .error e →
    (∃ cause, s.closeFault? id = some cause ∧ e = .usage cause) ∧ (s.leave id h).2 = (s, h) ∧
    e.isInternal = false
  escape_refused : ∀ id slot h e, (s.escape id slot h).1 = .error e →
    (∃ cause, s.escapeFault? id slot = some cause ∧ e = .usage cause) ∧
    (s.escape id slot h).2 = (s, h) ∧ e.isInternal = false

/-- **No internal error surfaces.**  After every run that opens each scope under an id of its
own, whatever scopes and addresses the calls named: no slot of a local is empty, so there are
as many slots as references that a visit sees; and closing a scope or escaping from it, under
whatever id and address, either succeeds, also in an arena that is full, or is refused for a
mistake of the caller and changes nothing.  The reference that an escape moves is then the last
one of the parent, neither counted anew nor released. -/
theorem run_intact (hs : ofConfig? c = .ok s) (heap : Heap) (calls : List ScopeCall)
    (hids : (ScopeCall.opened calls).Nodup) : (s.run heap calls).2.1.Intact := by
  have hnil : (ScopeCall.opened calls ++ Levels.ids []).Nodup := by
    rwa [Levels.ids_nil, List.append_nil]
  have h := ((shows_of_ofConfig? hs).run calls heap hnil).2.1
  have hnd := Levels.nodup_run c [] heap calls [] (by rwa [List.append_nil])
  rw [ScopeCall.opened, List.filterMap_nil, List.nil_append] at hnd
  generalize (s.run heap calls).2.1 = s at h
  refine ⟨fun addr x hx => ?_, ?_, fun id heap hclose => h.leave_done hnd hclose heap,
    fun id slot heap hfault => h.escape_done hnd hfault heap,
    fun id heap e he => ?_, fun id slot heap e he => ?_⟩
  · obtain ⟨_, _, o, -, rfl, -⟩ := h.get_iff hnd hx
    rfl
  · rw [h.size_eq, ← h.map_snd_references, List.length_map]
  · cases hclose : s.closeFault? id with
    | none =>
      obtain ⟨t, s', hleave, -⟩ := h.leave_done hnd hclose heap
      rw [hleave] at he
      cases he
    | some cause =>
      rw [leave, hclose] at he ⊢
      cases he
      exact ⟨⟨cause, rfl, rfl⟩, rfl, isInternal_closeFault? hclose⟩
  · cases hfault : s.escapeFault? id slot with
    | none =>
      obtain ⟨o, e', s', -, hescape, -⟩ := h.escape_done hnd hfault heap
      rw [hescape] at he
      cases he
    | some cause =>
      rw [escape_refused hfault] at he ⊢
      cases he
      exact ⟨⟨cause, rfl, rfl⟩, rfl, isInternal_escapeFault? hfault⟩

/-- Two slabs of two slots are full, and the inner scope was opened at the edge between them. -/
theorem run_intact_full :
    let calls : List ScopeCall := [.enter ⟨1⟩, .add ⟨0⟩, .add ⟨1⟩, .enter ⟨2⟩, .add ⟨2⟩, .add ⟨3⟩]
    let s₀ : ScopeStack := ⟨⟨⟨2, 2⟩, #[]⟩, []⟩
    let s := (s₀.run {} calls).2.1
    ofConfig? ⟨2, 2⟩ = .ok s₀ ∧ (ScopeCall.opened calls).Nodup ∧ s.size = 4 ∧
      ∃ e s', s.escape ⟨2⟩ (.ofCounts 1 1) {} = (.ok e, s', Heap.releaseAll {} [⟨2⟩]) ∧
        s'.references.map Prod.snd = [⟨0⟩, ⟨1⟩, ⟨3⟩] := by
  intro calls s₀ s
  have hs : ofConfig? ⟨2, 2⟩ = .ok s₀ := rfl
  have hids : (ScopeCall.opened calls).Nodup := by decide
  have hfault : s.escapeFault? ⟨2⟩ (.ofCounts 1 1) = none := by decide
  have hget : s.get ⟨2⟩ (.ofCounts 1 1) = .ok ⟨3⟩ := by decide
  have hbeside : (s.referencesBeside ⟨2⟩).map Prod.snd = [⟨0⟩, ⟨1⟩] := by decide
  have hleft : ((s.referencesOf ⟨2⟩).filter fun r => r.1 != .ofCounts 1 1).map Prod.snd
      = [⟨2⟩] := by decide
  obtain ⟨o, e, s', ho, hescape, hrefs, -⟩ :=
    (run_intact hs {} calls hids).escape_done _ _ {} hfault
  obtain rfl : o = ⟨3⟩ := Except.ok.inj (ho.symm.trans hget)
  rw [hleft] at hescape
  refine ⟨hs, hids, by decide, e, s', hescape, ?_⟩
  rw [hrefs, List.map_append, hbeside]
  rfl

end ScopeStack
end EngineHandles
