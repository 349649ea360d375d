/-
# What calls on a scope stack come to

Whatever ids its scopes were opened under, a call on a scope stack either fails and leaves the
stack and the heap as they were, or succeeds, and then what becomes of the number of slots is
known (`ScopeStack.IsFramed.leave_cases`, `ScopeStack.IsFramed.add_cases`).

An escape has a third outcome in principle: it empties a slot and cuts the innermost scope away
before it stores the reference again, and the arena might then be full.  Even so some slot is
left (`ScopeStack.IsFramed.escape_cases`); and if the ids of the open scopes are distinct, the
slot lies in the scope that is cut away, so there is room (`ScopeStack.Shows.escape_error`).
-/

import EngineHandles.Proofs.Scope.Lasting

namespace EngineHandles

/-- A valid configuration has room for a slot. -/
theorem ArenaConfig.IsValid.capacity_pos {c : ArenaConfig} (hc : c.IsValid) : 0 < c.capacity := by
  obtain ⟨-, -, hmax, -⟩ := (ArenaConfig.isValid_iff c).1 hc
  refine Nat.mul_pos hc.width_pos (Nat.pos_of_ne_zero fun h => hmax ?_)
  exact UInt32.toNat.inj h

/-- An arena that refuses a slot is full, and stays as it is. -/
theorem Arena.Stores.append_error {a a' : Arena} {c : ArenaConfig} {xs : List Slot}
    (hs : a.Stores c xs) {x : Slot} {e : ArenaError} (h : a.append x = (.error e, a')) :
    a' = a ∧ 0 < a.size := by
  rcases Nat.lt_or_ge xs.length c.capacity with hlt | hge
  · obtain ⟨_, happ, -⟩ := hs.append_ok x hlt
    rw [happ] at h
    cases h
  · rw [hs.append_full x (Nat.le_antisymm hs.fits hge)] at h
    cases h
    rw [hs.size_eq]
    exact ⟨rfl, Nat.lt_of_lt_of_le hs.valid.capacity_pos hge⟩

/-- Two numbers of slots, neither of them zero. -/
theorem RootTransition.between_of_pos {m n : Nat} (hm : 0 < m) (hn : 0 < n) :
    RootTransition.between m n = .unchanged := by
  rw [between, if_neg fun h => absurd h.1 (by omega), if_neg fun h => absurd h.2 (by omega)]

/-- An escape from lists that fails changes nothing. -/
theorem Levels.escape_error {L : Levels} {c : ArenaConfig} {id : ScopeId} {slot : SlotAddr}
    {h : Heap} {e : HandleError} (he : (L.escape c id slot h).1 = .error e) :
    (L.escape c id slot h).2 = (L, h) := by
  rw [escape.eq_def] at he ⊢
  rcases L with _ | ⟨l, below⟩
  · rfl
  dsimp only at he ⊢
  by_cases hid : l.id = id
  · rw [if_neg (not_not_intro hid)] at he ⊢
    rcases below with _ | ⟨parent, rest⟩
    · rfl
    dsimp only at he ⊢
    cases hidx : index? c l (parent :: rest) slot with
    | none => rfl
    | some j =>
      rw [hidx] at he
      cases he
  · rw [if_pos hid]

namespace ScopeStack

variable {s : ScopeStack} {c : ArenaConfig} {xs : List Slot} {ps : List Nat} {L : Levels}

theorem Framed.size_eq (hs : s.Framed c xs ps) : s.size = xs.length := hs.stores.size_eq

namespace IsFramed

variable (hs : s.IsFramed)
include hs

/-- Without a scope there is no slot. -/
theorem size_of_frames_eq_nil (hf : s.frames = []) : s.size = 0 := by
  obtain ⟨c, xs, ps, hs⟩ := hs
  have hps : ps = [] := by
    have := hs.frontiers
    rw [hf] at this
    exact List.map_eq_nil_iff.1 this.symm
  have hbottom := hs.bottom
  rw [hps, List.getLastD_nil] at hbottom
  rw [hs.size_eq, hbottom]

theorem enter (id : ScopeId) : (s.enter id).IsFramed := by
  obtain ⟨c, xs, ps, hs⟩ := hs
  exact (hs.enter id).isFramed

/-- Closing a scope fails and changes nothing, or closes the innermost one. -/
theorem leave_cases (id : ScopeId) (h : Heap) :
    (∃ e, s.leave id h = (.error e, s, h)) ∨
      ∃ n s' h', s.leave id h = (.ok (n, .between s.size s'.size), s', h') ∧ s'.IsFramed ∧
        s'.frames = s.frames.tail := by
  obtain ⟨c, xs, ps, hs⟩ := hs
  unfold leave
  split
  · exact .inl ⟨_, rfl⟩
  · obtain ⟨⟨n, hn⟩, hs', hframes, -⟩ := hs.popFrame h
    generalize s.popFrame h = r at hn hs' hframes
    obtain ⟨r, s', h'⟩ := r
    obtain rfl : r = .ok n := hn
    exact .inr ⟨n, s', h', rfl, hs', hframes⟩

/-- Adding a local fails and changes nothing, or there is a slot more. -/
theorem add_cases (o : ObjectId) (h : Heap) :
    (∃ e, s.add o h = (.error e, s, h)) ∨
      ∃ scope added s' h', s.add o h = (.ok ⟨scope, added, .between s.size s'.size⟩, s', h') ∧
        s'.IsFramed ∧ s'.frames = s.frames ∧ s.frames ≠ [] := by
  obtain ⟨c, xs, ps, hs⟩ := hs
  unfold add
  cases hi : s.innermost? with
  | none => exact .inl ⟨_, rfl⟩
  | some scope =>
    have hopen : s.frames ≠ [] := by
      intro hnil
      rw [innermost?, hnil] at hi
      cases hi
    dsimp only
    rw [Arena.add]
    rcases hs.stores.append (.holding o .strong) with ⟨added, a', happ, hs', -⟩ | ⟨e, happ⟩
    · rw [happ]
      have hframed := hs.concat hopen hs'
      have hsize : s.size + 1 = size ⟨a', s.frames⟩ := by
        rw [hs.size_eq, hframed.size_eq, List.length_append]
        rfl
      refine .inr ⟨scope, added, _, h.retain o .strong, ?_, hframed.isFramed, rfl, hopen⟩
      dsimp only
      rw [hsize]
    · rw [happ]
      exact .inl ⟨_, rfl⟩

/-- An escape fails and changes nothing, or closes the innermost scope and leaves the stack
with a slot, as it had one before; whether it then succeeds or fails, no transition is told. -/
theorem escape_cases (id : ScopeId) (slot : SlotAddr) (h : Heap) :
    (∃ e, s.escape id slot h = (.error e, s, h)) ∨
      ((s.escape id slot h).2.1.IsFramed ∧ 0 < s.size ∧ 0 < (s.escape id slot h).2.1.size ∧
        (s.escape id slot h).2.1.frames = s.frames.tail ∧
        ∀ e, (s.escape id slot h).1 = .ok e → e.transition = .unchanged) := by
  obtain ⟨c, xs, ps, hs⟩ := hs
  unfold escape
  split
  · exact .inl ⟨_, rfl⟩
  split
  · exact .inl ⟨_, rfl⟩
  rename_i parent hparent
  split
  · exact .inl ⟨_, rfl⟩
  cases hget : s.locals.get? slot with
  | none => exact .inl ⟨_, rfl⟩
  | some x =>
    obtain ⟨object, kind⟩ := x
    cases object with
    | none => exact .inl ⟨_, rfl⟩
    | some o =>
      have hpos : 0 < s.size := by
        obtain ⟨k, -, hk⟩ := hs.stores.exists_of_get? hget
        rw [hs.size_eq]
        exact Nat.zero_lt_of_lt (List.getElem?_eq_some_iff.1 hk).1
      obtain ⟨xs', hf', -⟩ := hs.write hget
      obtain ⟨⟨n, hn⟩, hs', hframes, -⟩ := hf'.popFrame h
      rw [Slot.emptied] at hn hs' hframes
      dsimp only [Option.map_some, Slot.take, Slot.emptied]
      generalize popFrame ⟨s.locals.write slot ⟨none, kind⟩, s.frames⟩ h = r at hn hs' hframes ⊢
      obtain ⟨r, s', h'⟩ := r
      obtain rfl : r = .ok n := hn
      obtain ⟨c', xs'', ps', hf''⟩ := hs'
      have hopen : s'.frames ≠ [] := by
        rintro hnil
        rw [hnil] at hframes
        rw [← List.getElem?_tail, ← hframes] at hparent
        cases hparent
      dsimp only
      rw [Arena.adopt]
      rcases hf''.stores.append (.holding o .strong) with ⟨added, a', happ, hs'', -⟩ | ⟨e, happ⟩
      · rw [happ]
        have hframed := hf''.concat hopen hs''
        have hsize : 0 < size ⟨a', s'.frames⟩ := by
          rw [hframed.size_eq, List.length_append]
          exact Nat.succ_pos _
        refine .inr ⟨hframed.isFramed, hpos, hsize, hframes, fun e he => ?_⟩
        cases he
        exact RootTransition.between_of_pos hpos hsize
      · rw [happ]
        exact .inr ⟨hf''.isFramed, hpos, (hf''.stores.append_error happ).2, hframes,
          fun e he => by cases he⟩

/-- **Every call** leaves a stack that is framed. -/
theorem call (call : ScopeCall) (h : Heap) : (s.call h call).2.1.IsFramed := by
  cases call with
  | enter id => exact hs.enter id
  | leave id =>
    show (s.leave id h).2.1.IsFramed
    rcases hs.leave_cases id h with ⟨e, he⟩ | ⟨n, s', h', he, hs', -⟩ <;> rw [he]
    · exact hs
    · exact hs'
  | add o =>
    show (s.add o h).2.1.IsFramed
    rcases hs.add_cases o h with ⟨e, he⟩ | ⟨scope, added, s', h', he, hs', -⟩ <;> rw [he]
    · exact hs
    · exact hs'
  | escape id slot =>
    show (s.escape id slot h).2.1.IsFramed
    rcases hs.escape_cases id slot h with ⟨e, he⟩ | ⟨hs', -⟩
    · rw [he]
      exact hs
    · exact hs'
  | get id slot => exact hs
  | references => exact hs

theorem reaches {s' : ScopeStack} (h : s.Reaches s') : s'.IsFramed := by
  induction h with
  | refl => exact hs
  | call _ _ heap ih => exact ih.call _ heap

end IsFramed

/-- **An escape that fails changes nothing,** if the ids of the open scopes are distinct. -/
theorem Shows.escape_error (hs : s.Shows c L) (hnd : L.ids.Nodup) {id : ScopeId} {slot : SlotAddr}
    {h : Heap} {e : HandleError} (he : (s.escape id slot h).1 = .error e) :
    s.escape id slot h = (.error e, s, h) := by
  obtain ⟨hreply, hshow, hheap⟩ := hs.escape hnd id slot h
  rw [he] at hreply
  have hsame := Levels.escape_error hreply.symm
  rw [hsame] at hshow hheap
  refine Prod.ext he (Prod.ext ?_ hheap)
  exact hshow.unique hs

end ScopeStack
end EngineHandles
