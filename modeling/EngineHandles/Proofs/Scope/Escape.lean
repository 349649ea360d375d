/-
# What an escape moves

An escape that succeeds moves the object that the slot denotes in the scope that is
closed, and the new slot denotes the same object in the parent; under the id of any other
scope the slot was stale (`ScopeStack.Shows.escape_ok`).

That rests on the ids of the open scopes being distinct.  They are drawn from a supply of
`2 ^ 64` ids in order, and none is given twice while the supply lasts (`ScopeId.nth_inj`).
-/

import EngineHandles.Proofs.Scope.Holdings

namespace EngineHandles

/-! ### The supply of scope ids -/

/-- The id of the scope that is opened after `n` others. -/
def ScopeId.nth (n : Nat) : ScopeId := ⟨.ofNat (n + 1)⟩

theorem ScopeId.next_nth (n : Nat) : (nth n).next = nth (n + 1) := by
  rw [nth, next, nth, UInt64.ofNat_add (n + 1) 1]
  rfl

/-- The next id is a new one. -/
theorem ScopeId.nth_succ_ne (n : Nat) : nth (n + 1) ≠ nth n := by
  intro h
  have hraw := congrArg (fun s => s.raw.toNat) h
  simp only [nth, UInt64.toNat_ofNat'] at hraw
  omega

/-- **As long as the supply lasts, no id is given twice.** -/
theorem ScopeId.nth_inj {m n : Nat} (hm : m < 2 ^ 64) (hn : n < 2 ^ 64) (h : nth m = nth n) :
    m = n := by
  have hraw := congrArg (fun s => s.raw.toNat) h
  simp only [nth, UInt64.toNat_ofNat'] at hraw
  omega

namespace Levels

variable {c : ArenaConfig} {L : Levels} {id : ScopeId} {slot : SlotAddr} {h : Heap}

/-- What an escape that succeeds does to the lists. -/
theorem escape_ok {e : Escaped} (he : (L.escape c id slot h).1 = .ok e) :
    ∃ l parent rest j, L = l :: parent :: rest ∧ l.id = id ∧
      index? c l (parent :: rest) slot = some j ∧ e.parent = parent.id ∧
      e.added.slot = c.slotAt (objects (parent :: rest)).length ∧
      (L.escape c id slot h).2.1
        = ⟨parent.id, parent.objects ++ l.objects[j]?.toList⟩ :: rest := by
  rw [escape.eq_def] at he ⊢
  rcases L with _ | ⟨l, below⟩
  · cases he
  dsimp only at he ⊢
  by_cases hid : l.id = id
  · rw [if_neg (not_not_intro hid)] at he ⊢
    rcases below with _ | ⟨parent, rest⟩
    · cases he
    dsimp only at he ⊢
    cases hidx : index? c l (parent :: rest) slot with
    | none =>
      rw [hidx] at he
      cases he
    | some j =>
      rw [hidx] at he
      cases he
      exact ⟨l, parent, rest, j, rfl, hid, hidx, rfl, rfl, rfl⟩
  · rw [if_pos hid] at he
    cases he

end Levels

namespace ScopeStack

variable {s : ScopeStack} {c : ArenaConfig} {L : Levels} {id : ScopeId} {slot : SlotAddr}

theorem get_eq_error {e : UsageError} (h : s.get id slot = .error e) : e = .staleLocal id := by
  unfold get at h
  split at h
  · split at h
    · cases h
    · cases h
      rfl
  · cases h
    rfl

/-- **What an escape moves:** the object that the slot denotes in the scope that is closed.
Under any other id the slot is stale. -/
theorem Shows.escape_ok (hs : s.Shows c L) (hnd : L.ids.Nodup) {heap : Heap} {e : Escaped}
    (he : (s.escape id slot heap).1 = .ok e) :
    ∃ o, s.get id slot = .ok o ∧ (s.escape id slot heap).2.1.get e.parent e.added.slot = .ok o ∧
      ∀ id', id' ≠ id → s.get id' slot = .error (.staleLocal id') := by
  obtain ⟨hr, hs', -⟩ := hs.escape hnd id slot heap
  rw [hr] at he
  obtain ⟨l, parent, rest, j, rfl, rfl, hidx, hparent, hslot, hL'⟩ := Levels.escape_ok he
  obtain ⟨hj, hat⟩ := (Levels.index?_eq_some_iff hs.stores.valid hs.fits).1 hidx
  rw [hL', List.getElem?_eq_getElem hj, Option.toList_some] at hs'
  have hget : s.get l.id slot = .ok l.objects[j] := by
    rw [hs.get hnd, Levels.get, if_pos rfl, hidx, Option.bind_some, List.getElem?_eq_getElem hj]
  refine ⟨l.objects[j], hget, ?_, ?_⟩
  · have hnd' : (Levels.ids (⟨parent.id, parent.objects ++ [l.objects[j]]⟩ :: rest)).Nodup :=
      (List.nodup_cons.1 hnd).2
    have hidx' : Levels.index? c ⟨parent.id, parent.objects ++ [l.objects[j]]⟩ rest
        e.added.slot = some parent.objects.length := by
      refine (Levels.index?_eq_some_iff hs'.stores.valid hs'.fits).2 ⟨?_, ?_⟩
      · simp
      · rw [hslot, Levels.objects_cons, List.length_append]
    rw [hs'.get hnd', hparent, Levels.get, if_pos rfl, hidx']
    simp
  · intro id' hid
    obtain ⟨-, x, hx, -⟩ := get_eq_ok_iff.1 hget
    obtain ⟨k, id₀, o₀, -, -, -, honly⟩ := hs.get_iff hnd hx
    obtain ⟨rfl, -⟩ := (honly l.id l.objects[j]).1 hget
    cases hother : s.get id' slot with
    | ok o' => exact absurd ((honly id' o').1 hother).1 hid
    | error e' => rw [get_eq_error hother]

end ScopeStack
end EngineHandles
