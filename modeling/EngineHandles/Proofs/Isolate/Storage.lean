/-
# The storage of an isolate

The scope stacks of an isolate are a list with one entry for each thread that has an open
scope.  Writing the stack of a thread exchanges its entry, or adds one, and removing it
takes the entry out; both are stated up to the order of the entries, which nothing
depends on (`Storage.exists_perm`).

What a storage holds is what its stacks and its persistent handles hold.
-/

import EngineHandles.Isolate.Basic
import EngineHandles.Proofs.Keyed
import EngineHandles.Proofs.Scope.Holdings
import EngineHandles.Proofs.Persistent.Sweep

namespace EngineHandles
namespace Storage

variable {s : Storage} {t : ThreadKey} {stack stack' : ScopeStack}

/-- The threads that have a scope stack. -/
def owners (s : Storage) : List ThreadKey := s.scopeStacks.map Prod.fst

theorem stack?_eq_none (ht : s.stack? t = none) : t ∉ s.owners :=
  Keyed.not_mem_of_find?_eq_none (Option.map_eq_none_iff.1 ht)

theorem mem_of_stack? (ht : s.stack? t = some stack) : (t, stack) ∈ s.scopeStacks := by
  obtain ⟨⟨t', stack'⟩, hfind, rfl⟩ := Option.map_eq_some_iff.1 ht
  have he := List.find?_some hfind
  obtain rfl : t' = t := eq_of_beq he
  exact List.mem_of_find?_eq_some hfind

theorem setStack_of_none (ht : s.stack? t = none) (stack' : ScopeStack) :
    (s.setStack t stack').scopeStacks = s.scopeStacks ++ [(t, stack')] := by
  have hno : ¬ (s.scopeStacks.any fun e => e.1 == t) = true := by
    rw [List.any_eq_true]
    rintro ⟨e, he, hte⟩
    exact stack?_eq_none ht (eq_of_beq hte ▸ List.mem_map_of_mem he)
  rw [setStack]
  exact if_neg hno

/-- Writing the stack of a thread exchanges its entry, and removing it takes it out. -/
theorem exists_perm (hnd : s.owners.Nodup) (ht : s.stack? t = some stack) :
    ∃ others, s.scopeStacks.Perm ((t, stack) :: others) ∧
      (∀ stack', (s.setStack t stack').scopeStacks.Perm ((t, stack') :: others)) ∧
      (s.removeStack t).scopeStacks.Perm others := by
  have hmem := mem_of_stack? ht
  obtain ⟨⟨t', old⟩, hfind, rfl⟩ := Option.map_eq_some_iff.1 ht
  obtain ⟨pre, post, hsplit, ht', hpre, hpost⟩ := Keyed.exists_split hnd hfind
  obtain rfl : t = t' := ht'.symm
  have hany : (s.scopeStacks.any fun e => e.1 == t) = true := by
    rw [List.any_eq_true]
    exact ⟨_, hmem, beq_self_eq_true _⟩
  refine ⟨pre ++ post, hsplit ▸ List.perm_middle, fun stack' => ?_, ?_⟩
  · have hset : (s.setStack t stack').scopeStacks = pre ++ (t, stack') :: post := by
      rw [setStack]
      dsimp only
      rw [if_pos hany, hsplit]
      exact Keyed.map_split Prod.fst ht' _ hpre hpost
    rw [hset]
    exact List.perm_middle
  · rcases List.eq_nil_or_concat post with rfl | ⟨post, last, rfl⟩
    · have hlast : s.scopeStacks.getLast? = some (t, old) := by
        rw [hsplit, List.getLast?_append_cons, List.getLast?_singleton]
      rw [removeStack, hlast]
      dsimp only
      rw [if_pos rfl, hsplit, List.dropLast_concat, List.append_nil]
    · rw [List.concat_eq_append] at hsplit hpost ⊢
      have hlast : s.scopeStacks.getLast? = some last := by
        rw [hsplit, ← List.cons_append, ← List.append_assoc, List.getLast?_concat]
      have hne : last.1 ≠ t := hpost last (List.mem_append_right _ List.mem_cons_self)
      rw [removeStack, hlast]
      dsimp only
      rw [if_neg hne, if_pos hany]
      dsimp only
      rw [hsplit, ← List.cons_append, ← List.append_assoc, List.dropLast_concat,
        Keyed.map_split Prod.fst ht' last hpre fun e he => hpost e (List.mem_append_left _ he)]
      exact (List.perm_append_singleton last post).symm.append_left pre

/-- Each thread keeps one stack. -/
theorem nodup_setStack (hnd : s.owners.Nodup) (t : ThreadKey) (stack : ScopeStack) :
    (s.setStack t stack).owners.Nodup := by
  cases ht : s.stack? t with
  | some old =>
    obtain ⟨others, hperm, hset, -⟩ := exists_perm hnd ht
    rw [owners, (hperm.map Prod.fst).nodup_iff] at hnd
    rw [owners, ((hset stack).map Prod.fst).nodup_iff]
    exact hnd
  | none =>
    rw [owners, setStack_of_none ht, List.map_append, List.nodup_append]
    refine ⟨hnd, List.nodup_cons.2 ⟨nofun, .nil⟩, fun x hx y hy he => ?_⟩
    obtain rfl := List.mem_singleton.1 hy
    exact stack?_eq_none ht (he ▸ hx)

/-- A thread whose stack was removed has none. -/
theorem nodup_removeStack (hnd : s.owners.Nodup) (ht : s.stack? t = some stack) :
    (s.removeStack t).owners.Nodup ∧ t ∉ (s.removeStack t).owners := by
  obtain ⟨others, hperm, -, hrem⟩ := exists_perm hnd ht
  rw [owners, (hperm.map Prod.fst).nodup_iff, List.map_cons, List.nodup_cons] at hnd
  rw [owners, (hrem.map Prod.fst).nodup_iff, (hrem.map Prod.fst).mem_iff]
  exact hnd.symm

/-! ### What a storage holds -/

/-- The references that the locals of all threads hold. -/
def localHolds (s : Storage) : Account := (s.scopeStacks.map fun e => e.2.holds).sum

/-- The references that a storage holds. -/
def holds (s : Storage) : Account := s.localHolds + s.persistents.holds

/-- A storage that has been used through its isolate. -/
structure WellFormed (s : Storage) : Prop where
  framed : ∀ e ∈ s.scopeStacks, e.2.IsFramed
  owners : s.owners.Nodup
  stored : s.persistents.IsStored

/-- The books of a heap, if others than this storage hold `A`. -/
structure Books (strict : Prop) (met : ObjectId → Prop) (A : Account) (s : Storage) (h : Heap) :
    Prop where
  wellFormed : s.WellFormed
  books : h.Books strict met (A + s.holds)

variable {strict : Prop} {met : ObjectId → Prop} {A : Account} {h h' : Heap}

@[simp] theorem scopeStacks_note (s : Storage) (tr : RootTransition) :
    (s.note tr).scopeStacks = s.scopeStacks := by
  cases tr <;> rfl

@[simp] theorem persistents_note (s : Storage) (tr : RootTransition) :
    (s.note tr).persistents = s.persistents := by
  cases tr <;> rfl

theorem holds_note (s : Storage) (tr : RootTransition) : (s.note tr).holds = s.holds := by
  rw [holds, localHolds, scopeStacks_note, persistents_note, holds, localHolds]

theorem Books.note (hb : Books strict met A s h) (tr : RootTransition) :
    Books strict met A (s.note tr) h := by
  refine ⟨⟨?_, ?_, ?_⟩, ?_⟩
  · rw [scopeStacks_note]
    exact hb.wellFormed.framed
  · rw [Storage.owners, scopeStacks_note]
    exact hb.wellFormed.owners
  · rw [persistents_note]
    exact hb.wellFormed.stored
  · rw [holds_note]
    exact hb.books

/-- The first stack of a thread. -/
theorem Books.add (hb : Books strict met A s h) (ht : s.stack? t = none)
    (hs : stack.IsFramed) (hholds : stack.holds = 0) :
    Books strict met A (s.setStack t stack) h := by
  have hset := setStack_of_none ht stack
  have howners := nodup_setStack hb.wellFormed.owners t stack
  refine ⟨⟨fun e he => ?_, howners, hb.wellFormed.stored⟩, ?_⟩
  · rw [hset, List.mem_append, List.mem_singleton] at he
    rcases he with he | rfl
    · exact hb.wellFormed.framed e he
    · exact hs
  · have : (s.setStack t stack).holds = s.holds := by
      rw [holds, holds, localHolds, localHolds, hset, List.map_append, List.sum_append]
      simp only [List.map_cons, List.map_nil, List.sum_cons, List.sum_nil, hholds, add_zero]
      rfl
    rw [this]
    exact hb.books

/-- **The stack of a thread beside everything else:** `A'` is what all others hold, and
stays so while the stack is used. -/
theorem Books.beside (hb : Books strict met A s h) (ht : s.stack? t = some stack) :
    ∃ A', stack.IsFramed ∧ h.Books strict met (A' + stack.holds) ∧
      (∀ stack', A + (s.setStack t stack').holds = A' + stack'.holds) ∧
      (∀ stack' h', stack'.IsFramed → h'.Books strict met (A' + stack'.holds) →
        Books strict met A (s.setStack t stack') h') ∧
      ∀ h', h'.Books strict met A' → Books strict met A (s.removeStack t) h' := by
  have hnd := hb.wellFormed.owners
  obtain ⟨others, hperm, hset, hrem⟩ := exists_perm hnd ht
  have hframed : ∀ e ∈ (t, stack) :: others, e.2.IsFramed := fun e he =>
    hb.wellFormed.framed e (hperm.mem_iff.2 he)
  have hpers : (s.removeStack t).persistents = s.persistents := by
    unfold removeStack
    split
    · rfl
    · split
      · rfl
      · split <;> rfl
  have hold : s.holds
      = (others.map fun e => e.2.holds).sum + s.persistents.holds + stack.holds := by
    rw [holds, localHolds, (hperm.map _).sum_eq, List.map_cons, List.sum_cons,
      add_comm stack.holds, add_right_comm]
  have hnew : ∀ stack', (s.setStack t stack').holds
      = (others.map fun e => e.2.holds).sum + s.persistents.holds + stack'.holds := fun stack' => by
    rw [holds, localHolds, ((hset stack').map _).sum_eq, List.map_cons, List.sum_cons,
      add_comm stack'.holds, add_right_comm]
    rfl
  have hgone : (s.removeStack t).holds
      = (others.map fun e => e.2.holds).sum + s.persistents.holds := by
    rw [holds, localHolds, (hrem.map _).sum_eq, hpers]
  have hb' := hb.books
  rw [hold, ← add_assoc] at hb'
  refine ⟨_, hframed _ List.mem_cons_self, hb', fun stack' => by rw [hnew, ← add_assoc],
    fun stack' h' hs' hbooks =>
      ⟨⟨fun e he => ?_, nodup_setStack hnd t stack', hb.wellFormed.stored⟩, ?_⟩,
    fun h' hbooks => ⟨⟨fun e he => ?_, (nodup_removeStack hnd ht).1, ?_⟩, ?_⟩⟩
  · rcases List.mem_cons.1 ((hset stack').mem_iff.1 he) with rfl | he
    · exact hs'
    · exact hframed e (List.mem_cons_of_mem _ he)
  · rw [hnew, ← add_assoc]
    exact hbooks
  · exact hframed e (List.mem_cons_of_mem _ (hrem.mem_iff.1 he))
  · rw [hpers]
    exact hb.wellFormed.stored
  · rw [hgone]
    exact hbooks

/-- Persistent handles that were used: what they hold is exchanged. -/
theorem Books.persist (hb : Books strict met A s h) {p : PersistentStore} (hp : p.IsStored)
    (hbooks : h'.Books strict met (A + s.localHolds + p.holds)) :
    Books strict met A { s with persistents := p } h' := by
  refine ⟨⟨hb.wellFormed.framed, hb.wellFormed.owners, hp⟩, ?_⟩
  rw [add_assoc] at hbooks
  exact hbooks

/-- Stacks that are discarded one after another release what they hold. -/
theorem books_discardAll {es : List (ThreadKey × ScopeStack)} (hes : ∀ e ∈ es, e.2.IsFramed)
    (hb : h.Books strict met (A + (es.map fun e => e.2.holds).sum)) :
    (es.foldl (fun h e => e.2.discard h) h).Books strict met A := by
  induction es generalizing h with
  | nil =>
    rw [List.map_nil, List.sum_nil, add_zero] at hb
    exact hb
  | cons e es ih =>
    rw [List.map_cons, List.sum_cons, add_comm e.2.holds, ← add_assoc] at hb
    exact ih (fun e' he' => hes e' (List.mem_cons_of_mem _ he'))
      (ScopeStack.books_discard (hes e List.mem_cons_self) hb)

/-- A storage that ends releases all that it holds. -/
theorem Books.discard (hb : Books strict met A s h) : (s.discard h).Books strict met A := by
  have hbooks := hb.books
  rw [holds, add_comm s.localHolds, ← add_assoc] at hbooks
  exact PersistentStore.books_discard hb.wellFormed.stored
    (books_discardAll hb.wellFormed.framed hbooks)

end Storage
end EngineHandles
