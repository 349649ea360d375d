/-
# Scopes by other names

The id of a scope is drawn from a supply that all threads share, so what ids a thread gets
depends on the others.  Nothing else does.  If the ids in a scope stack and in the arguments of a
call are exchanged for others, different ones for different ones, the answers are the same but for
the names (`ScopeStack.Renames`), and so are the slots; which objects there are and how they are
counted does not matter at all.
-/

import EngineHandles.Isolate.Handle
import EngineHandles.Scope.Stack

namespace EngineHandles

/-- A result in which other names stand, in the error or in the answer. -/
def renamed {ε α : Type} (e : ε → ε) (f : α → α) : Except ε α → Except ε α
  | .error x => .error (e x)
  | .ok a => .ok (f a)

variable {ρ : ScopeId → ScopeId}

/-- A mistake with the scopes by other names. -/
def UsageError.rename (ρ : ScopeId → ScopeId) : UsageError → UsageError
  | .scopeAlreadyClosed s => .scopeAlreadyClosed (ρ s)
  | .scopeNotInnermost s i => .scopeNotInnermost (ρ s) (ρ i)
  | .escapeWithoutParent s => .escapeWithoutParent (ρ s)
  | .slotOutsideScope a s => .slotOutsideScope a (ρ s)
  | .staleLocal s => .staleLocal (ρ s)
  | e => e

/-- An error with the scopes by other names. -/
def HandleError.rename (ρ : ScopeId → ScopeId) : HandleError → HandleError
  | .usage cause => .usage (cause.rename ρ)
  | e => e

/-- No error of an arena names a scope. -/
@[simp] theorem ArenaError.rename_toHandleError (e : ArenaError) :
    e.toHandleError.rename ρ = e.toHandleError := by
  cases e <;> rfl

/-- A local with its scope by another name. -/
def LocalHandle.rename (ρ : ScopeId → ScopeId) (l : LocalHandle) : LocalHandle :=
  { l with scope := ρ l.scope }

/-- An open scope by another name. -/
def Frame.rename (ρ : ScopeId → ScopeId) (f : Frame) : Frame := { f with id := ρ f.id }

/-! ### Arenas answer the same over any heap -/

namespace Arena

variable (a : Arena) (o : ObjectId) (h h' : Heap)

theorem delete_heap (target : SlotAddr) : (a.delete target h').1 = (a.delete target h).1 ∧
    (a.delete target h').2.1 = (a.delete target h).2.1 := by
  unfold delete
  split
  · exact ⟨rfl, rfl⟩
  · dsimp only
    split
    · exact ⟨rfl, rfl⟩
    · split <;> exact ⟨rfl, rfl⟩

theorem add_heap : (a.add o h').1 = (a.add o h).1 ∧ (a.add o h').2.1 = (a.add o h).2.1 := by
  unfold add
  split <;> exact ⟨rfl, rfl⟩

theorem adopt_heap :
    (a.adopt o h').1 = (a.adopt o h).1 ∧ (a.adopt o h').2.1 = (a.adopt o h).2.1 := by
  unfold adopt
  split <;> exact ⟨rfl, rfl⟩

end Arena

namespace ScopeStack

/-- A stack with its scopes by other names. -/
def rename (ρ : ScopeId → ScopeId) (s : ScopeStack) : ScopeStack :=
  { s with frames := s.frames.map (Frame.rename ρ) }

/-- Two outcomes of a call that differ in the names of scopes only, apart from the heap. -/
def Renames {α : Type} (ρ : ScopeId → ScopeId) (f : α → α)
    (r r' : Except HandleError α × ScopeStack × Heap) : Prop :=
  r'.1 = renamed (HandleError.rename ρ) f r.1 ∧ r'.2.1 = r.2.1.rename ρ

variable (hρ : Function.Injective ρ) (s : ScopeStack) (id : ScopeId) (slot : SlotAddr)
  (o : ObjectId) (h h' : Heap)

@[simp] theorem isEmpty_rename : (s.rename ρ).isEmpty = s.isEmpty := List.isEmpty_map

theorem innermost?_rename : (s.rename ρ).innermost? = s.innermost?.map ρ := by
  unfold innermost? rename
  rw [List.head?_map, Option.map_map, Option.map_map]
  rfl

/-! Names are compared with each other, and with nothing else. -/

section
include hρ

theorem isOpen_rename : (s.rename ρ).isOpen (ρ id) = s.isOpen id := by
  unfold isOpen rename
  rw [List.any_map]
  refine congrArg _ (funext fun f => ?_)
  exact Bool.eq_iff_iff.2 (by simp only [Function.comp, beq_iff_eq]; exact hρ.eq_iff)

theorem bounds?_rename : (s.rename ρ).bounds? (ρ id) = s.bounds? id := by
  have hskip : ((s.rename ρ).frames.reverse.dropWhile fun f => f.id != ρ id)
      = (s.frames.reverse.dropWhile fun f => f.id != id).map (Frame.rename ρ) := by
    rw [rename, ← List.map_reverse, List.dropWhile_map]
    refine congrArg _ (congrArg (List.dropWhile · _) (funext fun f => ?_))
    exact Bool.eq_iff_iff.2 (by simp only [Function.comp, bne_iff_ne]; exact hρ.ne_iff)
  unfold bounds?
  rw [hskip]
  generalize (s.frames.reverse.dropWhile fun f => f.id != id) = outer
  match outer with
  | [] => rfl
  | [f] => rfl
  | f :: g :: _ => rfl

theorem owns_rename : (s.rename ρ).owns (ρ id) slot = s.owns id slot := by
  unfold owns
  rw [bounds?_rename hρ]
  rfl

theorem closeFault?_rename :
    (s.rename ρ).closeFault? (ρ id) = (s.closeFault? id).map (UsageError.rename ρ) := by
  unfold closeFault?
  rw [innermost?_rename, isOpen_rename hρ]
  cases s.innermost? with
  | none => rfl
  | some top =>
    dsimp only [Option.map_some]
    by_cases he : top = id
    · rw [if_pos he, if_pos (congrArg ρ he)]
      rfl
    · rw [if_neg he, if_neg (hρ.ne he)]
      split <;> rfl

/-- **Reading a local** by other names. -/
theorem get_rename : (s.rename ρ).get (ρ id) slot
    = renamed (UsageError.rename ρ) (fun o => o) (s.get id slot) := by
  have hlocals : (s.rename ρ).locals = s.locals := rfl
  unfold get
  rw [owns_rename hρ, hlocals]
  split
  · cases (s.locals.get? slot).bind Slot.object <;> rfl
  · rfl

end

variable (ρ) in
/-- The innermost frame is removed whatever it is called. -/
theorem popFrame_rename : Renames ρ (fun n => n) (s.popFrame h) ((s.rename ρ).popFrame h') := by
  obtain ⟨locals, frames⟩ := s
  cases frames with
  | nil => exact ⟨rfl, rfl⟩
  | cons f below =>
    show Renames ρ _ (popFrame ⟨locals, f :: below⟩ h)
      (popFrame ⟨locals, f.rename ρ :: below.map (Frame.rename ρ)⟩ h')
    unfold popFrame
    dsimp only [Frame.rename]
    split
    · exact ⟨rfl, rfl⟩
    · obtain ⟨hr, ha⟩ := locals.delete_heap h h' f.checkpoint.nextFree
      generalize locals.delete f.checkpoint.nextFree h = r at hr ha ⊢
      generalize locals.delete f.checkpoint.nextFree h' = r' at hr ha ⊢
      obtain ⟨r, a, g⟩ := r
      obtain ⟨r', a', g'⟩ := r'
      dsimp only at hr ha
      subst hr ha
      cases r' with
      | error e => exact ⟨congrArg _ e.rename_toHandleError.symm, rfl⟩
      | ok n => exact ⟨rfl, rfl⟩

variable (ρ) in
/-- **Adding a local** by other names. -/
theorem add_rename : Renames ρ (fun x => { x with scope := ρ x.scope }) (s.add o h)
    ((s.rename ρ).add o h') := by
  unfold add
  rw [innermost?_rename]
  cases s.innermost? with
  | none => exact ⟨rfl, rfl⟩
  | some top =>
    obtain ⟨hr, ha⟩ := s.locals.add_heap o h h'
    dsimp only [Option.map_some, rename]
    generalize s.locals.add o h = r at hr ha ⊢
    generalize s.locals.add o h' = r' at hr ha ⊢
    obtain ⟨r, a, g⟩ := r
    obtain ⟨r', a', g'⟩ := r'
    dsimp only at hr ha
    subst hr ha
    cases r' with
    | error e => exact ⟨congrArg _ e.rename_toHandleError.symm, rfl⟩
    | ok added => exact ⟨rfl, rfl⟩

section
include hρ

/-- **Closing a scope** by another name. -/
theorem leave_rename :
    Renames ρ (fun x => x) (s.leave id h) ((s.rename ρ).leave (ρ id) h') := by
  unfold leave
  rw [closeFault?_rename hρ]
  cases s.closeFault? id with
  | some e => exact ⟨rfl, rfl⟩
  | none =>
    obtain ⟨hr, hs⟩ := s.popFrame_rename ρ h h'
    dsimp only [Option.map_none]
    generalize s.popFrame h = r at hr hs ⊢
    generalize (s.rename ρ).popFrame h' = r' at hr hs ⊢
    obtain ⟨r, s₁, g⟩ := r
    obtain ⟨r', s₁', g'⟩ := r'
    dsimp only at hr hs
    subst hr hs
    cases r <;> exact ⟨rfl, rfl⟩

/-- **Escaping from a scope** by another name. -/
theorem escape_rename : Renames ρ (fun x => { x with parent := ρ x.parent }) (s.escape id slot h)
    ((s.rename ρ).escape (ρ id) slot h') := by
  have hlocals : (s.rename ρ).locals = s.locals := rfl
  have hframe : (s.rename ρ).frames[1]? = s.frames[1]?.map (Frame.rename ρ) := List.getElem?_map
  unfold escape
  rw [closeFault?_rename hρ, owns_rename hρ, hframe, hlocals]
  cases s.closeFault? id with
  | some e => exact ⟨rfl, rfl⟩
  | none =>
    cases s.frames[1]? with
    | none => exact ⟨rfl, rfl⟩
    | some parent =>
      dsimp only [Option.map_some, Option.map_none]
      split
      · exact ⟨rfl, rfl⟩
      · cases s.locals.get? slot with
        | none => exact ⟨rfl, rfl⟩
        | some x =>
          obtain ⟨object, kind⟩ := x
          cases object with
          | none => exact ⟨rfl, rfl⟩
          | some o =>
            dsimp only [Option.map_some, Slot.take, Slot.emptied]
            obtain ⟨hr, hs⟩ :=
              popFrame_rename ρ { s with locals := s.locals.write slot ⟨none, kind⟩ } h h'
            have hwrite : ({ s.rename ρ with locals := s.locals.write slot ⟨none, kind⟩ } : ScopeStack)
                = rename ρ { s with locals := s.locals.write slot ⟨none, kind⟩ } := rfl
            rw [hwrite]
            generalize popFrame { s with locals := s.locals.write slot ⟨none, kind⟩ } h = r
              at hr hs ⊢
            generalize popFrame (rename ρ _) h' = r' at hr hs ⊢
            obtain ⟨r, s₁, g⟩ := r
            obtain ⟨r', s₁', g'⟩ := r'
            dsimp only at hr hs
            subst hr hs
            cases r with
            | error e => exact ⟨rfl, rfl⟩
            | ok n =>
              obtain ⟨hr, ha⟩ := s₁.locals.adopt_heap o g g'
              have hlocals₁ : (s₁.rename ρ).locals = s₁.locals := rfl
              dsimp only [renamed]
              rw [hlocals₁]
              generalize s₁.locals.adopt o g = r at hr ha ⊢
              generalize s₁.locals.adopt o g' = r' at hr ha ⊢
              obtain ⟨r, a, k⟩ := r
              obtain ⟨r', a', k'⟩ := r'
              dsimp only at hr ha
              subst hr ha
              cases r' with
              | error e => exact ⟨congrArg _ e.rename_toHandleError.symm, rfl⟩
              | ok added => exact ⟨rfl, rfl⟩

end
end ScopeStack
end EngineHandles
