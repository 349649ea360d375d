/-
# An arena's interface, and a list in its place

An arena is used through `ArenaCall`: slots are added at the end and cut away from the
end, and a slot in between is edited in place, one at its address or all of them on one
visit.  An edit is code of the embedder's, which may change the heap and a state of its
own; so is what happens between two calls (`ArenaCall.host`).

`SlotList.call` serves the same calls on a plain list of slots.  It knows of slabs only
what arithmetic says about positions: the address of a position, how many slots there is
room for, and how many are left when they are cut back to an address.
-/

import EngineHandles.Proofs.Arena.Cut

namespace EngineHandles

/-- An edit of a slot, in reach of the heap and a state of the embedder's. -/
abbrev SlotEdit (σ : Type) := Slot → Heap × σ → Slot × Heap × σ

/-- One call of an arena's interface. -/
inductive ArenaCall (σ : Type) where
  | add (object : ObjectId)
  | adopt (object : ObjectId)
  /-- Cuts back to an address, or to nothing. -/
  | delete (target : Option SlotAddr)
  | clear
  | edit (addr : SlotAddr) (change : SlotEdit σ)
  | visit (change : SlotAddr → SlotEdit σ)
  /-- What the embedder does without the arena. -/
  | host (work : Heap × σ → Heap × σ)

/-- What a call answers. -/
inductive ArenaReply where
  | added (result : Except ArenaError Added)
  | deleted (result : Except ArenaError Nat)
  | cleared (removed : Nat)
  | edited (found : Option Slot)
  | visited (entries : List (SlotAddr × Slot))
  | worked
deriving DecidableEq

/-- A visitor that also notes what it visits, the latest first. -/
def Slot.noting {τ : Type} (visitor : SlotAddr → Slot → τ → Slot × τ) :
    SlotAddr → Slot → List (SlotAddr × Slot) × τ → Slot × List (SlotAddr × Slot) × τ :=
  fun addr x (seen, st) => let (x', st') := visitor addr x st; (x', (addr, x) :: seen, st')

variable {σ τ : Type}

namespace Arena

/-- Serves one call. -/
def call (a : Arena) (w : Heap × σ) : ArenaCall σ → ArenaReply × Arena × Heap × σ
  | .add o => let (r, a', h') := a.add o w.1; (.added r, a', h', w.2)
  | .adopt o => let (r, a', h') := a.adopt o w.1; (.added r, a', h', w.2)
  | .delete none => let (n, a', h') := a.clear w.1; (.deleted (.ok n), a', h', w.2)
  | .delete (some target) => let (r, a', h') := a.delete target w.1; (.deleted r, a', h', w.2)
  | .clear => let (n, a', h') := a.clear w.1; (.cleared n, a', h', w.2)
  | .edit addr change =>
    match a.get? addr with
    | none => (.edited none, a, w)
    | some x => let (x', w') := change x w; (.edited (some x), a.write addr x', w')
  | .visit change =>
    let (a', seen, w') := a.visit (Slot.noting change) ([], w)
    (.visited seen.reverse, a', w')
  | .host work => (.worked, a, work w)

/-- Serves calls in order. -/
def run (a : Arena) (w : Heap × σ) : List (ArenaCall σ) → List ArenaReply × Arena × Heap × σ
  | [] => ([], a, w)
  | call :: rest =>
    let (r, a', w') := a.call w call
    let (rs, a'', w'') := a'.run w' rest
    (r :: rs, a'', w'')

end Arena

namespace SlotList

/-- Every slot with its address, in order. -/
def entries (c : ArenaConfig) (xs : List Slot) : List (SlotAddr × Slot) :=
  xs.zipIdx.map fun (x, k) => (c.slotAt k, x)

/-- The position of the slot with an address, and the slot. -/
def find? (c : ArenaConfig) (xs : List Slot) (addr : SlotAddr) : Option (Nat × Slot) :=
  (c.position? addr).bind fun k => xs[k]?.map fun x => (k, x)

/-- Visits slots in order, the first of which is at position `k`. -/
def visitFrom (c : ArenaConfig) (visitor : SlotAddr → Slot → τ → Slot × τ) :
    Nat → List Slot → τ → List Slot × τ
  | _, [], st => ([], st)
  | k, x :: rest, st =>
    let (x', st') := visitor (c.slotAt k) x st
    let (rest', st'') := visitFrom c visitor (k + 1) rest st'
    (x' :: rest', st'')

/-- Adds a slot at the end as long as there is room. -/
def append (c : ArenaConfig) (xs : List Slot) (x : Slot) : Except ArenaError Added × List Slot :=
  if xs.length < c.capacity then
    (.ok ⟨c.slotAt xs.length, c.frontierAt (xs.length + 1)⟩, xs ++ [x])
  else (.error (.capacityExceeded c.maxSlabs.toNat c.maxSlabs.toNat), xs)

/-- Serves one call. -/
def call (c : ArenaConfig) (xs : List Slot) (w : Heap × σ) :
    ArenaCall σ → ArenaReply × List Slot × Heap × σ
  | .add o =>
    match append c xs (.holding o .strong) with
    | (.error e, xs') => (.added (.error e), xs', w)
    | (.ok added, xs') => (.added (.ok added), xs', w.1.retain o .strong, w.2)
  | .adopt o =>
    match append c xs (.holding o .strong) with
    | (.error e, xs') => (.added (.error e), xs', (w.1.release o .strong).2, w.2)
    | (.ok added, xs') => (.added (.ok added), xs', w)
  | .delete none => (.deleted (.ok xs.length), [], Slot.releaseFromEnd xs w.1, w.2)
  | .delete (some target) =>
    match c.cut? xs.length target with
    | none => (.deleted (.error (.addressOutOfRange (c.normalize target))), xs, w)
    | some p =>
      (.deleted (.ok (xs.length - p)), xs.take p, Slot.releaseFromEnd (xs.drop p) w.1, w.2)
  | .clear => (.cleared xs.length, [], Slot.releaseFromEnd xs w.1, w.2)
  | .edit addr change =>
    match find? c xs addr with
    | none => (.edited none, xs, w)
    | some (k, x) => let (x', w') := change x w; (.edited (some x), xs.set k x', w')
  | .visit change =>
    let (xs', w') := visitFrom c change 0 xs w
    (.visited (entries c xs), xs', w')
  | .host work => (.worked, xs, work w)

/-- Serves calls in order. -/
def run (c : ArenaConfig) (xs : List Slot) (w : Heap × σ) :
    List (ArenaCall σ) → List ArenaReply × List Slot × Heap × σ
  | [] => ([], xs, w)
  | call :: rest =>
    let (r, xs', w') := SlotList.call c xs w call
    let (rs, xs'', w'') := run c xs' w' rest
    (r :: rs, xs'', w'')

section

variable {c : ArenaConfig}

/-- What is found lies at the address of its position. -/
theorem find?_eq_some {xs : List Slot} {addr : SlotAddr} {k : Nat} {x : Slot}
    (h : find? c xs addr = some (k, x)) : addr = c.slotAt k ∧ k < xs.length := by
  obtain ⟨j, hj, hx⟩ := Option.bind_eq_some_iff.1 h
  obtain ⟨y, hy, he⟩ := Option.map_eq_some_iff.1 hx
  cases he
  exact ⟨(ArenaConfig.slotAt_of_position? hj).symm, (List.getElem?_eq_some_iff.1 hy).1⟩

end

variable (c : ArenaConfig) (visitor : SlotAddr → Slot → τ → Slot × τ)

@[simp] theorem length_visitFrom (k : Nat) (xs : List Slot) (st : τ) :
    (visitFrom c visitor k xs st).1.length = xs.length := by
  induction xs generalizing k st with
  | nil => rfl
  | cons x xs ih => simp [visitFrom, ih]

/-- Visiting one stretch of slots after another. -/
theorem visitFrom_append (k : Nat) (xs ys : List Slot) (st : τ) :
    visitFrom c visitor k (xs ++ ys) st
      = ((visitFrom c visitor k xs st).1
          ++ (visitFrom c visitor (k + xs.length) ys (visitFrom c visitor k xs st).2).1,
        (visitFrom c visitor (k + xs.length) ys (visitFrom c visitor k xs st).2).2) := by
  induction xs generalizing k st with
  | nil => rfl
  | cons x xs ih =>
    rw [List.length_cons, ← Nat.add_assoc, Nat.add_right_comm]
    simp only [List.cons_append, visitFrom, ih]

/-- **A visitor that notes what it visits** notes every slot once, in order, and does
what it would do without noting. -/
theorem visitFrom_noting (k : Nat) (xs : List Slot) (seen : List (SlotAddr × Slot)) (st : τ) :
    visitFrom c (Slot.noting visitor) k xs (seen, st)
      = ((visitFrom c visitor k xs st).1,
        ((xs.zipIdx k).map fun (x, k) => (c.slotAt k, x)).reverse ++ seen,
        (visitFrom c visitor k xs st).2) := by
  induction xs generalizing k seen st with
  | nil => rfl
  | cons x xs ih =>
    simp only [visitFrom, Slot.noting, List.zipIdx_cons, List.map_cons, List.reverse_cons,
      List.append_assoc, List.singleton_append]
    rw [ih]

end SlotList
end EngineHandles
