/-
# Reference tallies

An object counts its referrers in two tallies, strong and weak, each a 32-bit
word.  Adding to a tally wraps at `2 ^ 32`; taking from a tally that is zero is
refused, so a weak referrer can never use up a strong one.  Weakening moves one
referrer from the strong tally to the weak one, strengthening moves it back.
-/

namespace EngineHandles

/-- The tally against which a reference is counted. -/
inductive RefKind where
  /-- Keeps the object alive. -/
  | strong
  /-- Keeps the object alive only until a sweep has asked its callback. -/
  | weak
deriving DecidableEq, Repr

/-- The written form of a reference kind. -/
def RefKind.text : RefKind → String
  | .strong => "strong"
  | .weak => "weak"

/-- The two tallies of one object. -/
structure Tally where
  strong : UInt32 := 0
  weak : UInt32 := 0
deriving DecidableEq, Repr

namespace Tally

/-- The tally of one kind. -/
def count (t : Tally) : RefKind → UInt32
  | .strong => t.strong
  | .weak => t.weak

/-- One referrer more, wrapping at `2 ^ 32`. -/
def add (t : Tally) : RefKind → Tally
  | .strong => { t with strong := t.strong + 1 }
  | .weak => { t with weak := t.weak + 1 }

/-- One referrer less, or nothing if the tally is zero. -/
def takeOne? (t : Tally) : RefKind → Option Tally
  | .strong => if t.strong = 0 then none else some { t with strong := t.strong - 1 }
  | .weak => if t.weak = 0 then none else some { t with weak := t.weak - 1 }

/-- Moves one referrer from tally `k` to tally `l`, if there is one to move. -/
def move (t : Tally) (k l : RefKind) : Tally :=
  match t.takeOne? k with
  | none => t
  | some rest => rest.add l

/-- Moves one referrer from the strong tally to the weak one. -/
def weaken (t : Tally) : Tally := t.move .strong .weak

/-- Moves one referrer from the weak tally to the strong one. -/
def strengthen (t : Tally) : Tally := t.move .weak .strong

/-- Whether nothing refers to the object. -/
def isZero (t : Tally) : Bool := t.strong == 0 && t.weak == 0

/-- All referrers together, wrapping at `2 ^ 32`. -/
def total (t : Tally) : UInt32 := t.strong + t.weak

end Tally
end EngineHandles
