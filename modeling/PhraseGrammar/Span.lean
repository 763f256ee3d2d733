import PhraseGrammar.Sentence

/-! Spans of a sentence, and the walk outwards from one of them. -/

namespace PhraseGrammar

/-- The positions from a first to a last one, both included. -/
structure Span where
  /-- The first position. -/
  first : Nat
  /-- The last position. -/
  last : Nat
deriving DecidableEq, Hashable, Repr

/-- The number of positions. -/
def Span.length (span : Span) : Nat :=
  span.last - span.first + 1

/-- A direction in which a phrase grows. -/
inductive Side where
  | left
  | right
deriving DecidableEq, Hashable, Repr

namespace Span

/-- The outermost position on a side. -/
def reach (span : Span) (side : Side) : Nat :=
  match side with
  | .left => span.first
  | .right => span.last

/-- The span with another outermost position on a side. -/
def stretch (span : Span) (side : Side) (position : Nat) : Span :=
  match side with
  | .left => { span with first := position }
  | .right => { span with last := position }

end Span

namespace Side

/-- The position just outside a span, if a sentence of that length has one. -/
def nextPosition? (side : Side) (span : Span) (length : Nat) : Option Nat :=
  match side with
  | .left => if span.first = 0 then none else some (span.first - 1)
  | .right => if span.last + 1 < length then some (span.last + 1) else none

/-- The outermost slot on a side of a pattern of that length. -/
def boundary (side : Side) (length : Nat) : Nat :=
  match side with
  | .left => 0
  | .right => length - 1

/-- The next slot outwards; the first slot has none to its left and stands for itself. -/
def nextComponent (side : Side) (component : Nat) : Nat :=
  match side with
  | .left => component - 1
  | .right => component + 1

end Side

/-- The tokens outside a span on one side with their positions, the nearest first. -/
def Sentence.outward (sentence : Sentence) (side : Side) (span : Span) : List (Token × Nat) :=
  match side with
  | .left => (sentence.tokens.take span.first).zipIdx.reverse
  | .right => (sentence.tokens.drop (span.last + 1)).zipIdx (span.last + 1)

end PhraseGrammar
