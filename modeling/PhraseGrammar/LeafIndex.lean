import PhraseGrammar.Phrase
import Std.Data.HashMap

/-! Phrases found by where they start and where they end. -/

namespace PhraseGrammar

/-- Phrases with their numbers, by their first and by their last position. -/
structure LeafIndex where
  /-- The phrases that start at a position, in order. -/
  byFirst : Std.HashMap Nat (List (Phrase × Nat))
  /-- The phrases that end at a position, in order. -/
  byLast : Std.HashMap Nat (List (Phrase × Nat))

namespace LeafIndex

/-- The index without a phrase. -/
def empty : LeafIndex :=
  ⟨∅, ∅⟩

/-- The index with one more phrase in front of all others. -/
def add (numbered : Phrase × Nat) (index : LeafIndex) : LeafIndex where
  byFirst := index.byFirst.insert numbered.1.span.first
    (numbered :: index.byFirst.getD numbered.1.span.first [])
  byLast := index.byLast.insert numbered.1.span.last
    (numbered :: index.byLast.getD numbered.1.span.last [])

/-- The index of a list of phrases. -/
def ofList (phrases : List Phrase) : LeafIndex :=
  phrases.zipIdx.foldr add empty

/-- The phrases that touch a span on a side without overlapping it, in order. -/
def adjacent (index : LeafIndex) (side : Side) (span : Span) : List (Phrase × Nat) :=
  match side with
  | .left => if span.first = 0 then [] else index.byLast.getD (span.first - 1) []
  | .right => index.byFirst.getD (span.last + 1) []

end LeafIndex

end PhraseGrammar
