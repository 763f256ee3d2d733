import PhraseGrammar.Phrase
import Std.Data.HashMap
import Std.Data.HashSet

/-! Of phrases with the same start only the longest ones stay, and of equal spans only the first. -/

namespace PhraseGrammar.Phrase

/-- The greatest ends by their starts, once one more phrase is taken into account. -/
def addEnd (ends : Std.HashMap Nat Nat) (phrase : Phrase) : Std.HashMap Nat Nat :=
  let greatest := ends.getD phrase.span.first phrase.span.last
  ends.insert phrase.span.first (max greatest phrase.span.last)

/-- The greatest end of the phrases with each start. -/
def greatestEnds (phrases : List Phrase) : Std.HashMap Nat Nat :=
  phrases.foldl addEnd ∅

/-- What is kept of the phrases that have been gone through. -/
structure Kept where
  /-- The phrases that are kept, in their order. -/
  phrases : Array Phrase := #[]
  /-- The spans of the phrases that are kept. -/
  spans : Std.HashSet Span := ∅

/-- One more phrase is kept if no phrase with its start ends later, and none has its span. -/
def Kept.add (ends : Std.HashMap Nat Nat) (kept : Kept) (phrase : Phrase) : Kept :=
  if ends[phrase.span.first]? = some phrase.span.last && !kept.spans.contains phrase.span then
    { phrases := kept.phrases.push phrase
      spans := kept.spans.insert phrase.span }
  else kept

/-- Drops every phrase that another one with the same start outlasts; of equal spans the first stays. -/
def reduceBoundaries (phrases : List Phrase) : List Phrase :=
  let ends := greatestEnds phrases
  (phrases.foldl (Kept.add ends) {}).phrases.toList

end PhraseGrammar.Phrase
