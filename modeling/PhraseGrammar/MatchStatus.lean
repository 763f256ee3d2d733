/-! What the search for a composite phrase has settled so far. -/

namespace PhraseGrammar

/-- How far a composite phrase has come. -/
structure MatchStatus where
  /-- Whether the head has been looked at. -/
  headChecked : Bool := false
  /-- Whether the head has been found to match. -/
  headMatched : Bool := false
  /-- Whether the demands on words have been met. -/
  lexiconSatisfied : Bool := false
  /-- How many tokens and phrases have been taken. -/
  consumed : Nat := 0
deriving DecidableEq, Repr

namespace MatchStatus

/-- The status for a pattern without a head. -/
def headless : MatchStatus :=
  { headChecked := true, headMatched := true }

/-- The status at the start of a pattern that has a head or none. -/
def start (hasHead : Bool) : MatchStatus :=
  if hasHead then {} else headless

/-- The status once the head has been looked at; only the first look counts. -/
def recordHead (status : MatchStatus) (matched : Bool) : MatchStatus :=
  if status.headChecked then status else { status with headChecked := true, headMatched := matched }

/-- Whether everything is settled for a pattern of that length. -/
def isComplete (status : MatchStatus) (length : Nat) : Bool :=
  status.headChecked && status.headMatched && status.lexiconSatisfied && length ≤ status.consumed

end MatchStatus

end PhraseGrammar
