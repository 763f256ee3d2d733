/-! The options of an extraction. -/

namespace PhraseGrammar

/-- What an extraction is asked to do, and how far it may go for one sentence. -/
structure MatchOptions where
  /-- Whether stop words take no part in phrases. -/
  cleanStopWords : Bool := false
  /-- Whether of composite phrases with the same start only the longest stays. -/
  validateBoundaries : Bool := true
  /-- How deep the search for composite phrases may go. -/
  maxDepth : Nat := 256
  /-- How many steps both searches together may take. -/
  maxSteps : Nat := 100000
deriving DecidableEq, Repr

/-- Why options cannot be used. -/
inductive OptionsError where
  /-- No depth is allowed. -/
  | noDepth
  /-- No step is allowed. -/
  | noSteps
deriving DecidableEq, Repr

/-- The wording for options that cannot be used. -/
def OptionsError.message : OptionsError → String
  | .noDepth => "invalid match options: max_depth must be at least 1"
  | .noSteps => "invalid match options: max_steps must be at least 1"

/-- What is wrong with the options; the depth is looked at first. -/
def MatchOptions.fault? (options : MatchOptions) : Option OptionsError :=
  if options.maxDepth = 0 then some .noDepth
  else if options.maxSteps = 0 then some .noSteps
  else none

end PhraseGrammar
