import PhraseGrammar.MatchOptions
import PhraseGrammar.Registry

/-! Why work on files cannot be done. -/

namespace PhraseGrammar.CommandLine

/-- What ends the work; a path says where. -/
inductive Failure where
  /-- The file cannot be read, or is no text where one is wanted. -/
  | reading (path : String)
  /-- The file cannot be written. -/
  | writing (path : String)
  /-- The text is no pattern set. -/
  | parsingPatterns (path : String)
  /-- The bytes are no archive. -/
  | decodingArchive (path : String)
  /-- The patterns that are to be used form no grammar. -/
  | invalidPatterns (path : String) (cause : GrammarError)
  /-- The patterns that are to be compiled form no grammar. -/
  | failedValidation (cause : GrammarError)
  /-- There is no pattern to describe. -/
  | noPatterns (path : String)
  /-- The text states no options. -/
  | parsingOptions (path : String)
  /-- The options cannot be used. -/
  | invalidOptions (cause : OptionsError)
  /-- The text is no list of sentences. -/
  | parsingSentences (path : String)
deriving DecidableEq, Repr

namespace Failure

/-- The wording of a failure. -/
def message : Failure → String
  | .reading path => "reading " ++ path
  | .writing path => "writing " ++ path
  | .parsingPatterns path => "parsing pattern set " ++ path
  | .decodingArchive path => "decoding archive " ++ path
  | .invalidPatterns path _ => "invalid pattern set " ++ path
  | .failedValidation _ => "pattern set failed validation"
  | .noPatterns path => "pattern set " ++ path ++ " is empty"
  | .parsingOptions path => "parsing options " ++ path
  | .invalidOptions cause => cause.message
  | .parsingSentences path => "parsing sentences " ++ path

/-- What is wrong with the patterns, where that is the reason. -/
def cause? : Failure → Option GrammarError
  | .invalidPatterns _ cause => some cause
  | .failedValidation cause => some cause
  | _ => none

end Failure

end PhraseGrammar.CommandLine
