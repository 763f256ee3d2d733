/-! What the command line can be asked to do. -/

namespace PhraseGrammar.CommandLine

/-- An extraction: the files to read, and what is to be done differently. -/
structure ExtractionJob where
  /-- The file of the patterns, as JSON or as an archive. -/
  patterns : String
  /-- The file of the sentences. -/
  sentences : String
  /-- The file of the stop words. -/
  stopWords : Option String
  /-- The file of the options. -/
  config : Option String
  /-- Whether stop words are left out, whatever the options say. -/
  cleanStopWords : Bool
  /-- Whether shorter phrases stay, whatever the options say. -/
  noBoundaries : Bool
  /-- The file for the result; without one it is printed. -/
  output : Option String
deriving DecidableEq, Repr

/-- A piece of work. -/
inductive Command where
  /-- Checks the patterns of a file and writes them to an archive. -/
  | compile (input output : String)
  /-- Extracts phrases from sentences. -/
  | extract (job : ExtractionJob)
  /-- Describes the patterns of a file. -/
  | inspect (patterns : String)
deriving DecidableEq, Repr

namespace Command

/-- The files that a command reads. -/
def inputs : Command → List String
  | .compile input _ => [input]
  | .extract job => [job.patterns] ++ job.config.toList ++ job.stopWords.toList ++ [job.sentences]
  | .inspect patterns => [patterns]

end Command

end PhraseGrammar.CommandLine
