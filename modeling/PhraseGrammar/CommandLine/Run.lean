import PhraseGrammar.Archive
import PhraseGrammar.CommandLine.Command
import PhraseGrammar.CommandLine.Failure
import PhraseGrammar.CommandLine.Summary
import PhraseGrammar.Json.Extraction
import PhraseGrammar.Json.MatchOptions
import PhraseGrammar.Json.PatternSet
import PhraseGrammar.Json.Printer

/-! A command reads files and comes to one effect; of several failures the first is the one that counts. -/

namespace PhraseGrammar.CommandLine

/-- The last part of a path; empty parts and single dots are none. -/
def lastPart? (path : String) : Option (List Char) :=
  ((Text.splitChars '/' path.toList).filter fun part => part ≠ [] && part ≠ ['.']).getLast?

/-- Whether a file name ends in a dot and `json`, in any case of the letters, with something before. -/
def isJsonName (name : List Char) : Bool :=
  let backwards := name.reverse
  let stem := (backwards.dropWhile (· ≠ '.')).drop 1
  let extension := (backwards.takeWhile (· ≠ '.')).reverse
  stem ≠ [] && extension.map Char.toLower = ['j', 's', 'o', 'n']

/-- Whether the file of a path is JSON by its name. -/
def isJsonPath (path : String) : Bool :=
  (lastPart? path).any isJsonName

/-- What files hold; nothing where a path cannot be read. -/
abbrev Disk := String → Option ByteArray

namespace Disk

/-- The bytes of a file. -/
def bytes (disk : Disk) (path : String) : Except Failure ByteArray :=
  match disk path with
  | some bytes => .ok bytes
  | none => .error (.reading path)

/-- The text of a file. -/
def text (disk : Disk) (path : String) : Except Failure String := do
  match String.fromUTF8? (← disk.bytes path) with
  | some text => return text
  | none => .error (.reading path)

/-- A value of the text of a file, or the failure for a text that is none. -/
def parse {α : Type} (disk : Disk) (decode : Json → Decoded α) (failure : String → Failure)
    (path : String) : Except Failure α := do
  match Json.decodeText decode (← disk.text path) with
  | .ok value => return value
  | .error _ => .error (failure path)

/-- The pattern set that a file states as JSON. -/
def patternText (disk : Disk) : String → Except Failure PatternSet :=
  disk.parse PatternSet.ofJson .parsingPatterns

/-- The pattern set of a file, whose name tells JSON from archives. -/
def patternSet (disk : Disk) (path : String) : Except Failure PatternSet :=
  if isJsonPath path then disk.patternText path
  else do
    match Archive.decodePatterns (← disk.bytes path).data.toList with
    | some set => return set
    | none => .error (.decodingArchive path)

/-- The registry of the patterns of a file. -/
def registry (disk : Disk) (path : String) : Except Failure Registry := do
  match Registry.ofSet (← disk.patternSet path) with
  | .ok registry => return registry
  | .error cause => .error (.invalidPatterns path cause)

/-- The options of a file, or the usual ones where no file is named. -/
def statedOptions (disk : Disk) : Option String → Except Failure MatchOptions
  | none => .ok {}
  | some path => disk.parse MatchOptions.ofJson .parsingOptions path

/-- The options of an extraction: what its flags say comes before what its file says. -/
def options (disk : Disk) (job : ExtractionJob) : Except Failure MatchOptions := do
  let stated ← disk.statedOptions job.config
  let options := { stated with
    cleanStopWords := stated.cleanStopWords || job.cleanStopWords
    validateBoundaries := stated.validateBoundaries && !job.noBoundaries }
  match options.fault? with
  | none => return options
  | some fault => .error (.invalidOptions fault)

/-- The stop words of a file, or none where no file is named. -/
def stopWords (disk : Disk) : Option String → Except Failure StopWords
  | none => .ok .empty
  | some path => do return .ofText (← disk.text path)

/-- The sentences of a file. -/
def sentences (disk : Disk) : String → Except Failure (List Sentence) :=
  disk.parse (Json.asList Sentence.ofJson) .parsingSentences

end Disk

/-- What a command comes to. -/
inductive Effect where
  /-- A text is printed. -/
  | print (text : String)
  /-- A file is written. -/
  | save (path : String) (bytes : ByteArray)

namespace Command

/-- The archive of a pattern set that forms a grammar. -/
def compileSet (set : PatternSet) : Except Failure ByteArray :=
  match Registry.ofSet set with
  | .ok _ => .ok ⟨(Archive.encodePatterns set).toArray⟩
  | .error cause => .error (.failedValidation cause)

/-- The result of an extraction: the report on every sentence that was searched to the end. -/
def extractReport (disk : Disk) (job : ExtractionJob) : Except Failure Json := do
  let registry ← disk.registry job.patterns
  let options ← disk.options job
  let stopWords ← disk.stopWords job.stopWords
  let sentences ← disk.sentences job.sentences
  return Extractor.report { registry, options, stopWords } sentences

/-- What a command comes to with those files. -/
def run (disk : Disk) : Command → Except Failure Effect
  | .compile input output => do
    return .save output (← compileSet (← disk.patternText input))
  | .extract job => do
    let text := (← extractReport disk job).pretty
    -- A line that is printed ends with a newline, a file does not.
    match job.output with
    | some path => return .save path text.toUTF8
    | none => return .print (text ++ "\n")
  | .inspect path => do
    let registry ← disk.registry path
    if registry.isEmpty then .error (.noPatterns path)
    else return .print registry.summary

end Command

end PhraseGrammar.CommandLine
