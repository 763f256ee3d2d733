import PhraseGrammar.Extraction
import PhraseGrammar.Json.Basic

/-! The JSON form of extracted phrases. -/

namespace PhraseGrammar

/-- A phrase: its positions, its text, its pattern and the key that groups its occurrences. -/
def Phrase.toJson (phrase : Phrase) : Json :=
  .record [
    ("start", .nat phrase.span.first),
    ("end", .nat phrase.span.last),
    ("text", .text phrase.text),
    ("pattern", .text phrase.pattern),
    ("key", .text phrase.key)]

/-- The phrases of a sentence under the numbers of that sentence. -/
def Extraction.toJson (extraction : Extraction) (sentence : Sentence) : Json :=
  .record [
    ("document", .nat sentence.document.toNat),
    ("sentence", .nat sentence.id.toNat),
    ("simple", .array (extraction.simple.map Phrase.toJson)),
    ("complex", .array (extraction.complex.map Phrase.toJson))]

namespace Extractor

/-- The phrases of every sentence in order; a sentence whose search is cut off is skipped. -/
def report (extractor : Extractor) (sentences : List Sentence) : Json :=
  .array (sentences.filterMap fun sentence =>
    match extractor.extract sentence with
    | .ok extraction => some (extraction.toJson sentence)
    | .error _ => none)

end Extractor

end PhraseGrammar
