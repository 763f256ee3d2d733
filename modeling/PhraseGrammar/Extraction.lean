import PhraseGrammar.BoundaryReduction
import PhraseGrammar.CompositePass
import PhraseGrammar.LeafPass

/-! The extraction of phrases from a sentence: both passes under one budget. -/

namespace PhraseGrammar

/-- The phrases of a sentence. -/
structure Extraction where
  /-- The phrases of words. -/
  simple : List Phrase
  /-- The phrases of phrases. -/
  complex : List Phrase

/-- Whether no phrase was found. -/
def Extraction.isEmpty (extraction : Extraction) : Bool :=
  extraction.simple.isEmpty && extraction.complex.isEmpty

namespace Extractor

/-- An extractor, if its options can be used. -/
def create (registry : Registry) (options : MatchOptions) (stopWords : StopWords) :
    Except OptionsError Extractor :=
  match options.fault? with
  | some fault => .error fault
  | none => .ok { registry, options, stopWords }

/-- The phrases of phrases that are kept. -/
def reduce (extractor : Extractor) (phrases : List Phrase) : List Phrase :=
  if extractor.options.validateBoundaries then Phrase.reduceBoundaries phrases else phrases

/-- Both passes one after the other. -/
def search (extractor : Extractor) (sentence : Sentence) : Search Extraction := do
  let simple ← extractor.leafPass sentence
  let complex ← extractor.compositePass sentence simple
  return ⟨simple, extractor.reduce complex⟩

/-- The phrases of a sentence, if they are found within the budget that the options allow. -/
def extract (extractor : Extractor) (sentence : Sentence) : Except SearchAbort Extraction :=
  match (extractor.search sentence).run (.ofOptions extractor.options) with
  | .ok extraction _ => .ok extraction
  | .error abort _ => .error abort

end Extractor

end PhraseGrammar
