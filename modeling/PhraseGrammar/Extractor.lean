import PhraseGrammar.Phrase
import PhraseGrammar.Registry
import PhraseGrammar.Search
import PhraseGrammar.StopWords
import PhraseGrammar.Surroundings

/-! What the searches for phrases share: which tokens can take part. -/

namespace PhraseGrammar

namespace Registry

/-- Whether a token could fill some slot: it is a word, and some pattern uses its part of speech. -/
def isUsable (registry : Registry) (token : Token) : Bool :=
  !token.readings.isEmpty && !(Text.trim token.text).isEmpty && !token.isMisclassified &&
    !token.isAnalysisError && token.readings.any fun reading => registry.isUsedPos reading.pos

/-- Whether a token could fill some head slot. -/
def isHeadCandidate (registry : Registry) (token : Token) : Bool :=
  token.readings.any fun reading => registry.isHeadPos reading.pos

end Registry

/-- A grammar with the options and the stop words to search by. -/
structure Extractor where
  /-- The grammar. -/
  registry : Registry
  /-- The options. -/
  options : MatchOptions
  /-- The stop words. -/
  stopWords : StopWords

namespace Extractor

/-- Whether a token is to be left out as a stop word. -/
def isStopWord (extractor : Extractor) (token : Token) : Bool :=
  extractor.options.cleanStopWords && extractor.stopWords.contains token

/-- Whether a token can take part in phrases. -/
def admits (extractor : Extractor) (token : Token) : Bool :=
  extractor.registry.isUsable token && !extractor.isStopWord token

/-- What lies around each place of a sentence. -/
def surroundings (extractor : Extractor) (sentence : Sentence) : Surroundings :=
  .ofSentence extractor.admits sentence

end Extractor

end PhraseGrammar
