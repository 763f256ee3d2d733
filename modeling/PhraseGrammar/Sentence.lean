import PhraseGrammar.BaseForm
import PhraseGrammar.Confidence
import PhraseGrammar.Morphology.Tag
import PhraseGrammar.PartOfSpeech

/-! Analysed sentences: every token carries the readings that an analysis left open. -/

namespace PhraseGrammar

/-- One possible analysis of a token. -/
structure Reading where
  /-- The part of speech. -/
  pos : PartOfSpeech
  /-- The morphological attributes. -/
  tag : Morphology.Tag
  /-- The dictionary form. -/
  baseForm : BaseForm
  /-- How sure the analysis is. -/
  confidence : Confidence
deriving BEq

/-- A place in a sentence: the word as it stands there, and its readings. -/
structure Token where
  /-- The word as it stands in the text. -/
  text : String
  /-- The readings, in the order of the analysis. -/
  readings : List Reading
deriving BEq

/-- A sentence of a document. -/
structure Sentence where
  /-- The number of the document. -/
  document : UInt32
  /-- The number of the sentence in its document. -/
  id : UInt32
  /-- The tokens in text order. -/
  tokens : List Token
deriving BEq

namespace Token

/-- The better of two numbered readings; a later one has to be strictly surer. -/
def surer (best next : Reading × Nat) : Reading × Nat :=
  if next.1.confidence.above best.1.confidence then next else best

/-- The surest reading and its index; the first one wins a tie. -/
def surest? (token : Token) : Option (Reading × Nat) :=
  match token.readings.zipIdx with
  | [] => none
  | first :: rest => some (rest.foldl surer first)

/-- The dictionary form of the surest reading, or the word itself without one. -/
def baseForm (token : Token) : String :=
  match token.surest? with
  | some (reading, _) => reading.baseForm.text
  | none => token.text

/-- Whether some reading has that part of speech. -/
def hasPos (token : Token) (pos : PartOfSpeech) : Bool :=
  token.readings.any fun reading => reading.pos = pos

/-- Whether a character is an ASCII punctuation mark. -/
def isPunctuation (c : Char) : Bool :=
  ('!' ≤ c && c ≤ '/') || (':' ≤ c && c ≤ '@') || ('[' ≤ c && c ≤ '\x60') || ('\x7b' ≤ c && c ≤ '~')

/-- Whether the word is made of ASCII digits and punctuation alone, as is an empty one. -/
def isMisclassified (token : Token) : Bool :=
  token.text.toList.all fun c => c.isDigit || isPunctuation c

/-- Whether a single character is analysed as a content word and nothing else. -/
def isAnalysisError (token : Token) : Bool :=
  match token.text.toList, token.readings with
  | [_], [reading] =>
    reading.pos ∈ [.adjective, .noun, .properNoun, .verb]
  | _, _ => false

end Token

namespace Sentence

/-- The number of tokens. -/
def length (sentence : Sentence) : Nat :=
  sentence.tokens.length

/-- Whether there is no token. -/
def isEmpty (sentence : Sentence) : Bool :=
  sentence.tokens.isEmpty

end Sentence

end PhraseGrammar
