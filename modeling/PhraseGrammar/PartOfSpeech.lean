import PhraseGrammar.Text.Blank

/-! The universal parts of speech and their names. -/

namespace PhraseGrammar

/-- A universal part of speech. -/
inductive PartOfSpeech where
  | noun
  | properNoun
  | adjective
  | verb
  | adverb
  | adposition
  | auxiliary
  | coordinatingConjunction
  | subordinatingConjunction
  | determiner
  | interjection
  | numeral
  | particle
  | pronoun
  | punctuation
  | symbol
  | other
deriving DecidableEq, Repr

namespace PartOfSpeech

/-- Every part of speech once, in their fixed order. -/
def all : List PartOfSpeech :=
  [.noun, .properNoun, .adjective, .verb, .adverb, .adposition, .auxiliary,
    .coordinatingConjunction, .subordinatingConjunction, .determiner, .interjection, .numeral,
    .particle, .pronoun, .punctuation, .symbol, .other]

/-- The name of a part of speech, in capitals. -/
def name : PartOfSpeech → String
  | .noun => "NOUN"
  | .properNoun => "PROPN"
  | .adjective => "ADJ"
  | .verb => "VERB"
  | .adverb => "ADV"
  | .adposition => "ADP"
  | .auxiliary => "AUX"
  | .coordinatingConjunction => "CCONJ"
  | .subordinatingConjunction => "SCONJ"
  | .determiner => "DET"
  | .interjection => "INTJ"
  | .numeral => "NUM"
  | .particle => "PART"
  | .pronoun => "PRON"
  | .punctuation => "PUNCT"
  | .symbol => "SYM"
  | .other => "X"

/-- The position of a part of speech in the fixed order. -/
def code (pos : PartOfSpeech) : Nat :=
  all.idxOf pos

/-- The part of speech with exactly that name. -/
def ofName? (name : String) : Option PartOfSpeech :=
  all.find? fun pos => pos.name = name

/-- The part of speech with that name, whatever the case of its ASCII letters and the blanks around. -/
def parse? (text : String) : Option PartOfSpeech :=
  -- Only ASCII letters change case here, so no other character can stand for one.
  ofName? (String.ofList ((Text.trimChars text.toList).map Char.toUpper))

/-- The wording for a text that names no part of speech. -/
def unknownMessage (text : String) : String :=
  "Unknown part of speech: '" ++ text ++ "'"

/-- No part of speech is missing from the list of all. -/
theorem mem_all (pos : PartOfSpeech) : pos ∈ all := by
  cases pos <;> decide

end PartOfSpeech

end PhraseGrammar
