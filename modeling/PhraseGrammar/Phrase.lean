import PhraseGrammar.TokenRow

/-! A phrase is a run of tokens that a pattern has been found in. -/

namespace PhraseGrammar

/-- An occurrence of a pattern in a sentence. -/
structure Phrase where
  /-- Where the phrase stands. -/
  span : Span
  /-- Its tokens. -/
  row : TokenRow
  /-- The name of the pattern. -/
  pattern : String
  /-- The number of the document. -/
  document : UInt32
  /-- The number of the sentence. -/
  sentence : UInt32
  /-- The position of the head, where one is known. -/
  head : Option Nat
deriving BEq

namespace Phrase

/-- The phrase of one token of a sentence, which is its head. -/
def ofToken (sentence : Sentence) (token : Token) (position : Nat) (pattern : String) : Phrase where
  span := ⟨position, position⟩
  row := .single token
  pattern
  document := sentence.document
  sentence := sentence.id
  head := some position

/-- The phrase of the token at a position, if the sentence has that position. -/
def anchor? (sentence : Sentence) (position : Nat) (pattern : String) : Option Phrase :=
  sentence.tokens[position]?.map fun token => ofToken sentence token position pattern

/-- The same phrase as an occurrence of another pattern. -/
def relabel (phrase : Phrase) (pattern : String) : Phrase :=
  { phrase with pattern }

/-- The tokens in text order. -/
def tokens (phrase : Phrase) : List Token :=
  phrase.row.toList

/-- The words of the tokens with spaces between them. -/
def text (phrase : Phrase) : String :=
  phrase.row.text

/-- The number of tokens. -/
def length (phrase : Phrase) : Nat :=
  phrase.row.length

/-- The phrase with one more token on a side. -/
def push (phrase : Phrase) (side : Side) (position : Nat) (token : Token) : Phrase :=
  { phrase with
    span := phrase.span.stretch side position
    row := phrase.row.push side token }

/-- The phrase with all the tokens of a neighbour on a side. -/
def absorb (phrase : Phrase) (side : Side) (other : Phrase) : Phrase :=
  { phrase with
    span := phrase.span.stretch side (other.span.reach side)
    row := phrase.row.absorb side other.row }

/-- The dictionary forms of the tokens. -/
def baseForms (phrase : Phrase) : List String :=
  phrase.tokens.map Token.baseForm

/-- The dictionary forms with spaces between them, to group occurrences by. -/
def key (phrase : Phrase) : String :=
  " ".intercalate phrase.baseForms

/-- Whether two phrases have the same pattern and the same dictionary forms. -/
def samePhrase (a b : Phrase) : Bool :=
  a.pattern = b.pattern && a.baseForms = b.baseForms

/-- The phrases that do not read like the one just before them, which for the first one is given. -/
def dropEchoesAfter (previous : Option Phrase) (phrases : List Phrase) : List Phrase :=
  ((previous :: phrases.map some).zip phrases).filterMap fun pair =>
    if pair.1.any fun before => before.row.readsLike pair.2.row then none else some pair.2

/-- The phrases that do not read like the one just before them. -/
def dropEchoes (phrases : List Phrase) : List Phrase :=
  dropEchoesAfter none phrases

/-- Of no phrases none is dropped. -/
theorem dropEchoesAfter_nil (previous : Option Phrase) : dropEchoesAfter previous [] = [] :=
  rfl

/-- A phrase is dropped if it reads like the one before it, and the next one is compared with it. -/
theorem dropEchoesAfter_cons (previous : Option Phrase) (phrase : Phrase) (phrases : List Phrase) :
    dropEchoesAfter previous (phrase :: phrases) =
      if previous.any fun before => before.row.readsLike phrase.row then
        dropEchoesAfter (some phrase) phrases
      else phrase :: dropEchoesAfter (some phrase) phrases := by
  rw [dropEchoesAfter, List.map_cons, List.zip_cons_cons, List.filterMap_cons]
  dsimp only
  by_cases same : previous.any (fun before => before.row.readsLike phrase.row) = true
  · rw [if_pos same, if_pos same]
    rfl
  · rw [if_neg same, if_neg same]
    rfl

end Phrase

end PhraseGrammar
