import PhraseGrammar.Sentence
import PhraseGrammar.Text.Blank
import PhraseGrammar.Text.Lowercase
import PhraseGrammar.Text.Split
import Std.Data.ExtHashSet

/-! Stop words are compared in lower case, with the word of a token and with its dictionary form. -/

namespace PhraseGrammar

/-- A set of words in lower case. -/
structure StopWords where
  /-- The words. -/
  words : Std.ExtHashSet String

namespace StopWords

/-- The set without a word. -/
def empty : StopWords :=
  ⟨∅⟩

/-- The set with one more word, of which the lower case counts. -/
def insert (stopWords : StopWords) (word : String) : StopWords :=
  ⟨stopWords.words.insert (Text.lowercase word)⟩

/-- The set of the words of a list. -/
def ofList (words : List String) : StopWords :=
  words.foldl insert empty

/-- The word on a line: what stands before a number sign, without the blanks around it. -/
def wordOfLine (line : List Char) : List Char :=
  Text.trimChars (line.takeWhile (· ≠ '#'))

/-- The words of a text with one word on a line; lines without a word are skipped. -/
def wordsOfText (text : String) : List String :=
  ((Text.lines text.toList).map wordOfLine).filterMap fun word =>
    if word.isEmpty then none else some (String.ofList word)

/-- The set that a text lists. -/
def ofText (text : String) : StopWords :=
  ⟨.ofList ((wordsOfText text).map Text.lowercase)⟩

/-- The number of words. -/
def size (stopWords : StopWords) : Nat :=
  stopWords.words.size

/-- Whether there is no word. -/
def isEmpty (stopWords : StopWords) : Bool :=
  stopWords.words.isEmpty

/-- Whether the word of a token or its dictionary form is in the set. -/
def contains (stopWords : StopWords) (token : Token) : Bool :=
  stopWords.words.contains (Text.lowercase token.text) ||
    stopWords.words.contains (Text.lowercase token.baseForm)

end StopWords

end PhraseGrammar
