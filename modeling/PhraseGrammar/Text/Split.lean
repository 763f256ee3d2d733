/-! Splitting a text at every occurrence of one character. -/

namespace PhraseGrammar.Text

/-- The pieces between separators, so that one more piece than separators comes out. -/
def splitChars (separator : Char) : List Char → List (List Char)
  | [] => [[]]
  | c :: rest =>
    if c = separator then [] :: splitChars separator rest
    else
      -- The first piece of the rest goes on with this character.
      match splitChars separator rest with
      | [] => [[c]]
      | piece :: pieces => (c :: piece) :: pieces

/-- A line without the carriage return that ends it. -/
def dropReturn (line : List Char) : List Char :=
  if line.getLast? = some '\r' then line.dropLast else line

/-- The lines among the pieces between newlines: only a line that a newline ends loses its return. -/
def linesOfPieces : List (List Char) → List (List Char)
  | [] => []
  -- Nothing after the last newline is no line.
  | [last] => if last.isEmpty then [] else [last]
  | piece :: next :: rest => dropReturn piece :: linesOfPieces (next :: rest)

/-- The lines of a text: each ends at a newline, and one carriage return before it is dropped. -/
def lines (text : List Char) : List (List Char) :=
  linesOfPieces (splitChars '\n' text)

end PhraseGrammar.Text
