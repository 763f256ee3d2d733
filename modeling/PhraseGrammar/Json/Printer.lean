import PhraseGrammar.Json.Basic

/-! JSON values as text, on one line or laid out over several. -/

namespace PhraseGrammar.Json

/-- A hexadecimal digit in lower case. -/
def hexDigit (value : Nat) : Char :=
  Nat.digitChar value

/-- A character of a text: quotes, backslashes and control characters are escaped, nothing else. -/
def escape (c : Char) : List Char :=
  if c = '"' then ['\\', '"']
  else if c = '\\' then ['\\', '\\']
  else if c = '\x08' then ['\\', 'b']
  else if c = '\x0c' then ['\\', 'f']
  else if c = '\n' then ['\\', 'n']
  else if c = '\r' then ['\\', 'r']
  else if c = '\t' then ['\\', 't']
  else if c.toNat < 0x20 then
    ['\\', 'u', '0', '0', hexDigit (c.toNat / 16), hexDigit (c.toNat % 16)]
  else [c]

/-- A text between quotes. -/
def quote (text : String) : String :=
  "\"" ++ String.ofList (text.toList.flatMap escape) ++ "\""

/-- A text or a name; one with half of a surrogate pair is written as such a half. -/
def quoted : Option String → String
  | some text => quote text
  | none => "\"\\ud800\""

/-- A numeral, with an exponent only if it has one. -/
def numeral (value : Decimal) : String :=
  let sign := if value.negative then "-" else ""
  let mark := if value.exponent = 0 then "" else "e" ++ toString value.exponent
  sign ++ toString value.digits ++ mark

mutual

/-- A value on one line without spaces. -/
def compact : Json → String
  | .null => "null"
  | .bool value => if value then "true" else "false"
  | .number value => numeral value
  | .string text => quoted text
  | .array items => "[" ++ ",".intercalate (compactItems items) ++ "]"
  | .object members => "\x7b" ++ ",".intercalate (compactMembers members) ++ "\x7d"
  | .deep => "[]"
  | .broken => ""

/-- Every item on one line. -/
def compactItems : List Json → List String
  | [] => []
  | item :: items => compact item :: compactItems items

/-- Every member on one line. -/
def compactMembers : List (Option String × Json) → List String
  | [] => []
  | (name, value) :: members => (quoted name ++ ":" ++ compact value) :: compactMembers members

end

/-- A line break and the indentation of a depth: two spaces for each container. -/
def lineBreak (depth : Nat) : String :=
  "\n" ++ String.ofList (List.replicate (2 * depth) ' ')

/-- Lines between an opening and a closing mark; an empty container has none. -/
def layout (opening closing : String) (depth : Nat) : List String → String
  | [] => opening ++ closing
  | lines =>
    let inner := lineBreak (depth + 1)
    opening ++ inner ++ ("," ++ inner).intercalate lines ++ lineBreak depth ++ closing

mutual

/-- A value with every item and member on a line of its own, inside that many containers. -/
def prettyAt (depth : Nat) : Json → String
  | .null => "null"
  | .bool value => if value then "true" else "false"
  | .number value => numeral value
  | .string text => quoted text
  | .array items => layout "[" "]" depth (prettyItems (depth + 1) items)
  | .object members => layout "\x7b" "\x7d" depth (prettyMembers (depth + 1) members)
  | .deep => "[]"
  | .broken => ""

/-- Every item, inside that many containers. -/
def prettyItems (depth : Nat) : List Json → List String
  | [] => []
  | item :: items => prettyAt depth item :: prettyItems depth items

/-- Every member, inside that many containers. -/
def prettyMembers (depth : Nat) : List (Option String × Json) → List String
  | [] => []
  | (name, value) :: members =>
    (quoted name ++ ": " ++ prettyAt depth value) :: prettyMembers depth members

end

/-- A value laid out over lines with an indentation of two spaces. -/
def pretty (value : Json) : String :=
  prettyAt 0 value

end PhraseGrammar.Json
