import PhraseGrammar.Json.Basic

/-! The lexemes of a JSON text. -/

namespace PhraseGrammar

/-- The smallest parts of a JSON text; `broken` stands for the first place that holds none of them. -/
inductive Lexeme where
  | openArray
  | closeArray
  | openObject
  | closeObject
  | comma
  | colon
  | null
  | bool (value : Bool)
  | number (value : Decimal)
  | string (text : Option String)
  | broken

namespace Lexeme

/-- The four characters that may stand between lexemes. -/
def isSpace (c : Char) : Bool :=
  c = ' ' || c = '\t' || c = '\n' || c = '\r'

/-- The number that the leading digits write as far as it fits 64 bits, and how many are left out. -/
def leadingWord (value : Nat) : List Char → Nat × Nat
  | [] => (value, 0)
  | c :: digits =>
    let grown := 10 * value + (c.toNat - '0'.toNat)
    if grown < UInt64.size then leadingWord grown digits else (value, digits.length + 1)

/-- The number that decimal digits write; of one beyond 64 bits only the leading digits count. -/
def digitsValue (digits : List Char) : Nat :=
  (leadingWord 0 digits).1

/-- The exponent that the end of a numeral writes: nothing, or a mark, a sign and digits.
Beyond 64 bits its leading digits are far out of range as well. -/
def exponent? : List Char → Option (Option Int)
  | [] => some none
  | mark :: rest =>
    if mark = 'e' || mark = 'E' then
      let (negative, digits) := match rest with
        | '-' :: digits => (true, digits)
        | '+' :: digits => (false, digits)
        | digits => (false, digits)
      if digits.isEmpty || !digits.all Char.isDigit then none
      else some (some (if negative then -(digitsValue digits : Int) else digitsValue digits))
    else none

/-- The fraction digits that follow the whole part of a numeral, and what comes after them. -/
def fraction? : List Char → Option (List Char × List Char)
  | '.' :: rest =>
    let digits := rest.takeWhile Char.isDigit
    -- A point needs a digit after it.
    if digits.isEmpty then none else some (digits, rest.dropWhile Char.isDigit)
  | rest => some ([], rest)

/-- The numeral that the characters write; a whole part starts with a zero only if it is zero. -/
def numeral? (chars : List Char) : Option Decimal :=
  let (negative, body) := match chars with
    | '-' :: body => (true, body)
    | body => (false, body)
  let whole := body.takeWhile Char.isDigit
  if whole.isEmpty || (whole.head? = some '0' && whole.length ≠ 1) then none
  else match fraction? (body.dropWhile Char.isDigit) with
    | none => none
    | some (fraction, rest) =>
      match exponent? rest with
      | none => none
      | some exponent =>
        let (digits, omitted) := leadingWord 0 (whole ++ fraction)
        some {
          negative
          digits
          exponent := exponent.getD 0 - fraction.length + omitted
          integral := fraction.isEmpty && exponent.isNone && omitted = 0 }

/-- The literal of that spelling. -/
def literal? (chars : List Char) : Option Lexeme :=
  if chars = ['n', 'u', 'l', 'l'] then some .null
  else if chars = ['t', 'r', 'u', 'e'] then some (.bool true)
  else if chars = ['f', 'a', 'l', 's', 'e'] then some (.bool false)
  else none

/-- The character that a backslash and this letter write. -/
def escaped? (c : Char) : Option Char :=
  if c = '"' || c = '\\' || c = '/' then some c
  else if c = 'b' then some '\x08'
  else if c = 'f' then some '\x0c'
  else if c = 'n' then some '\n'
  else if c = 'r' then some '\r'
  else if c = 't' then some '\t'
  else none

/-- The value of a hexadecimal digit. -/
def hexDigit? (c : Char) : Option Nat :=
  if c.isDigit then some (c.toNat - '0'.toNat)
  else if 'a' ≤ c && c ≤ 'f' then some (c.toNat - 'a'.toNat + 10)
  else if 'A' ≤ c && c ≤ 'F' then some (c.toNat - 'A'.toNat + 10)
  else none

/-- The number that four hexadecimal digits write. -/
def hexValue? (a b c d : Char) : Option Nat :=
  match hexDigit? a, hexDigit? b, hexDigit? c, hexDigit? d with
  | some a, some b, some c, some d => some (4096 * a + 256 * b + 16 * c + d)
  | _, _, _, _ => none

/-- What a text has come to between its quotes. -/
structure Draft where
  /-- The characters so far, the last one first. -/
  chars : List Char := []
  /-- The first half of a surrogate pair, when the second half has to follow at once. -/
  half : Option Nat := none
  /-- Whether every half of a pair so far has met the other half. -/
  paired : Bool := true

namespace Draft

/-- The text with one more character, which leaves an open pair unpaired. -/
def push (draft : Draft) (c : Char) : Draft :=
  { chars := c :: draft.chars, paired := draft.paired && draft.half.isNone }

/-- The text with the code unit of one more escape. -/
def pushUnit (draft : Draft) (unit : Nat) : Draft :=
  if 0xD800 ≤ unit && unit < 0xDC00 then
    { draft with half := some unit, paired := draft.paired && draft.half.isNone }
  else if 0xDC00 ≤ unit && unit < 0xE000 then
    match draft.half with
    | some half =>
      { draft with
        chars := Char.ofNat (0x10000 + 1024 * (half - 0xD800) + (unit - 0xDC00)) :: draft.chars
        half := none }
    | none => { draft with paired := false }
  else draft.push (Char.ofNat unit)

/-- The finished text, or none if a half of a pair was left alone. -/
def finish (draft : Draft) : Option String :=
  if draft.paired && draft.half.isNone then some (String.ofList draft.chars.reverse) else none

end Draft

/-- The text up to the closing quote, and what follows it. -/
def scanText (draft : Draft) : List Char → Option (Option String × List Char)
  | [] => none
  | '"' :: rest => some (draft.finish, rest)
  | '\\' :: 'u' :: a :: b :: c :: d :: rest =>
    match hexValue? a b c d with
    | none => none
    | some unit => scanText (draft.pushUnit unit) rest
  | '\\' :: c :: rest =>
    match escaped? c with
    | none => none
    | some c => scanText (draft.push c) rest
  | c :: rest =>
    -- Control characters have to be escaped.
    if c.toNat < 0x20 then none else scanText (draft.push c) rest

/-- Whether a character can stand in a numeral. -/
def isNumeralChar (c : Char) : Bool :=
  c.isDigit || c = '-' || c = '+' || c = '.' || c = 'e' || c = 'E'

/-- The lexeme that starts with the first character, and what follows it. -/
def scan (first : Char) (rest : List Char) : Option (Lexeme × List Char) :=
  if first = '[' then some (.openArray, rest)
  else if first = ']' then some (.closeArray, rest)
  else if first = '\x7b' then some (.openObject, rest)
  else if first = '\x7d' then some (.closeObject, rest)
  else if first = ',' then some (.comma, rest)
  else if first = ':' then some (.colon, rest)
  else if first = '"' then (scanText {} rest).map fun scanned => (.string scanned.1, scanned.2)
  else if first.isDigit || first = '-' then
    (numeral? (first :: rest.takeWhile isNumeralChar)).map fun value =>
      (.number value, rest.dropWhile isNumeralChar)
  else
    (literal? (first :: rest.takeWhile Char.isAlpha)).map fun literal =>
      (literal, rest.dropWhile Char.isAlpha)

/-- Scanning a text uses up characters. -/
theorem scanText_length {draft : Draft} {chars rest : List Char} {text : Option String}
    (scanned : scanText draft chars = some (text, rest)) : rest.length ≤ chars.length := by
  fun_induction scanText draft chars generalizing text rest <;>
    try simp only [List.length_cons]
  all_goals grind

/-- Scanning a lexeme uses up characters. -/
theorem scan_length {first : Char} {chars rest : List Char} {lexeme : Lexeme}
    (scanned : scan first chars = some (lexeme, rest)) : rest.length ≤ chars.length := by
  have drop (p : Char → Bool) : (chars.dropWhile p).length ≤ chars.length :=
    (List.dropWhile_suffix p).length_le
  unfold scan at scanned
  repeat' split at scanned
  all_goals
    simp only [Option.map_eq_some_iff, Option.some.injEq, Prod.mk.injEq] at scanned
  all_goals first
    | exact scanned.2 ▸ Nat.le_refl _
    | (obtain ⟨found, left, -, rfl⟩ := scanned; first | exact drop _ | exact scanText_length left)

/-- Spaces and the first character after them are gone when a lexeme has been scanned. -/
theorem skip_scan_length {first : Char} {chars rest left : List Char} {lexeme : Lexeme}
    (skipped : chars.dropWhile isSpace = first :: rest)
    (scanned : scan first rest = some (lexeme, left)) : left.length < chars.length := by
  have shorter := (List.dropWhile_suffix (l := chars) isSpace).length_le
  have fewer := scan_length scanned
  rw [skipped, List.length_cons] at shorter
  omega

/-- The lexemes of a text, up to the first place that holds none. -/
def ofChars (chars : List Char) : List Lexeme :=
  match skipped : chars.dropWhile isSpace with
  | [] => []
  | first :: rest =>
    match scanned : scan first rest with
    | none => [.broken]
    | some (lexeme, left) =>
      have : left.length < chars.length := skip_scan_length skipped scanned
      lexeme :: ofChars left
termination_by chars.length

end Lexeme

end PhraseGrammar
