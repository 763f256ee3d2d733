import PhraseGrammar.Text.Lowercase.Table

/-! Lowercasing maps every character by the Unicode case tables, and a capital sigma by its place. -/

namespace PhraseGrammar.Text

/-- Whether a code point lies in one of the ranges. -/
def inRanges (ranges : List (Nat × Nat)) (code : Nat) : Bool :=
  ranges.any fun range => range.1 ≤ code && code ≤ range.2

/-- The lower case of a code point, where a run of the table gives one. -/
def lowerCode? (code : Nat) : List CaseRun → Option Nat
  | [] => none
  | run :: rest =>
    -- The runs are in code point order, so none that starts later can hold the code point.
    if code < run.first then none
    else if code ≤ run.last && (code - run.first) % run.stride = 0 then
      some (run.lower + (code - run.first))
    else lowerCode? code rest

/-- Whether the nearest character that the final sigma rule does not look past has case. -/
def meetsCased (chars : List Char) : Bool :=
  match (chars.dropWhile fun c => inRanges caseIgnorableRanges c.toNat).head? with
  | none => false
  | some c => inRanges casedRanges c.toNat

/-- The lower case of one character, given the characters before it, nearest first, and after it. -/
def lowerChar (before : List Char) (c : Char) (after : List Char) : List Char :=
  -- A capital sigma ends a word when a cased character stands before it and none after it.
  if c = 'Σ' then [if meetsCased before && !meetsCased after then 'ς' else 'σ']
  -- A capital i with a dot keeps its dot as a combining character.
  else if c = 'İ' then ['i', '\u0307']
  else match lowerCode? c.toNat caseRuns with
    | none => [c]
    | some code => [Char.ofNat code]

/-- The lower case of the characters that follow those of `before`, which stand nearest first. -/
def lowerFrom (before : List Char) : List Char → List Char
  | [] => []
  | c :: after => lowerChar before c after ++ lowerFrom (c :: before) after

/-- The lower case of a text. -/
def lowercase (text : String) : String :=
  String.ofList (lowerFrom [] text.toList)

end PhraseGrammar.Text
