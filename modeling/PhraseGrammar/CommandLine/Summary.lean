import PhraseGrammar.Registry

/-! A registry described in lines of text. -/

namespace PhraseGrammar

/-- The names of parts of speech on one line. -/
def PartOfSpeech.listed (parts : List PartOfSpeech) : String :=
  ", ".intercalate (parts.map PartOfSpeech.name)

namespace Registry

/-- A pattern with its number, what its slots take, how many there are, and its depth. -/
def describe (registry : Registry) (pattern : Pattern) (id : Nat) : String :=
  "  [" ++ toString id ++ "] " ++ pattern.name ++ " (" ++ pattern.kind.name ++ ", " ++
    toString pattern.length ++ " slots, depth " ++
    toString ((registry.nestingDepth? id).getD 0) ++ ")"

/-- The counts, the parts of speech, and then every pattern. -/
def summaryLines (registry : Registry) : List String :=
  [ "patterns:   " ++ toString registry.size,
    "leaf:       " ++ toString registry.leafPatterns.length,
    "composite:  " ++ toString registry.compositePatterns.length,
    "head POS:   " ++ PartOfSpeech.listed registry.headPos,
    "used POS:   " ++ PartOfSpeech.listed registry.usedPos ] ++
  registry.patterns.zipIdx.map fun (pattern, id) => registry.describe pattern id

/-- The description, with a newline after every line. -/
def summary (registry : Registry) : String :=
  String.join (registry.summaryLines.map (· ++ "\n"))

end Registry

end PhraseGrammar
