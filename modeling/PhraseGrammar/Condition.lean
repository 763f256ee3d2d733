import PhraseGrammar.Sentence

/-! What a slot of a pattern demands of the token or the phrase that fills it. -/

namespace PhraseGrammar

open Morphology

/-- The syntactic role of a slot in its pattern. -/
inductive Role where
  | head
  | dependent
  | independent
deriving DecidableEq, Repr

namespace Role

/-- Every role once. -/
def all : List Role :=
  [.head, .dependent, .independent]

/-- The name of a role. -/
def name : Role → String
  | .head => "head"
  | .dependent => "dependent"
  | .independent => "independent"

/-- The role with exactly that name. -/
def ofName? (name : String) : Option Role :=
  all.find? fun role => role.name = name

end Role

/-- Demands beyond the attributes. -/
structure Additional where
  /-- Whether the slot may be filled again by further tokens outwards. -/
  repeats : Bool := false
  /-- The dictionary form that a reading must have. -/
  lexeme : Option BaseForm := none
  /-- Themes, which are kept but rule out no reading. -/
  themes : List String := []
deriving DecidableEq, Repr

namespace Additional

/-- Whether there is neither a lexeme nor a theme; repetition is no demand. -/
def isEmpty (additional : Additional) : Bool :=
  additional.lexeme.isNone && additional.themes.isEmpty

/-- Whether a reading has the wanted dictionary form, letter case aside. -/
def matchesLexeme (additional : Additional) (reading : Reading) : Bool :=
  match additional.lexeme with
  | none => true
  | some lexeme => lexeme.agrees reading.baseForm

/-- Whether a reading has the wanted themes: readings carry none, so that every reading passes. -/
def matchesThemes (_ : Additional) (_ : Reading) : Bool :=
  true

/-- Whether a reading meets all the demands. -/
def matchesReading (additional : Additional) (reading : Reading) : Bool :=
  additional.matchesLexeme reading && additional.matchesThemes reading

end Additional

/-- Everything that a slot demands. -/
structure Condition where
  /-- The role of the slot. -/
  role : Role := .dependent
  /-- The attributes that a reading must have. -/
  tag : Tag := .empty
  /-- The demands beyond the attributes. -/
  additional : Additional := {}
deriving DecidableEq

namespace Condition

/-- The condition of a role that demands nothing. -/
def ofRole (role : Role) : Condition :=
  { role }

/-- The condition with other attributes. -/
def withTag (condition : Condition) (tag : Tag) : Condition :=
  { condition with tag }

/-- The condition with a lexeme. -/
def withLexeme (condition : Condition) (lexeme : String) : Condition :=
  { condition with additional := { condition.additional with lexeme := some (.ofText lexeme) } }

/-- The condition of a slot that may be filled again. -/
def repeated (condition : Condition) : Condition :=
  { condition with additional := { condition.additional with repeats := true } }

/-- Whether the slot has the role of the head. -/
def isHead (condition : Condition) : Bool :=
  condition.role = .head

/-- Whether the slot may be filled again. -/
def isRepeated (condition : Condition) : Bool :=
  condition.additional.repeats

/-- Whether a reading has the wanted attributes. -/
def matchesAttributes (condition : Condition) (reading : Reading) : Bool :=
  condition.tag.accepts reading.tag

/-- Whether a reading meets the whole condition. -/
def matchesReading (condition : Condition) (reading : Reading) : Bool :=
  condition.matchesAttributes reading && condition.additional.matchesReading reading

/-- Whether a token has readings, and all of them have the part of speech and meet the condition. -/
def matchesToken (condition : Condition) (pos : PartOfSpeech) (token : Token) : Bool :=
  !token.readings.isEmpty &&
    token.readings.all fun reading => reading.pos = pos && condition.matchesReading reading

/-- The first reading that has the wanted attributes, whatever its part of speech. -/
def acceptedReading? (condition : Condition) (token : Token) : Option Reading :=
  token.readings.find? condition.matchesAttributes

/-- The index of the first reading that has the wanted attributes. -/
def acceptedIndex? (condition : Condition) (token : Token) : Option Nat :=
  token.readings.findIdx? condition.matchesAttributes

/-- Whether some reading of a token has the wanted attributes. -/
def acceptsToken (condition : Condition) (token : Token) : Bool :=
  token.readings.any condition.matchesAttributes

end Condition

end PhraseGrammar
