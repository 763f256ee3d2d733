import PhraseGrammar.Json.Sentence
import PhraseGrammar.Pattern

/-! The JSON form of pattern sets, read with parts left out and written in full. -/

namespace PhraseGrammar

/-- A role by its name. -/
def Role.ofJson (kept : Bool) (value : Json) : Decoded Role := do
  match Role.ofName? (← value.asName kept) with
  | some role => return role
  | none => .error .shape

namespace Additional

/-- One field of the demands beyond the attributes. -/
def setField (additional : Additional) (field : String) (value : Json) : Decoded Additional :=
  match field with
  | "repeat" => do return { additional with repeats := ← value.asBool }
  | "lexeme" => do return { additional with lexeme := (← value.asOptionalString).map .ofText }
  | _ => do return { additional with themes := ← value.asList Json.asString }

/-- Demands beyond the attributes, none of which has to be stated. -/
def ofJson : Json → Decoded Additional :=
  Json.asRecord ["repeat", "lexeme", "themes"] [] {} setField

/-- The full form of demands beyond the attributes. -/
def toJson (additional : Additional) : Json :=
  .record [
    ("repeat", .bool additional.repeats),
    ("lexeme", additional.lexeme.elim .null fun lexeme => .text lexeme.text),
    ("themes", .array (additional.themes.map .text))]

end Additional

namespace Condition

/-- One field of a condition. -/
def setField (kept : Bool) (condition : Condition) (field : String) (value : Json) :
    Decoded Condition :=
  match field with
  | "role" => do return { condition with role := ← Role.ofJson kept value }
  | "tag" => do return { condition with tag := ← value.asTag }
  | _ => do return { condition with additional := ← Additional.ofJson value }

/-- A condition, of which nothing has to be stated. -/
def ofJson (kept : Bool) : Json → Decoded Condition :=
  Json.asRecord ["role", "tag", "additional"] [] {} (setField kept)

/-- The full form of a condition. -/
def toJson (condition : Condition) : Json :=
  .record [
    ("role", .text condition.role.name),
    ("tag", .text condition.tag.print),
    ("additional", condition.additional.toJson)]

end Condition

namespace WordSlot

/-- One field of a slot for a word. -/
def setField (slot : WordSlot) (field : String) (value : Json) : Decoded WordSlot :=
  match field with
  | "pos" => do return { slot with pos := ← PartOfSpeech.ofJson true value }
  | _ => do return { slot with condition := ← Condition.ofJson true value }

/-- A slot for a word of a stated part of speech. -/
def ofJson : Json → Decoded WordSlot :=
  Json.asRecord ["pos", "condition"] ["pos"] { pos := .other } setField

end WordSlot

namespace ModelSlot

/-- One field of a slot for a phrase. -/
def setField (slot : ModelSlot) (field : String) (value : Json) : Decoded ModelSlot :=
  match field with
  | "pattern" => do return { slot with pattern := ← value.asString }
  | _ => do return { slot with condition := ← Condition.ofJson true value }

/-- A slot for a phrase of a stated pattern. -/
def ofJson : Json → Decoded ModelSlot :=
  Json.asRecord ["pattern", "condition"] ["pattern"] { pattern := "" } setField

end ModelSlot

namespace Component

/-- A slot of the stated kind. -/
def ofKind (kind fields : Json) : Decoded Component := do
  match ← kind.asString with
  | "word" => return .word (← WordSlot.ofJson fields)
  | "model" => return .model (← ModelSlot.ofJson fields)
  | _ => .error .shape

/-- Whether a member states the kind of a slot. -/
def statesKind (member : Option String × Json) : Bool :=
  member.1 = some "slot"

/-- A slot; as its kind may stand anywhere in it, the whole slot has to be sound before it is read. -/
def ofJson (value : Json) : Decoded Component :=
  if !value.keepable then .error .shape
  else match value with
    | .object members =>
      match members.filter statesKind with
      | [(_, kind)] => ofKind kind (.object (members.filter fun member => !statesKind member))
      | _ => .error .shape
    -- In an array the kind comes first.
    | .array (kind :: fields) => ofKind kind (.array fields)
    | _ => .error .shape

/-- The full form of a slot. -/
def toJson : Component → Json
  | .word slot => .record [
      ("slot", .text "word"),
      ("pos", .text slot.pos.name),
      ("condition", slot.condition.toJson)]
  | .model slot => .record [
      ("slot", .text "model"),
      ("pattern", .text slot.pattern),
      ("condition", slot.condition.toJson)]

end Component

namespace Pattern

/-- One field of a pattern. -/
def setField (pattern : Pattern) (field : String) (value : Json) : Decoded Pattern :=
  match field with
  | "name" => do return { pattern with name := ← value.asString }
  | _ => do return { pattern with components := ← value.asList Component.ofJson }

/-- A pattern, with both its fields. -/
def ofJson : Json → Decoded Pattern :=
  Json.asRecord ["name", "components"] ["name", "components"] ⟨"", []⟩ setField

/-- The full form of a pattern. -/
def toJson (pattern : Pattern) : Json :=
  .record [
    ("name", .text pattern.name),
    ("components", .array (pattern.components.map Component.toJson))]

end Pattern

namespace PatternSet

/-- One field of a pattern set. -/
def setField (set : PatternSet) (field : String) (value : Json) : Decoded PatternSet :=
  match field with
  | "version" => do return { set with version := ← value.asWord }
  | _ => do return { set with patterns := ← value.asList Pattern.ofJson }

/-- A pattern set; its version is zero where it is left out. -/
def ofJson : Json → Decoded PatternSet :=
  Json.asRecord ["version", "patterns"] ["patterns"] { patterns := [] } setField

/-- The full form of a pattern set. -/
def toJson (set : PatternSet) : Json :=
  .record [
    ("version", .nat set.version.toNat),
    ("patterns", .array (set.patterns.map Pattern.toJson))]

end PatternSet

end PhraseGrammar
