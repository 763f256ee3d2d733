import PhraseGrammar.Json.Decode
import PhraseGrammar.Sentence

/-! The JSON form of sentences. -/

namespace PhraseGrammar

/-- A part of speech by its name in capitals. -/
def PartOfSpeech.ofJson (kept : Bool) (value : Json) : Decoded PartOfSpeech := do
  match PartOfSpeech.ofName? (← value.asName kept) with
  | some pos => return pos
  | none => .error .shape

/-- A confidence; a number beyond double precision is none. -/
def Confidence.ofJson : Json → Decoded Confidence
  | .number value =>
    match Confidence.ofDecimal? value with
    | some confidence => .ok confidence
    | none => .error .shape
  | _ => .error .shape

namespace Reading

/-- One field of a reading. -/
def setField (reading : Reading) (field : String) (value : Json) : Decoded Reading :=
  match field with
  | "pos" => do return { reading with pos := ← PartOfSpeech.ofJson false value }
  | "tag" => do return { reading with tag := ← value.asTag }
  | "lemma" => do return { reading with baseForm := .ofText (← value.asString) }
  | _ => do return { reading with confidence := ← Confidence.ofJson value }

/-- A reading; attributes may be left out, and the confidence is one where none is stated. -/
def ofJson : Json → Decoded Reading :=
  Json.asRecord ["pos", "tag", "lemma", "confidence"] ["pos", "lemma"]
    ⟨.other, .empty, default, .one⟩ setField

end Reading

namespace Token

/-- One field of a token. -/
def setField (token : Token) (field : String) (value : Json) : Decoded Token :=
  match field with
  | "text" => do return { token with text := ← value.asString }
  | _ => do return { token with readings := ← value.asList Reading.ofJson }

/-- A token, with both its fields. -/
def ofJson : Json → Decoded Token :=
  Json.asRecord ["text", "readings"] ["text", "readings"] ⟨"", []⟩ setField

end Token

namespace Sentence

/-- One field of a sentence. -/
def setField (sentence : Sentence) (field : String) (value : Json) : Decoded Sentence :=
  match field with
  | "document" => do return { sentence with document := ← value.asWord }
  | "id" => do return { sentence with id := ← value.asWord }
  | _ => do return { sentence with tokens := ← value.asList Token.ofJson }

/-- A sentence; its numbers are zero where they are left out. -/
def ofJson : Json → Decoded Sentence :=
  Json.asRecord ["document", "id", "tokens"] ["tokens"] ⟨0, 0, []⟩ setField

end Sentence

end PhraseGrammar
