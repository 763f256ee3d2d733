import PhraseGrammar.Json.Document
import PhraseGrammar.Morphology.FeatureString

/-! Reading typed values: the first fault in the order of the text is the one that counts. -/

namespace PhraseGrammar

/-- Why a JSON value is not a value of the wanted type. -/
inductive JsonFault where
  /-- The shape is wrong, or the text is no JSON. -/
  | shape
  /-- A feature string is refused. -/
  | tag (reason : Morphology.TagError)
deriving DecidableEq, Repr

/-- A value of the wanted type, or the fault that was met first. -/
abbrev Decoded (α : Type) := Except JsonFault α

namespace Json

/-- A truth value. -/
def asBool : Json → Decoded Bool
  | .bool value => .ok value
  | _ => .error .shape

/-- A text. -/
def asString : Json → Decoded String
  | .string (some text) => .ok text
  | _ => .error .shape

/-- A text, or null for none. -/
def asOptionalString : Json → Decoded (Option String)
  | .null => .ok none
  | .string (some text) => .ok (some text)
  | _ => .error .shape

/-- A natural number below a limit, written without sign, fraction and exponent. -/
def asNatBelow (limit : Nat) : Json → Decoded Nat
  | .number value =>
    match value.toNat? with
    | some n => if n < limit then .ok n else .error .shape
    | none => .error .shape
  | _ => .error .shape

/-- A number of 32 bits. -/
def asWord (value : Json) : Decoded UInt32 := do
  return UInt32.ofNat (← asNatBelow UInt32.size value)

/-- A name out of a fixed list: a text, or an object with the name alone and null for its value.
In a value that is kept before it is read, an empty object also stands for that null. -/
def asName (kept : Bool) : Json → Decoded String
  | .string (some name) => .ok name
  | .object [(some name, .null)] => .ok name
  | .object [(some name, .object [])] => if kept then .ok name else .error .shape
  | _ => .error .shape

/-- Every item in order. -/
def decodeItems {α : Type} (decode : Json → Decoded α) : List Json → Decoded (List α)
  | [] => .ok []
  | item :: items => do
    let first ← decode item
    let rest ← decodeItems decode items
    return first :: rest

/-- A list of values. -/
def asList {α : Type} (decode : Json → Decoded α) : Json → Decoded (List α)
  | .array items => decodeItems decode items
  | _ => .error .shape

/-- The items of an array under the names of the fields; an item too many is a fault. -/
def labelled : List String → List Json → List (Option String × Json)
  | _, [] => []
  | [], _ :: _ => [(none, .broken)]
  | field :: fields, item :: items => (some field, item) :: labelled fields items

/-- The members of a record, which may also be written as an array of its fields. -/
def membersOf (fields : List String) : Json → List (Option String × Json)
  | .object members => members
  | .array items => labelled fields items
  | _ => [(none, .broken)]

/-- Reads the members in order into a record: a field comes once at most, other members are skipped. -/
def fill {α : Type} (fields : List String) (set : α → String → Json → Decoded α)
    (seen : List String) (record : α) : List (Option String × Json) → Decoded (List String × α)
  | [] => .ok (seen, record)
  | (none, _) :: _ => .error .shape
  | (some name, value) :: members =>
    if name ∈ fields then
      if name ∈ seen then .error .shape
      else do
        let grown ← set record name value
        fill fields set (name :: seen) grown members
    -- What is skipped still has to be JSON.
    else if value.intact then fill fields set seen record members
    else .error .shape

/-- A record: it starts from the defaults, and the required fields have to be there. -/
def asRecord {α : Type} (fields required : List String) (defaults : α)
    (set : α → String → Json → Decoded α) (value : Json) : Decoded α := do
  let (seen, record) ← fill fields set [] defaults (membersOf fields value)
  if required.all (· ∈ seen) then return record
  else .error .shape

/-- A feature string. -/
def asTag (value : Json) : Decoded Morphology.Tag := do
  let text ← asString value
  match Morphology.Tag.parse text with
  | .ok tag => return tag
  | .error reason => .error (.tag reason)

/-- Reads a whole text as a value of the wanted type. -/
def decodeText {α : Type} (decode : Json → Decoded α) (text : String) : Decoded α := do
  let document := Document.ofText text
  let value ← decode document.root
  -- What follows the value is looked at last.
  if document.complete then return value
  else .error .shape

end Json

end PhraseGrammar
