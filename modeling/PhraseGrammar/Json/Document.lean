import PhraseGrammar.Json.Lexeme

/-! A JSON text is read by one walk over its lexemes that keeps the containers still open. -/

namespace PhraseGrammar

/-- A container that is still open, with what it holds so far, the last one first. -/
inductive OpenJson where
  | array (items : List Json)
  | object (members : List (Option String × Json))
  /-- An object whose last name still waits for its value. -/
  | member (members : List (Option String × Json)) (name : Option String)

/-- What has to come next in a text. -/
inductive Expected where
  | value
  /-- The first item of an array, or its end. -/
  | firstItem
  /-- The first name of an object, or its end. -/
  | firstName
  | name
  | colon
  /-- A comma, or the end of the innermost container. -/
  | comma

/-- What a text comes to: its first value, and whether nothing follows it. -/
structure Document where
  root : Json
  complete : Bool

namespace Document

/-- The value of a text that breaks off inside the open containers, the innermost first. -/
def breakOff (inner : Json) : List OpenJson → Json
  | [] => inner
  | .array items :: outer => breakOff (.array (items.reverse ++ [inner])) outer
  | .object members :: outer => breakOff (.object (members.reverse ++ [(none, inner)])) outer
  | .member members name :: outer =>
    breakOff (.object (members.reverse ++ [(name, inner)])) outer

/-- What one lexeme does. -/
inductive Move where
  /-- The text goes on. -/
  | goOn (expected : Expected) (stack : List OpenJson)
  /-- A value has ended inside the open containers. -/
  | value (ended : Json) (stack : List OpenJson)
  /-- The lexeme cannot stand here. -/
  | breakOff

/-- How many arrays and objects may stand inside each other for the innermost to be kept. -/
def deepest : Nat :=
  127

/-- An array or object ends inside the open containers; one too deep can be skipped but not kept. -/
def close (ended : Json) (outer : List OpenJson) : Move :=
  .value (if (outer.drop (deepest - 1)).isEmpty then ended else .deep) outer

/-- What a lexeme does where a value is expected. -/
def startValue (stack : List OpenJson) : Lexeme → Move
  | .null => .value .null stack
  | .bool value => .value (.bool value) stack
  | .number value => .value (.number value) stack
  | .string text => .value (.string text) stack
  | .openArray => .goOn .firstItem (.array [] :: stack)
  | .openObject => .goOn .firstName (.object [] :: stack)
  | _ => .breakOff

/-- What a lexeme does where a name is expected. -/
def startMember (stack : List OpenJson) : Lexeme → Move
  | .string name =>
    match stack with
    | .object members :: outer => .goOn .colon (.member members name :: outer)
    | _ => .breakOff
  | _ => .breakOff

/-- What a lexeme does after a value inside the innermost container. -/
def afterValue (stack : List OpenJson) (lexeme : Lexeme) : Move :=
  match lexeme, stack with
  | .comma, .array _ :: _ => .goOn .value stack
  | .comma, .object _ :: _ => .goOn .name stack
  | .closeArray, .array items :: outer => close (.array items.reverse) outer
  | .closeObject, .object members :: outer => close (.object members.reverse) outer
  | _, _ => .breakOff

/-- What a lexeme does, given what is expected. -/
def move (expected : Expected) (stack : List OpenJson) (lexeme : Lexeme) : Move :=
  match expected with
  | .value => startValue stack lexeme
  | .firstItem =>
    match lexeme with
    | .closeArray => afterValue stack lexeme
    | _ => startValue stack lexeme
  | .firstName =>
    match lexeme with
    | .closeObject => afterValue stack lexeme
    | _ => startMember stack lexeme
  | .name => startMember stack lexeme
  | .colon =>
    match lexeme with
    | .colon => .goOn .value stack
    | _ => .breakOff
  | .comma => afterValue stack lexeme

/-- Reads the lexemes that are left, given what is expected and the open containers. -/
def read (expected : Expected) (stack : List OpenJson) : List Lexeme → Document
  | [] => ⟨breakOff .broken stack, false⟩
  | lexeme :: rest =>
    match move expected stack lexeme with
    | .goOn expected stack => read expected stack rest
    | .breakOff => ⟨breakOff .broken stack, false⟩
    | .value ended stack =>
      match stack with
      | [] => ⟨ended, rest.isEmpty⟩
      | .array items :: outer => read .comma (.array (ended :: items) :: outer) rest
      | .member members name :: outer => read .comma (.object ((name, ended) :: members) :: outer) rest
      -- An object takes a value only under a name.
      | .object members :: outer => ⟨breakOff .broken (.object members :: outer), false⟩

/-- Reads a JSON text. -/
def ofText (text : String) : Document :=
  read .value [] (Lexeme.ofChars text.toList)

end Document

end PhraseGrammar
