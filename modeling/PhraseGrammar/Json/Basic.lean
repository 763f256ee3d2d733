import PhraseGrammar.Number.Binary

/-! JSON values, including those that a text holds only in part. -/

namespace PhraseGrammar

/-- A JSON value; where its text is not JSON, the value breaks off at that place. -/
inductive Json where
  | null
  | bool (value : Bool)
  | number (value : Decimal)
  /-- A text, or none if an escape in it is half of a surrogate pair without the other half. -/
  | string (text : Option String)
  | array (items : List Json)
  /-- The members in the order of the text, repeated names included; a name is read as a text is. -/
  | object (members : List (Option String × Json))
  /-- An array or object that its text nests too deep for it to be kept. -/
  | deep
  /-- Nothing of the text from here on is JSON. -/
  | broken

namespace Json

instance : Inhabited Json :=
  ⟨null⟩

/-- A text value. -/
def text (value : String) : Json :=
  .string (some value)

/-- A natural number value. -/
def nat (value : Nat) : Json :=
  .number (.ofNat value)

/-- An object with the named members in that order. -/
def record (members : List (String × Json)) : Json :=
  .object (members.map fun member => (some member.1, member.2))

mutual

/-- Whether a value breaks off nowhere. -/
def intact : Json → Bool
  | .array items => intactItems items
  | .object members => intactMembers members
  | .broken => false
  | _ => true

/-- Whether no item breaks off. -/
def intactItems : List Json → Bool
  | [] => true
  | item :: items => intact item && intactItems items

/-- Whether no member breaks off. -/
def intactMembers : List (Option String × Json) → Bool
  | [] => true
  | (_, value) :: members => intact value && intactMembers members

end

mutual

/-- Whether a value can be kept: nothing in it breaks off or lies too deep, every text is one, and
every number is finite. -/
def keepable : Json → Bool
  | .number value => Binary.doubleOfDecimal value < Binary.double.infinity
  | .string text => text.isSome
  | .array items => keepableItems items
  | .object members => keepableMembers members
  | .deep | .broken => false
  | _ => true

/-- Whether every item can be kept. -/
def keepableItems : List Json → Bool
  | [] => true
  | item :: items => keepable item && keepableItems items

/-- Whether every member can be kept. -/
def keepableMembers : List (Option String × Json) → Bool
  | [] => true
  | (name, value) :: members => name.isSome && keepable value && keepableMembers members

end

end Json

end PhraseGrammar
