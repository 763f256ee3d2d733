import PhraseGrammar.Condition

/-! Patterns are named rows of slots; a slot takes a word or a phrase of another pattern. -/

namespace PhraseGrammar

/-- A slot that one token fills. -/
structure WordSlot where
  /-- The part of speech of the token. -/
  pos : PartOfSpeech
  /-- What the token has to meet. -/
  condition : Condition := {}
deriving DecidableEq

/-- A slot that a phrase of the named pattern fills. -/
structure ModelSlot where
  /-- The name of the pattern. -/
  pattern : String
  /-- What the phrase has to meet. -/
  condition : Condition := {}
deriving DecidableEq

/-- A slot of a pattern. -/
inductive Component where
  | word (slot : WordSlot)
  | model (slot : ModelSlot)
deriving DecidableEq

namespace Component

/-- The condition of a slot. -/
def condition : Component → Condition
  | .word slot => slot.condition
  | .model slot => slot.condition

/-- Whether a slot has the role of the head. -/
def isHead (component : Component) : Bool :=
  component.condition.isHead

/-- The slot itself where a word fills it. -/
def word? : Component → Option WordSlot
  | .word slot => some slot
  | .model _ => none

/-- The slot itself where a phrase fills it. -/
def model? : Component → Option ModelSlot
  | .word _ => none
  | .model slot => some slot

/-- Whether a phrase of the named pattern fills the slot. -/
def references (name : String) : Component → Bool
  | .word _ => false
  | .model slot => slot.pattern = name

end Component

namespace WordSlot

/-- Whether a token meets the slot. -/
def matchesToken (slot : WordSlot) (token : Token) : Bool :=
  slot.condition.matchesToken slot.pos token

end WordSlot

/-- What the slots of a pattern take. -/
inductive PatternKind where
  /-- Words only. -/
  | leaf
  /-- A phrase at least once. -/
  | composite
deriving DecidableEq, Repr

/-- The name of a kind. -/
def PatternKind.name : PatternKind → String
  | .leaf => "leaf"
  | .composite => "composite"

/-- A named row of slots. -/
structure Pattern where
  /-- The name, by which other patterns refer to it. -/
  name : String
  /-- The slots in text order. -/
  components : List Component
deriving DecidableEq

namespace Pattern

/-- The number of slots. -/
def length (pattern : Pattern) : Nat :=
  pattern.components.length

/-- Whether there is no slot. -/
def isEmpty (pattern : Pattern) : Bool :=
  pattern.components.isEmpty

/-- The slot at an index. -/
def component? (pattern : Pattern) (index : Nat) : Option Component :=
  pattern.components[index]?

/-- A pattern is composite if some slot takes a phrase. -/
def kind (pattern : Pattern) : PatternKind :=
  if pattern.components.any fun component => component.model?.isSome then .composite else .leaf

/-- Whether every slot takes a word. -/
def isLeaf (pattern : Pattern) : Bool :=
  pattern.kind = .leaf

/-- The index of the first slot with the role of the head. -/
def headIndex? (pattern : Pattern) : Option Nat :=
  pattern.components.findIdx? Component.isHead

/-- The first slot with the role of the head, if a word fills it. -/
def headWord? (pattern : Pattern) : Option WordSlot :=
  (pattern.components.find? Component.isHead).bind Component.word?

/-- The index of the first slot that a phrase of the named pattern fills. -/
def modelSlotIndex? (pattern : Pattern) (name : String) : Option Nat :=
  pattern.components.findIdx? (Component.references name)

/-- The names of the patterns that the slots refer to, in slot order, repetitions included. -/
def references (pattern : Pattern) : List String :=
  pattern.components.filterMap fun component => component.model?.map ModelSlot.pattern

/-- The slots that words fill, in slot order. -/
def wordSlots (pattern : Pattern) : List WordSlot :=
  pattern.components.filterMap Component.word?

end Pattern

/-- A numbered list of patterns, as it is written and kept. -/
structure PatternSet where
  /-- The number of the version. -/
  version : UInt32 := 0
  /-- The patterns in order. -/
  patterns : List Pattern
deriving DecidableEq

end PhraseGrammar
