import PhraseGrammar.Pattern
import PhraseGrammar.ReferenceGraph
import Std.Data.HashMap

/-! A registry holds patterns that have been checked to form a grammar. -/

namespace PhraseGrammar

/-- Why patterns do not form a grammar. -/
inductive GrammarError where
  /-- Two patterns have this name. -/
  | duplicatePattern (name : String)
  /-- This pattern has no slot. -/
  | emptyPattern (name : String)
  /-- A slot of the pattern refers to a name that no pattern has. -/
  | unknownReference (pattern reference : String)
  /-- This pattern refers to itself, directly or through others. -/
  | referenceCycle (name : String)
  /-- A first pattern, and further ones, refer deeper than the limit; each comes with its depth. -/
  | nestingTooDeep (limit : Nat) (first : String × Nat) (further : List (String × Nat))
deriving DecidableEq, Repr

/-- The wording of a grammar error. -/
def GrammarError.message : GrammarError → String
  | .duplicatePattern name => "pattern '" ++ name ++ "' is defined twice"
  | .emptyPattern name => "pattern '" ++ name ++ "' has no components"
  | .unknownReference pattern reference =>
    "pattern '" ++ pattern ++ "' references unknown pattern '" ++ reference ++ "'"
  | .referenceCycle name => "pattern '" ++ name ++ "' is part of a reference cycle"
  | .nestingTooDeep limit first _ =>
    "pattern '" ++ first.1 ++ "' nests " ++ toString first.2 ++ " levels deep (limit is " ++
      toString limit ++ ")"

/-- Patterns with their numbers, by name. -/
abbrev Directory := Std.HashMap String (Pattern × Nat)

namespace Directory

/-- The directory of numbered patterns; of several with one name it has the first. -/
def ofNumbered (numbered : List (Pattern × Nat)) : Directory :=
  numbered.foldr (fun entry directory => directory.insert entry.1.name entry) ∅

/-- The directory of patterns that are numbered in order. -/
def ofPatterns (patterns : List Pattern) : Directory :=
  ofNumbered patterns.zipIdx

/-- The number of the pattern with that name. -/
def indexOf? (directory : Directory) (name : String) : Option Nat :=
  directory[name]?.map (·.2)

/-- A directory has the first pattern with each name. -/
theorem getElem?_ofNumbered (numbered : List (Pattern × Nat)) (name : String) :
    (ofNumbered numbered)[name]? = numbered.find? fun entry => entry.1.name = name := by
  induction numbered with
  | nil => rw [ofNumbered, List.foldr_nil, Std.HashMap.getElem?_empty, List.find?_nil]
  | cons entry numbered rest =>
    rw [ofNumbered, List.foldr_cons, Std.HashMap.getElem?_insert, ← ofNumbered, rest,
      List.find?_cons]
    by_cases same : entry.1.name = name
    · rw [if_pos (beq_iff_eq.mpr same), decide_eq_true same]
    · rw [if_neg (fun equal => same (beq_iff_eq.mp equal)), decide_eq_false same]

end Directory

/-- Patterns that form a grammar, and what has been found out about them. -/
structure Registry where
  /-- The patterns in registration order; the index of a pattern is its number. -/
  patterns : List Pattern
  /-- The patterns by name. -/
  directory : Directory
  /-- The nesting depth of each pattern. -/
  nesting : List Nat
  /-- The parts of speech of the word slots that are heads, in their fixed order. -/
  headPos : List PartOfSpeech
  /-- The parts of speech of all word slots, in their fixed order. -/
  usedPos : List PartOfSpeech

namespace Registry

/-- How deep references may go where nothing else is said. -/
def defaultMaxNesting : Nat := 16

/-- The first pattern that is empty or has the name of an earlier one. -/
def checkNames (earlier : List String) : List Pattern → Option GrammarError
  | [] => none
  | pattern :: rest =>
    if pattern.isEmpty then some (.emptyPattern pattern.name)
    else if pattern.name ∈ earlier then some (.duplicatePattern pattern.name)
    else checkNames (pattern.name :: earlier) rest

/-- The graph with the references of one pattern added in slot order. -/
def linkReferences (directory : Directory) (pattern : Pattern) (id : Nat)
    (graph : ReferenceGraph) : List String → Except GrammarError ReferenceGraph
  | [] => .ok graph
  | name :: names =>
    match directory.indexOf? name with
    | none => .error (.unknownReference pattern.name name)
    | some target => linkReferences directory pattern id (graph.addReference id target) names

/-- The graph with further patterns and their references added, the first of which has number `id`. -/
def linkPatterns (directory : Directory) (id : Nat) (graph : ReferenceGraph) :
    List Pattern → Except GrammarError ReferenceGraph
  | [] => .ok graph
  | pattern :: rest =>
    match linkReferences directory pattern id (graph.addPattern id) pattern.references with
    | .error unknown => .error unknown
    | .ok grown => linkPatterns directory (id + 1) grown rest

/-- The references between patterns, or the first one to an unknown name. -/
def link (patterns : List Pattern) : Except GrammarError ReferenceGraph :=
  linkPatterns (.ofPatterns patterns) 0 {} patterns

/-- The name of the pattern with that number. -/
def nameAt (patterns : List Pattern) (id : Nat) : String :=
  (patterns[id]?.map Pattern.name).getD ""

/-- The nesting depth of each pattern, if all of them are within the limit. -/
def nestingOf (patterns : List Pattern) (limit : Nat) (depths : List (Nat × Nat)) :
    Except GrammarError (List Nat) :=
  let nesting := (List.range patterns.length).map (ReferenceGraph.depthIn depths)
  let named := (patterns.map Pattern.name).zip nesting
  match named.filter fun pattern => limit < pattern.2 with
  | [] => .ok nesting
  | first :: further => .error (.nestingTooDeep limit first further)

/-- The parts of speech that satisfy a test, in their fixed order. -/
def posWhere (test : PartOfSpeech → Bool) : List PartOfSpeech :=
  PartOfSpeech.all.filter test

/-- The registry of patterns whose nesting has been found. -/
def assemble (patterns : List Pattern) (nesting : List Nat) : Registry where
  patterns
  directory := .ofPatterns patterns
  nesting
  headPos := posWhere fun pos =>
    patterns.any fun pattern => pattern.headWord?.any fun slot => slot.pos = pos
  usedPos := posWhere fun pos =>
    patterns.any fun pattern => pattern.wordSlots.any fun slot => slot.pos = pos

/-- Checks names, references, cycles and nesting, in this order, and registers the patterns. -/
def build (patterns : List Pattern) (maxNesting : Nat := defaultMaxNesting) :
    Except GrammarError Registry :=
  match checkNames [] patterns with
  | some fault => .error fault
  | none =>
    match link patterns with
    | .error fault => .error fault
    | .ok graph =>
      match graph.nestingDepths with
      | .error id => .error (.referenceCycle (nameAt patterns id))
      | .ok depths => (nestingOf patterns maxNesting depths).map (assemble patterns)

/-- Registers the patterns of a set. -/
def ofSet (set : PatternSet) : Except GrammarError Registry :=
  build set.patterns

/-- The patterns as a set of that version. -/
def toSet (registry : Registry) (version : UInt32) : PatternSet :=
  { version, patterns := registry.patterns }

/-- The pattern with that number. -/
def get? (registry : Registry) (id : Nat) : Option Pattern :=
  registry.patterns[id]?

/-- The number of the pattern with that name. -/
def idOf? (registry : Registry) (name : String) : Option Nat :=
  registry.directory.indexOf? name

/-- The pattern with that name. -/
def byName? (registry : Registry) (name : String) : Option Pattern :=
  registry.directory[name]?.map (·.1)

/-- The nesting depth of the pattern with that number. -/
def nestingDepth? (registry : Registry) (id : Nat) : Option Nat :=
  registry.nesting[id]?

/-- The patterns of words only, in registration order. -/
def leafPatterns (registry : Registry) : List Pattern :=
  registry.patterns.filter Pattern.isLeaf

/-- The patterns with a slot for a phrase, in registration order. -/
def compositePatterns (registry : Registry) : List Pattern :=
  registry.patterns.filter fun pattern => !pattern.isLeaf

/-- The number of patterns. -/
def size (registry : Registry) : Nat :=
  registry.patterns.length

/-- Whether there is no pattern. -/
def isEmpty (registry : Registry) : Bool :=
  registry.patterns.isEmpty

/-- Whether some head word slot has that part of speech. -/
def isHeadPos (registry : Registry) (pos : PartOfSpeech) : Bool :=
  registry.headPos.contains pos

/-- Whether some word slot has that part of speech. -/
def isUsedPos (registry : Registry) (pos : PartOfSpeech) : Bool :=
  registry.usedPos.contains pos

end Registry

end PhraseGrammar
