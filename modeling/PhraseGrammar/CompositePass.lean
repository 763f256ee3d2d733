import PhraseGrammar.Extractor
import PhraseGrammar.LeafIndex
import PhraseGrammar.MatchStatus
import Std.Data.HashSet

/-! Phrases of phrases: a phrase of words fills a slot, and the slots around it are filled in turn. -/

namespace PhraseGrammar

/-- A slot that is still to be filled, and the side on which it lies. -/
structure Stop where
  /-- The side of the slot, seen from the phrase that the search starts with. -/
  side : Side
  /-- The index of the slot in its pattern. -/
  index : Nat
  /-- The slot. -/
  component : Component
  /-- Whether no slot lies further out on its side. -/
  outermost : Bool

/-- The slots around one of them in the order of filling: to the left outwards, then to the right. -/
def Pattern.route (pattern : Pattern) (anchor : Nat) : List Stop :=
  let length := pattern.length
  let stop (side : Side) (numbered : Component × Nat) : Stop :=
    ⟨side, numbered.2, numbered.1, numbered.2 = side.boundary length⟩
  let slots := pattern.components.zipIdx
  (slots.take anchor).reverse.map (stop .left) ++ (slots.drop (anchor + 1)).map (stop .right)

/-- A phrase that has been tried for a slot next to a span. -/
structure Trial where
  side : Side
  index : Nat
  leaf : Nat
  span : Span
deriving DecidableEq, Hashable

/-- The trials of one search, which are not repeated. -/
abbrev Trials := Std.HashSet Trial

/-- The complete phrases of a part of a search, and the trials up to its end. -/
structure Findings where
  found : List Phrase
  trials : Trials

/-- What stays fixed while one phrase is grown into one pattern. -/
structure Attempt where
  /-- The grammar. -/
  registry : Registry
  /-- The sentence, and what lies around each place of it. -/
  around : Surroundings
  /-- The phrases of words to choose from. -/
  leaves : LeafIndex
  /-- The number of the phrase that the search starts with. -/
  base : Nat
  /-- The number of slots. -/
  length : Nat

namespace Attempt

/-- Goes on once a slot is filled: the grown phrase, its status, the depth, and the trials so far. -/
abbrev Continue := Phrase → MatchStatus → Nat → Trials → Search Findings

/-- Takes a step to a depth. -/
def descend (depth : Nat) : Search Unit := do
  Search.step
  Search.enter depth

/-- The phrase and its status once a token fills a slot. -/
def takeWord (stop : Stop) (slot : WordSlot) (token : Token) (position : Nat) (phrase : Phrase)
    (status : MatchStatus) : Phrase × MatchStatus :=
  let grown := phrase.push stop.side position token
  let counted := { status with
    consumed := status.consumed + 1
    lexiconSatisfied := status.lexiconSatisfied || !slot.condition.additional.isEmpty }
  -- The first head slot that is filled gives the head.
  if slot.condition.isHead && !status.headChecked then
    ({ grown with head := some position }, counted.recordHead true)
  else (grown, counted)

/-- Fills a slot with the next token outwards, and again with the one after it if the slot repeats. -/
def fillWord (stop : Stop) (slot : WordSlot) (goOn : Continue) :
    List (Token × Nat) → Continue
  | [], _, _, _, trials => return ⟨[], trials⟩
  | (token, position) :: outward, phrase, status, depth, trials => do
    if slot.matchesToken token then
      let (grown, status) := takeWord stop slot token position phrase status
      let here ← goOn grown status (depth + 1) trials
      -- Only an outermost slot is filled more than once.
      if stop.outermost && slot.condition.isRepeated then
        descend (depth + 1)
        let further ← fillWord stop slot goOn outward grown status (depth + 1) here.trials
        return ⟨here.found ++ further.found, further.trials⟩
      else return here
    else return ⟨[], trials⟩

/-- Whether the head of a phrase meets the head slot of its pattern. -/
def headMatches (attempt : Attempt) (pattern : Pattern) (leaf : Phrase) : Bool :=
  match pattern.headWord?, leaf.head.bind (attempt.around.tokens[·]?) with
  | some slot, some token => slot.matchesToken token
  | _, _ => false

/-- Whether some reading of some token meets the demands of a slot beyond the attributes. -/
def meetsAdditional (slot : ModelSlot) (leaf : Phrase) : Bool :=
  leaf.row.any fun token => token.readings.any slot.condition.additional.matchesReading

/-- The phrase and its status once a neighbour of the named pattern fills a slot, if it meets it. -/
def takeLeaf? (attempt : Attempt) (stop : Stop) (slot : ModelSlot) (pattern : Pattern)
    (leaf phrase : Phrase) (status : MatchStatus) : Option (Phrase × MatchStatus) :=
  let condition := slot.condition
  let isHead := condition.isHead && !status.headChecked
  if isHead && !attempt.headMatches pattern leaf then none
  else if !leaf.row.any condition.acceptsToken then none
  else if !condition.additional.isEmpty && !meetsAdditional slot leaf then none
  else
    let counted := { status with
      consumed := status.consumed + 1
      lexiconSatisfied := status.lexiconSatisfied || !condition.additional.isEmpty }
    let grown := phrase.absorb stop.side leaf
    some (if isHead then ({ grown with head := leaf.head }, counted.recordHead true)
      else (grown, counted))

/-- Fills a slot with each of the neighbours in turn; a trial is made once only. -/
def fillModel (attempt : Attempt) (stop : Stop) (slot : ModelSlot) (pattern : Pattern)
    (goOn : Continue) (phrase : Phrase) (status : MatchStatus) (depth : Nat) :
    List (Phrase × Nat) → Trials → Search Findings
  | [], trials => return ⟨[], trials⟩
  | (leaf, number) :: leaves, trials => do
    let trial : Trial := ⟨stop.side, stop.index, number, phrase.span⟩
    if number = attempt.base || leaf.pattern ≠ slot.pattern || trials.contains trial then
      fillModel attempt stop slot pattern goOn phrase status depth leaves trials
    else
      let tried := trials.insert trial
      match attempt.takeLeaf? stop slot pattern leaf phrase status with
      | none => fillModel attempt stop slot pattern goOn phrase status depth leaves tried
      | some (grown, grownStatus) =>
        let here ← goOn grown grownStatus (depth + 1) tried
        let further ←
          fillModel attempt stop slot pattern goOn phrase status depth leaves here.trials
        return ⟨here.found ++ further.found, further.trials⟩

/-- Fills the slots of a route one after the other, and lists the phrases that fill all of them. -/
def walk (attempt : Attempt) : List Stop → Continue
  | [], phrase, status, _, trials =>
    return ⟨if status.isComplete attempt.length then [phrase] else [], trials⟩
  | stop :: route, phrase, status, depth, trials => do
    descend depth
    match stop.component with
    | .word slot =>
      fillWord stop slot (walk attempt route)
        (attempt.around.outward stop.side phrase.span) phrase status depth trials
    | .model slot =>
      match attempt.registry.byName? slot.pattern with
      | none => return ⟨[], trials⟩
      | some pattern =>
        fillModel attempt stop slot pattern (walk attempt route) phrase status depth
          (attempt.leaves.adjacent stop.side phrase.span) trials

end Attempt

namespace Extractor

/-- The status once a phrase of words fills a slot of a pattern, if it meets the slot. -/
def baseStatus? (pattern : Pattern) (slot : ModelSlot) (base : Phrase) : Option MatchStatus :=
  let condition := slot.condition
  match base.row.findSome? condition.acceptedReading? with
  | none => none
  | some reading =>
    -- Nothing is asked of the first phrase beyond the attributes, or else it does not pass.
    if condition.additional.isEmpty then
      let status := MatchStatus.start pattern.headIndex?.isSome
      let headed := if condition.isHead then status.recordHead true else status
      some { headed with
        lexiconSatisfied := condition.additional.matchesReading reading
        consumed := 1 }
    else none

/-- The phrase of a pattern as it starts out: a phrase of words, the head of which may be the head. -/
def seed (pattern : Pattern) (slot : ModelSlot) (base : Phrase) : Phrase :=
  { base.relabel pattern.name with head := if slot.condition.isHead then base.head else none }

/-- The phrases of a pattern that grow out of a numbered phrase of words. -/
def compositeCandidates (registry : Registry) (around : Surroundings) (leaves : LeafIndex)
    (base : Phrase) (number : Nat) (pattern : Pattern) : Search (List Phrase) :=
  match pattern.modelSlotIndex? base.pattern with
  | none => return []
  | some anchor =>
    match (pattern.component? anchor).bind Component.model? with
    | none => return []
    | some slot =>
      match baseStatus? pattern slot base with
      | none => return []
      | some status => do
        Search.step
        let attempt : Attempt := ⟨registry, around, leaves, number, pattern.length⟩
        let findings ← attempt.walk (pattern.route anchor) (seed pattern slot base) status 1 ∅
        return findings.found

/-- The phrases of phrases in a sentence; of each phrase of words the first pattern that fits counts. -/
def compositePass (extractor : Extractor) (sentence : Sentence) (leaves : List Phrase) :
    Search (List Phrase) := do
  let around := extractor.surroundings sentence
  let index := LeafIndex.ofList leaves
  let patterns := extractor.registry.compositePatterns
  let candidates ← Search.gather (fun (base, number) =>
    Search.firstFound (compositeCandidates extractor.registry around index base number) patterns)
    leaves.zipIdx
  return Phrase.dropEchoes candidates

end Extractor

end PhraseGrammar
