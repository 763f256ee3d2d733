import PhraseGrammar.Extractor

/-! Phrases of words: a pattern is anchored at a token for its head and grows from there to both ends. -/

namespace PhraseGrammar

namespace Phrase

/-- Fills the outermost slot of a side, again and again if it repeats, and lists what each filling ends in. -/
def growLast (side : Side) (slot : WordSlot) (phrase : Phrase) :
    List (Token × Nat) → Search (List Phrase)
  | [] => do
    Search.step
    return []
  | (token, position) :: outward => do
    Search.step
    if slot.matchesToken token then
      let grown := phrase.push side position token
      if slot.condition.isRepeated then
        let further ← growLast side slot grown outward
        return grown :: further
      else return [grown]
    else return []

/-- Fills the slots of a side from the inside out with the tokens there, and lists the complete fillings. -/
def grow (side : Side) (phrase : Phrase) :
    List WordSlot → List (Token × Nat) → Search (List Phrase)
  | [], _ => return []
  | [slot], outward => growLast side slot phrase outward
  | slot :: next :: slots, outward => do
    Search.step
    match outward with
    | [] => return []
    | (token, position) :: outward =>
      if slot.matchesToken token then
        grow side (phrase.push side position token) (next :: slots) outward
      else return []

end Phrase

namespace Surroundings

/-- The phrases that grow out of the head of a pattern, those to the left first. -/
def growBoth (around : Surroundings) (pattern : Pattern) (head : Nat) (anchor : Phrase) :
    Search (List Phrase) := do
  if pattern.length = 1 then return [anchor]
  else
    let slots := pattern.wordSlots
    let left ← anchor.grow .left (slots.take head).reverse (around.outward .left anchor.span)
    -- The right side grows out of the longest phrase to the left, if there is one.
    let seed := left.getLast?.getD anchor
    let right ← seed.grow .right (slots.drop (head + 1)) (around.outward .right seed.span)
    return left ++ right

/-- The phrases of a pattern that have their head at a token. -/
def leafCandidates (around : Surroundings) (token : Token) (position : Nat) (pattern : Pattern) :
    Search (List Phrase) :=
  match pattern.headIndex?, pattern.headWord? with
  | some head, some slot =>
    if slot.matchesToken token then do
      Search.step
      around.growBoth pattern head (.ofToken around.sentence token position pattern.name)
    else return []
  | _, _ => return []

end Surroundings

namespace Extractor

/-- The phrases of words in a sentence, by the position of their head and then by pattern. -/
def leafPass (extractor : Extractor) (sentence : Sentence) : Search (List Phrase) := do
  let around := extractor.surroundings sentence
  let heads := around.admitted.filter fun next => extractor.registry.isHeadCandidate next.1
  let patterns := extractor.registry.leafPatterns
  let candidates ← Search.gather (fun (token, position) =>
    Search.gather (around.leafCandidates token position) patterns) heads
  return Phrase.dropEchoes candidates

end Extractor

end PhraseGrammar
