import PhraseGrammar.LeafPass
import PhraseGrammar.Proofs.Outward
import PhraseGrammar.Proofs.Search

/-! A phrase of words grows on each side as far as the positions are eligible for its slots. -/

namespace PhraseGrammar

/-- The slots of a pattern on one side of its head, the nearest first. -/
def Pattern.slotsBeyond (pattern : Pattern) (side : Side) (head : Nat) : List Component :=
  match side with
  | .left => (pattern.components.take head).reverse
  | .right => pattern.components.drop (head + 1)

namespace Extractor

/-- The positions at which slots can end that are filled one by one, both with the nearest first. -/
def reaches (extractor : Extractor) (sentence : Sentence) (slots : List Component)
    (positions : List Nat) : List Nat :=
  match slots.getLast?, positions.drop (slots.length - 1) with
  | some last, position :: further =>
    if (slots.zip positions).all fun place => extractor.eligible sentence place.1 place.2 then
      -- Only the last slot may be filled again, as long as the next position is eligible.
      position :: if last.condition.isRepeated then
        further.takeWhile (extractor.eligible sentence last) else []
    else []
  | _, _ => []

/-- The spans at which a pattern of words is found that has its head at a position. -/
def leafSpans (extractor : Extractor) (sentence : Sentence) (pattern : Pattern)
    (head position : Nat) : List Span :=
  if pattern.length = 1 then [⟨position, position⟩]
  else
    let ends (side : Side) : List Nat := extractor.reaches sentence (pattern.slotsBeyond side head)
      (sentence.beyond side ⟨position, position⟩)
    -- The right side starts from the longest phrase to the left, or from the head alone.
    let first := (ends .left).getLast?.getD position
    (ends .left).map (⟨·, position⟩) ++ (ends .right).map (⟨first, ·⟩)

/-- What a pattern of words shows that has its head at a position, if it may have it there. -/
def leafOccurrences (extractor : Extractor) (sentence : Sentence) (position : Nat)
    (pattern : Pattern) : List Occurrence :=
  match pattern.headIndex?, pattern.headIndex?.bind pattern.component? with
  | some head, some slot =>
    if extractor.eligible sentence slot position then
      (extractor.leafSpans sentence pattern head position).map fun span =>
        sentence.occurrence pattern.name span (some position)
    else []
  | _, _ => []

variable {extractor : Extractor} {sentence : Sentence} {side : Side}

/-- Without a position no slot is filled. -/
theorem reaches_edge (slots : List Component) : extractor.reaches sentence slots [] = [] := by
  rw [reaches, List.drop_nil]
  cases slots.getLast? <;> rfl

/-- A single slot reaches the first position and, if it repeats, those after it. -/
theorem reaches_single (slot : Component) (position : Nat) (positions : List Nat) :
    extractor.reaches sentence [slot] (position :: positions) =
      if extractor.eligible sentence slot position then
        position :: if slot.condition.isRepeated then
          positions.takeWhile (extractor.eligible sentence slot) else []
      else [] := by
  simp [reaches]

/-- A single slot that repeats reaches all eligible positions up to the first other one. -/
theorem reaches_repeated {slot : Component} (repeats : slot.condition.isRepeated)
    (positions : List Nat) :
    extractor.reaches sentence [slot] positions =
      positions.takeWhile (extractor.eligible sentence slot) := by
  cases positions with
  | nil => rfl
  | cons position positions => rw [reaches_single, if_pos repeats, List.takeWhile_cons]

/-- With more than one slot the first position is for the first slot, and the others go on. -/
theorem reaches_cons (slot next : Component) (slots : List Component) (position : Nat)
    (positions : List Nat) :
    extractor.reaches sentence (slot :: next :: slots) (position :: positions) =
      if extractor.eligible sentence slot position then
        extractor.reaches sentence (next :: slots) positions
      else [] := by
  -- The first slot and the first position are taken off together.
  simp only [reaches, List.getLast?_cons_cons, List.length_cons, Nat.add_sub_cancel,
    List.drop_succ_cons, List.zip_cons_cons, List.all_cons]
  by_cases fits : extractor.eligible sentence slot position = true
  · simp only [fits, Bool.true_and, if_true]
  · -- A first slot that is not filled spoils the whole row.
    simp only [fits, Bool.false_and, Bool.false_eq_true, if_false]
    split <;> rfl

/-- No slot reaches beyond a first position that is not eligible. -/
theorem reaches_blocked {slot : Component} {slots : List Component} {positions : List Nat}
    (blocked : ∀ position ∈ positions.head?,
      extractor.eligible sentence slot position = false) :
    extractor.reaches sentence (slot :: slots) positions = [] := by
  cases positions with
  | nil => exact reaches_edge _
  | cons position positions =>
    have refused := blocked position rfl
    -- The first slot takes the first position, whether it is the last slot or not.
    cases slots with
    | nil => simp [reaches_single, refused]
    | cons next slots => simp [reaches_cons, refused]

end Extractor

namespace Phrase

variable {extractor : Extractor} {sentence : Sentence} {side : Side}

/-- What phrases show that have grown out of a phrase on a side up to some positions. -/
def Reach (extractor : Extractor) (sentence : Sentence) (side : Side) (phrase : Phrase)
    (positions : List Nat) (found : List Phrase) : Prop :=
  (found.map occurrence = positions.map fun position =>
      sentence.occurrence phrase.pattern (phrase.span.stretch side position) phrase.head) ∧
    ∀ grown ∈ found, grown.Faithful extractor sentence

/-- Growing from a phrase with one more token is growing from the phrase itself. -/
theorem reach_push {phrase : Phrase} {token : Token} {position : Nat} {positions : List Nat}
    {found : List Phrase}
    (reach : (phrase.push side position token).Reach extractor sentence side positions found) :
    phrase.Reach extractor sentence side positions found := by
  obtain ⟨shown, faithful⟩ := reach
  refine ⟨?_, faithful⟩
  -- Stretching by one position and then further is stretching further at once.
  simpa only [push, Span.stretch_stretch] using shown

/-- A faithful phrase that has grown by one token is found in front of those that grow further. -/
theorem Reach.cons {phrase : Phrase} {token : Token} {position : Nat} {positions : List Nat}
    {found : List Phrase} (faithful : (phrase.push side position token).Faithful extractor sentence)
    (reach : phrase.Reach extractor sentence side positions found) :
    phrase.Reach extractor sentence side (position :: positions)
      (phrase.push side position token :: found) := by
  obtain ⟨shown, all⟩ := reach
  refine ⟨?_, List.forall_mem_cons.mpr ⟨faithful, all⟩⟩
  rw [List.map_cons, List.map_cons, shown, faithful.occurrence_eq]
  rfl

/-- The last phrase that has grown, or else the one it grew out of, ends at the last position. -/
theorem Reach.seed {phrase : Phrase} {positions : List Nat} {found : List Phrase}
    (faithful : phrase.Faithful extractor sentence)
    (reach : phrase.Reach extractor sentence side positions found) :
    (found.getLast?.getD phrase).Faithful extractor sentence ∧
      (found.getLast?.getD phrase).occurrence = sentence.occurrence phrase.pattern
        (phrase.span.stretch side (positions.getLast?.getD (phrase.span.reach side)))
        phrase.head := by
  obtain ⟨shown, all⟩ := reach
  -- There is a last phrase exactly if there is a last position.
  have lasts := congrArg List.getLast? shown
  rw [List.getLast?_map, List.getLast?_map] at lasts
  cases last : found.getLast? with
  | none =>
    rw [last, Option.map_none, eq_comm, Option.map_eq_none_iff] at lasts
    -- Nothing has grown, so that the phrase still ends where it did.
    rw [lasts, Option.getD_none, Option.getD_none, Span.stretch_reach]
    exact ⟨faithful, faithful.occurrence_eq⟩
  | some grown =>
    rw [last, Option.map_some, eq_comm, Option.map_eq_some_iff] at lasts
    obtain ⟨position, isLast, same⟩ := lasts
    rw [isLast, Option.getD_some, Option.getD_some]
    exact ⟨all grown (List.mem_of_getLast? last), same.symm⟩

/-- Filling the last slot lists a phrase for every position that the slot reaches. -/
theorem growLast_reach {slot : WordSlot} {phrase : Phrase} {found : List Phrase}
    (faithful : phrase.Faithful extractor sentence)
    (ended : (growLast side slot phrase
      ((extractor.surroundings sentence).outward side phrase.span)).Yields found) :
    phrase.Reach extractor sentence side
      (extractor.reaches sentence [.word slot] (sentence.beyond side phrase.span)) found := by
  -- The induction is on the tokens outwards, which the phrase takes one after the other.
  generalize same : (extractor.surroundings sentence).outward side phrase.span = outward at ended
  induction outward generalizing phrase found with
  | nil =>
    rcases Extractor.outward_cases extractor side faithful.ordered
      faithful.inside with ⟨token, position, _, _, _, next, _⟩ | ⟨_, blocked⟩
    · rw [same] at next
      cases next
    · obtain ⟨_, _, ended⟩ := Search.Yields.of_bind ended
      -- No token is next to the phrase that could fill the slot.
      rw [ended.of_pure, Extractor.reaches_blocked (blocked _)]
      exact ⟨rfl, by simp⟩
  | cons next outward rest =>
    rcases Extractor.outward_cases extractor side faithful.ordered
      faithful.inside with ⟨token, position, stands, admits, beside, outwards, beyond⟩ | ⟨none, _⟩
    · rw [same] at outwards
      obtain ⟨rfl, further⟩ := List.cons.inj outwards
      have grown := faithful.push stands admits beside
      rw [beyond, Extractor.reaches_single, Extractor.eligible_word_eq stands admits]
      rw [growLast] at ended
      obtain ⟨_, _, ended⟩ := ended.of_bind
      split at ended
      · rename_i fits
        rw [if_pos fits]
        split at ended
        · rename_i repeats
          have repeats : (Component.word slot).condition.isRepeated = true := repeats
          obtain ⟨more, moreEnded, ended⟩ := ended.of_bind
          -- The slot goes on with the phrase that has the token.
          rw [ended.of_pure, if_pos repeats, ← Extractor.reaches_repeated repeats]
          exact .cons grown (reach_push (rest grown further.symm moreEnded))
        · rename_i once
          have once : ¬(Component.word slot).condition.isRepeated = true := once
          rw [ended.of_pure, if_neg once]
          exact .cons grown ⟨rfl, by simp⟩
      · rename_i misfit
        rw [ended.of_pure, if_neg misfit]
        exact ⟨rfl, by simp⟩
    · rw [same] at none
      cases none

/-- Filling slots one after the other lists a phrase for every position that the slots reach. -/
theorem grow_reach {slots : List WordSlot} {phrase : Phrase} {found : List Phrase}
    (faithful : phrase.Faithful extractor sentence)
    (ended : (grow side phrase slots
      ((extractor.surroundings sentence).outward side phrase.span)).Yields found) :
    phrase.Reach extractor sentence side
      (extractor.reaches sentence (slots.map .word) (sentence.beyond side phrase.span)) found := by
  -- Every slot but the last one takes a single token.
  induction slots generalizing phrase found with
  | nil =>
    rw [ended.of_pure]
    exact ⟨rfl, by simp⟩
  | cons slot slots rest =>
    cases slots with
    | nil => exact growLast_reach faithful ended
    | cons next slots =>
      simp only [grow] at ended
      obtain ⟨_, _, ended⟩ := ended.of_bind
      rcases Extractor.outward_cases extractor side faithful.ordered
        faithful.inside with ⟨token, position, stands, admits, beside, outwards, beyond⟩ |
          ⟨none, blocked⟩
      · rw [outwards] at ended
        rw [beyond, List.map_cons, List.map_cons, Extractor.reaches_cons,
          Extractor.eligible_word_eq stands admits]
        dsimp only at ended
        split at ended
        · rename_i fits
          rw [if_pos fits]
          exact reach_push (rest (faithful.push stands admits beside) ended)
        · rename_i misfit
          rw [ended.of_pure, if_neg misfit]
          exact ⟨rfl, by simp⟩
      · rw [none] at ended
        -- The sentence ends before all slots are filled.
        rw [ended.of_pure, List.map_cons, Extractor.reaches_blocked (blocked _)]
        exact ⟨rfl, by simp⟩

end Phrase

end PhraseGrammar
