import PhraseGrammar.Proofs.Likeness
import PhraseGrammar.Proofs.Lockstep

/-! No slot looks at how sure a reading is, so that only stop words could make a difference of it. -/

namespace PhraseGrammar

open Search

/-- Whether two readings are the same but for how sure they are. -/
structure Reading.SameButConfidence (reading other : Reading) : Prop where
  /-- The part of speech is the same. -/
  pos : reading.pos = other.pos
  /-- The attributes are the same. -/
  tag : reading.tag = other.tag
  /-- The dictionary form is the same. -/
  baseForm : reading.baseForm = other.baseForm

/-- Whether two tokens are the same but for how sure their readings are. -/
structure Token.SameButConfidence (token other : Token) : Prop where
  /-- The word is the same. -/
  text : token.text = other.text
  /-- The readings correspond one by one. -/
  readings : List.Forall₂ Reading.SameButConfidence token.readings other.readings

/-- Whether two sentences are the same but for how sure the readings in them are. -/
structure Sentence.SameButConfidence (sentence other : Sentence) : Prop where
  /-- The document is the same. -/
  document : sentence.document = other.document
  /-- The number in the document is the same. -/
  id : sentence.id = other.id
  /-- The tokens correspond one by one. -/
  tokens : List.Forall₂ Token.SameButConfidence sentence.tokens other.tokens

/-- Whether two phrases are the same but for how sure the readings in them are. -/
structure Phrase.SameButConfidence (phrase other : Phrase) : Prop where
  /-- The span is the same. -/
  span : phrase.span = other.span
  /-- The tokens correspond one by one. -/
  tokens : List.Forall₂ Token.SameButConfidence phrase.tokens other.tokens
  /-- The pattern is the same. -/
  pattern : phrase.pattern = other.pattern
  /-- The document is the same. -/
  document : phrase.document = other.document
  /-- The sentence is the same. -/
  sentence : phrase.sentence = other.sentence
  /-- The head is the same. -/
  head : phrase.head = other.head

/-- Whether two tokens with their positions are the same but for how sure their readings are. -/
def Token.PlacedAlike (next other : Token × Nat) : Prop :=
  next.1.SameButConfidence other.1 ∧ next.2 = other.2

section Correspondence

variable {α β γ δ : Type} {related : α → β → Prop} {further : γ → δ → Prop} {items : List α}
  {others : List β}

/-- All items pass a test if those that correspond pass the test that is the same for them. -/
theorem all_of_forall₂ {test : α → Bool} {check : β → Bool}
    (each : List.Forall₂ related items others)
    (same : ∀ item counterpart, related item counterpart → test item = check counterpart) :
    items.all test = others.all check := by
  induction each with
  | nil => rfl
  | cons here _ rest => rw [List.all_cons, List.all_cons, same _ _ here, rest]

/-- What is found first among items corresponds to what is found first among those like them. -/
theorem rel_findSome?_of_forall₂ {search : α → Option γ} {seek : β → Option δ}
    (each : List.Forall₂ related items others)
    (same : ∀ item counterpart, related item counterpart →
      Option.Rel further (search item) (seek counterpart)) :
    Option.Rel further (items.findSome? search) (others.findSome? seek) := by
  induction each with
  | nil => exact .none
  | @cons item counterpart _ _ here _ rest =>
    have found := same item counterpart here
    rw [List.findSome?_cons, List.findSome?_cons]
    generalize search item = result at found ⊢
    generalize seek counterpart = response at found ⊢
    cases found with
    | none => exact rest
    | some both => exact .some both

/-- The first item that passes a test corresponds to the first one that passes the same test. -/
theorem rel_find?_of_forall₂ {test : α → Bool} {check : β → Bool}
    (each : List.Forall₂ related items others)
    (same : ∀ item counterpart, related item counterpart → test item = check counterpart) :
    Option.Rel related (items.find? test) (others.find? check) := by
  induction each with
  | nil => exact .none
  | @cons item counterpart _ _ here _ rest =>
    rw [List.find?_cons, List.find?_cons, same item counterpart here]
    cases check counterpart with
    | true => exact .some here
    | false => exact rest

/-- Around items that correspond and are admitted alike lie runs that correspond. -/
theorem rel_runs {items : List (α × Bool)} {others : List (β × Bool)}
    (each : List.Forall₂
      (fun item counterpart => related item.1 counterpart.1 ∧ item.2 = counterpart.2) items others) :
    List.Forall₂ (List.Forall₂ related) (runs items) (runs others) := by
  induction each with
  | nil => exact .cons .nil .nil
  | @cons item counterpart _ _ here _ rest =>
    obtain ⟨alike, admitted⟩ := here
    rw [runs_cons, runs_cons, admitted]
    refine .cons ?_ rest
    split
    · -- The run goes on with the one behind, which there always is.
      refine .cons alike ?_
      generalize runs _ = later at rest ⊢
      generalize runs _ = laterToo at rest ⊢
      cases rest with
      | nil => exact .nil
      | cons first _ => exact first
    · exact .nil

/-- What stands at an index, or something else beyond the end, corresponds. -/
theorem rel_getD_of_forall₂ (each : List.Forall₂ related items others) {item : α} {counterpart : β}
    (beyond : related item counterpart) (index : Nat) :
    related (items[index]?.getD item) (others[index]?.getD counterpart) := by
  have both := rel_getElem?_of_forall₂ each index
  generalize items[index]? = found at both ⊢
  generalize others[index]? = foundToo at both ⊢
  cases both with
  | none => exact beyond
  | some both => exact both

end Correspondence

/-! What is asked of a token. -/

namespace Condition

variable (condition : Condition) {reading counterpart : Reading}

/-- The attributes of a reading do not depend on how sure it is. -/
theorem matchesAttributes_congr (same : reading.SameButConfidence counterpart) :
    condition.matchesAttributes reading = condition.matchesAttributes counterpart := by
  rw [matchesAttributes, matchesAttributes, same.tag]

/-- Neither does its dictionary form. -/
theorem matchesAdditional_congr (same : reading.SameButConfidence counterpart) :
    condition.additional.matchesReading reading =
      condition.additional.matchesReading counterpart := by
  simp only [Additional.matchesReading, Additional.matchesLexeme, Additional.matchesThemes,
    same.baseForm]

end Condition

namespace Token.SameButConfidence

variable {token other : Token} (same : token.SameButConfidence other)
include same

/-- A token has readings if the other one does. -/
theorem isEmpty_readings : token.readings.isEmpty = other.readings.isEmpty := by
  have readings := same.readings
  generalize token.readings = some at readings ⊢
  generalize other.readings = others at readings ⊢
  cases readings <;> rfl

/-- Some reading has one of some parts of speech if some reading of the other token does. -/
theorem any_pos (test : PartOfSpeech → Bool) :
    (token.readings.any fun reading => test reading.pos) =
      other.readings.any fun reading => test reading.pos :=
  any_of_forall₂ same.readings fun _ _ both => by rw [both.pos]

/-- A token meets a slot if the other one does. -/
theorem matchesToken (slot : WordSlot) : slot.matchesToken token = slot.matchesToken other := by
  unfold WordSlot.matchesToken Condition.matchesToken
  rw [same.isEmpty_readings, all_of_forall₂ same.readings fun reading counterpart both => ?_]
  rw [Condition.matchesReading, Condition.matchesReading, both.pos,
    slot.condition.matchesAttributes_congr both, slot.condition.matchesAdditional_congr both]

/-- A token has a reading with the wanted attributes if the other one does. -/
theorem acceptsToken (condition : Condition) :
    condition.acceptsToken token = condition.acceptsToken other :=
  any_of_forall₂ same.readings fun _ _ both => condition.matchesAttributes_congr both

/-- The first readings with the wanted attributes correspond. -/
theorem acceptedReading? (condition : Condition) :
    Option.Rel Reading.SameButConfidence (condition.acceptedReading? token)
      (condition.acceptedReading? other) :=
  rel_find?_of_forall₂ same.readings fun _ _ both => condition.matchesAttributes_congr both

/-- A token is an error of the analysis if the other one is. -/
theorem isAnalysisError : token.isAnalysisError = other.isAnalysisError := by
  unfold Token.isAnalysisError
  have readings := same.readings
  rw [same.text]
  generalize token.readings = some at readings ⊢
  generalize other.readings = others at readings ⊢
  -- The word is a single character, and there is a single reading, on both sides or on neither.
  cases other.text.toList with
  | nil => rfl
  | cons first rest =>
    cases rest with
    | cons second rest => rfl
    | nil =>
      cases readings with
      | nil => rfl
      | cons here later =>
        cases later with
        | nil => simp only [here.pos]
        | cons _ _ => rfl

/-- A token is usable if the other one is. -/
theorem isUsable (registry : Registry) : registry.isUsable token = registry.isUsable other := by
  unfold Registry.isUsable
  rw [same.isEmpty_readings, same.isAnalysisError, same.any_pos registry.isUsedPos, same.text,
    Token.isMisclassified, Token.isMisclassified, same.text]

/-- A token can be a head if the other one can. -/
theorem isHeadCandidate (registry : Registry) :
    registry.isHeadCandidate token = registry.isHeadCandidate other :=
  same.any_pos registry.isHeadPos

end Token.SameButConfidence

/-! Phrases that correspond. -/

/-- A token that takes the place of another one makes the same phrase of it. -/
theorem Phrase.sameButConfidence_ofToken {sentence twin : Sentence} {token other : Token}
    (sentences : sentence.SameButConfidence twin) (tokens : token.SameButConfidence other)
    (position : Nat) (pattern : String) :
    (Phrase.ofToken sentence token position pattern).SameButConfidence
      (Phrase.ofToken twin other position pattern) where
  span := rfl
  tokens := .cons tokens .nil
  pattern := rfl
  document := sentences.document
  sentence := sentences.id
  head := rfl

namespace Phrase.SameButConfidence

variable {phrase other : Phrase}

/-- Both phrases read the same. -/
theorem text (same : phrase.SameButConfidence other) : phrase.text = other.text := by
  have words : phrase.tokens.map Token.text = other.tokens.map Token.text := by
    have tokens := same.tokens
    generalize phrase.tokens = row at tokens ⊢
    generalize other.tokens = others at tokens ⊢
    induction tokens with
    | nil => rfl
    | cons here _ rest => rw [List.map_cons, List.map_cons, here.text, rest]
  exact congrArg (" ".intercalate ·) words

/-- Taking tokens that correspond leaves phrases the same. -/
theorem push (same : phrase.SameButConfidence other) (side : Side) (position : Nat)
    {token counterpart : Token} (tokens : token.SameButConfidence counterpart) :
    (phrase.push side position token).SameButConfidence
      (other.push side position counterpart) where
  span := congrArg (Span.stretch · side position) same.span
  tokens := by
    cases side with
    | left =>
      rw [Phrase.tokens, Phrase.tokens, Phrase.push, Phrase.push, TokenRow.toList_push_left,
        TokenRow.toList_push_left]
      exact .cons tokens same.tokens
    | right =>
      rw [Phrase.tokens, Phrase.tokens, Phrase.push, Phrase.push, TokenRow.toList_push_right,
        TokenRow.toList_push_right]
      exact List.rel_append same.tokens (.cons tokens .nil)
  pattern := same.pattern
  document := same.document
  sentence := same.sentence
  head := same.head

/-- Taking over neighbours that correspond leaves phrases the same. -/
theorem absorb (same : phrase.SameButConfidence other) (side : Side) {leaf neighbour : Phrase}
    (leaves : leaf.SameButConfidence neighbour) :
    (phrase.absorb side leaf).SameButConfidence (other.absorb side neighbour) where
  span := by rw [Phrase.absorb, Phrase.absorb, same.span, leaves.span]
  tokens := by
    cases side with
    | left =>
      rw [Phrase.tokens, Phrase.tokens, Phrase.absorb, Phrase.absorb,
        TokenRow.toList_absorb_left, TokenRow.toList_absorb_left]
      exact List.rel_append leaves.tokens same.tokens
    | right =>
      rw [Phrase.tokens, Phrase.tokens, Phrase.absorb, Phrase.absorb,
        TokenRow.toList_absorb_right, TokenRow.toList_absorb_right]
      exact List.rel_append same.tokens leaves.tokens
  pattern := same.pattern
  document := same.document
  sentence := same.sentence
  head := same.head

/-- Phrases stay the same with one head for both. -/
theorem withHead (same : phrase.SameButConfidence other) (head : Option Nat) :
    Phrase.SameButConfidence { phrase with head } { other with head } :=
  ⟨same.span, same.tokens, same.pattern, same.document, same.sentence, rfl⟩

/-- Some token of a phrase passes a test if some token of the other one passes the same test. -/
theorem any_row (same : phrase.SameButConfidence other) {test : Token → Bool}
    (tests : ∀ token counterpart, token.SameButConfidence counterpart →
      test token = test counterpart) :
    phrase.row.any test = other.row.any test := by
  rw [← TokenRow.any_toList, ← TokenRow.any_toList]
  exact any_of_forall₂ same.tokens tests

end Phrase.SameButConfidence

end PhraseGrammar
