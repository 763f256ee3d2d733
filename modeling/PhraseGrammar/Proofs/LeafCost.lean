import PhraseGrammar.Proofs.Cost
import PhraseGrammar.Proofs.LeafPass

/-! The pass for phrases of words takes at most quadratically many steps for each pattern. -/

namespace PhraseGrammar

open Search

variable {extractor : Extractor} {sentence : Sentence} {admits : Token → Bool}

/-- Next to a position there are at most as many admitted tokens as there are tokens on that side. -/
theorem Surroundings.length_outward_le {position : Nat} (inside : position < sentence.length)
    (side : Side) :
    ((ofSentence admits sentence).outward side ⟨position, position⟩).length ≤
      match side with
      | .left => position
      | .right => sentence.length - (position + 1) := by
  rw [outward_ofSentence _ _ _ _ (Nat.le_of_lt inside) inside]
  refine Nat.le_trans (List.takeWhile_sublist _).length_le ?_
  -- What stands outwards are the tokens before the position, or those behind it.
  cases side with
  | left => simp [Sentence.outward]
  | right => simp [Sentence.outward, Sentence.length]

namespace Phrase

/-- Filling the last slot takes a step for every token, and one more where the tokens end. -/
theorem growLast_priced (side : Side) (slot : WordSlot) (phrase : Phrase)
    (outward : List (Token × Nat)) :
    (growLast side slot phrase outward).Priced fun found steps =>
      steps ≤ outward.length + 1 ∧
        (side = .left → ∀ grown ∈ found, grown.span.last = phrase.span.last) := by
  -- The induction is on the tokens, which the phrase takes one after the other.
  induction outward generalizing phrase with
  | nil =>
    rw [growLast]
    exact .step (.ofPure ⟨Nat.le_refl _, by simp⟩)
  | cons next outward rest =>
    obtain ⟨token, position⟩ := next
    have stays : side = .left → (phrase.push side position token).span.last = phrase.span.last := by
      rintro rfl
      rfl
    rw [growLast]
    refine .step ?_
    split
    · split
      · -- A slot that repeats goes on with the tokens that are left.
        refine (rest (phrase.push side position token)).bind fun found steps priced => ?_
        obtain ⟨within, kept⟩ := priced
        refine .ofPure ⟨by rw [List.length_cons]; omega, fun left => ?_⟩
        exact List.forall_mem_cons.mpr
          ⟨stays left, fun grown member => (kept left grown member).trans (stays left)⟩
      · refine .ofPure ⟨by rw [List.length_cons]; omega, fun left => ?_⟩
        simpa using stays left
    · exact .ofPure ⟨by rw [List.length_cons]; omega, by simp⟩

/-- Filling slots one after the other takes no more steps, however many slots there are. -/
theorem grow_priced (side : Side) (slots : List WordSlot) (phrase : Phrase)
    (outward : List (Token × Nat)) :
    (grow side phrase slots outward).Priced fun found steps =>
      steps ≤ outward.length + 1 ∧
        (side = .left → ∀ grown ∈ found, grown.span.last = phrase.span.last) := by
  -- Every slot but the last one takes a step and a token.
  induction slots generalizing phrase outward with
  | nil =>
    rw [grow]
    exact .ofPure ⟨Nat.zero_le _, by simp⟩
  | cons slot slots rest =>
    cases slots with
    | nil => exact growLast_priced side slot phrase outward
    | cons next slots =>
      simp only [grow]
      refine .step ?_
      cases outward with
      | nil => exact .ofPure ⟨Nat.le_refl _, by simp⟩
      | cons first outward =>
        obtain ⟨token, position⟩ := first
        dsimp only
        split
        · -- The slot has taken its token, and the others share those that are left.
          refine (rest (phrase.push side position token) outward).mono ?_
          rintro found steps ⟨within, kept⟩
          refine ⟨by rw [List.length_cons]; omega, ?_⟩
          rintro rfl grown member
          exact kept rfl grown member
        · exact .ofPure ⟨by rw [List.length_cons]; omega, by simp⟩

end Phrase

namespace Surroundings

/-- Growing a head to both sides takes a step more than there are tokens, at the most. -/
theorem growBoth_priced {pattern : Pattern} {head position : Nat} {anchor : Phrase}
    (inside : position < sentence.length) (stands : anchor.span = ⟨position, position⟩) :
    ((ofSentence admits sentence).growBoth pattern head anchor).Priced fun _ steps =>
      steps ≤ sentence.length + 1 := by
  unfold growBoth
  split
  · exact .ofPure (Nat.zero_le _)
  · refine (Phrase.grow_priced ..).bind fun left steps priced => ?_
    obtain ⟨within, kept⟩ := priced
    have before : ((ofSentence admits sentence).outward .left ⟨position, position⟩).length ≤
        position := length_outward_le inside .left
    -- However far the phrase has grown to the left, it still ends at the head.
    have ends : (left.getLast?.getD anchor).span.last = position := by
      cases last : left.getLast? with
      | none => rw [Option.getD_none, stands]
      | some grown =>
        rw [Option.getD_some, kept rfl grown (List.mem_of_getLast? last), stands]
    have behind : ((ofSentence admits sentence).outward .right
        (left.getLast?.getD anchor).span).length ≤ sentence.length - (position + 1) := by
      -- To the right it is the last position alone that counts.
      have same : (ofSentence admits sentence).outward .right (left.getLast?.getD anchor).span =
          (ofSentence admits sentence).outward .right ⟨position, position⟩ := by
        simp only [outward, ends]
      rw [same]
      exact length_outward_le inside .right
    refine (Phrase.grow_priced ..).bind fun right more priced => ?_
    obtain ⟨also, _⟩ := priced
    rw [stands] at within
    exact .ofPure (by omega)

/-- Trying a pattern at a position takes two steps more than there are tokens, at the most. -/
theorem leafCandidates_priced {pattern : Pattern} {token : Token} {position : Nat}
    (inside : position < sentence.length) :
    ((ofSentence admits sentence).leafCandidates token position pattern).Priced fun _ steps =>
      steps ≤ sentence.length + 2 := by
  unfold leafCandidates
  split
  · split
    · exact .step ((growBoth_priced inside rfl).mono fun _ _ within => by omega)
    · exact .ofPure (Nat.zero_le _)
  · exact .ofPure (Nat.zero_le _)

end Surroundings

namespace Extractor

/-- The steps that the pass for phrases of words takes at the most, for so many tokens. -/
def leafBound (extractor : Extractor) (tokens : Nat) : Nat :=
  tokens * extractor.registry.leafPatterns.length * (tokens + 2)

/-- The pass for phrases of words keeps within its bound. -/
theorem leafPass_priced (extractor : Extractor) (sentence : Sentence) :
    (extractor.leafPass sentence).Priced fun _ steps =>
      steps ≤ extractor.leafBound sentence.length := by
  unfold leafPass
  -- Every pattern is tried at every head, of which there are no more than positions.
  have each : ∀ head ∈ (extractor.surroundings sentence).admitted.filter
      fun next => extractor.registry.isHeadCandidate next.1,
      (Search.gather ((extractor.surroundings sentence).leafCandidates head.1 head.2)
        extractor.registry.leafPatterns).Priced fun _ steps =>
          steps ≤ extractor.registry.leafPatterns.length * (sentence.length + 2) := by
    intro head member
    have listed := (List.mem_filter.mp member).1
    rw [surroundings, Surroundings.admitted_ofSentence] at listed
    have stands := List.mk_mem_zipIdx_iff_getElem?.mp (List.mem_filter.mp listed).1
    have inside : head.2 < sentence.length := (List.getElem?_eq_some_iff.mp stands).1
    refine (Priced.gather fun pattern _ => Surroundings.leafCandidates_priced inside).mono ?_
    intro _ steps within
    simpa using within
  refine (Priced.gather each).bind fun candidates steps within => .ofPure ?_
  have heads : ((extractor.surroundings sentence).admitted.filter
      fun next => extractor.registry.isHeadCandidate next.1).length ≤ sentence.length := by
    refine Nat.le_trans (List.length_filter_le ..) ?_
    rw [surroundings, Surroundings.admitted_ofSentence]
    refine Nat.le_trans (List.length_filter_le ..) ?_
    rw [List.length_zipIdx, Sentence.length]
  rw [List.map_const', List.sum_replicate_nat] at within
  calc steps + 0
    _ ≤ _ := within
    _ ≤ sentence.length * (extractor.registry.leafPatterns.length * (sentence.length + 2)) :=
      Nat.mul_le_mul_right _ heads
    _ = extractor.leafBound sentence.length := (Nat.mul_assoc ..).symm

end Extractor

end PhraseGrammar
