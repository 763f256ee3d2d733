import PhraseGrammar.Proofs.ConfidenceLockstep
import PhraseGrammar.Proofs.ExtractionLockstep

/-! Where stop words are not left out, neither they nor the confidences of readings matter. -/

namespace PhraseGrammar

/-- Whether two phrases stand in one place, read the same, and have the same pattern and head. -/
structure Phrase.LooksLike (phrase other : Phrase) : Prop where
  /-- The span is the same. -/
  span : phrase.span = other.span
  /-- The text is the same. -/
  text : phrase.text = other.text
  /-- The pattern is the same. -/
  pattern : phrase.pattern = other.pattern
  /-- The head is the same. -/
  head : phrase.head = other.head

/-- Phrases that differ in confidences alone look alike. -/
theorem Phrase.SameButConfidence.looksLike {phrase other : Phrase}
    (same : phrase.SameButConfidence other) : phrase.LooksLike other :=
  ⟨same.span, same.text, same.pattern, same.head⟩

namespace Extractor

/-- Extractors of one grammar that admit the same tokens make the same search. -/
theorem search_of_admits (extractor other : Extractor)
    (registry : extractor.registry = other.registry)
    (admits : extractor.admits = other.admits)
    (reduce : extractor.options.validateBoundaries = other.options.validateBoundaries)
    (sentence : Sentence) : extractor.search sentence = other.search sentence := by
  have around : extractor.surroundings sentence = other.surroundings sentence := by
    rw [surroundings, surroundings, admits]
  unfold search leafPass compositePass Extractor.reduce
  rw [around, registry, reduce]

/-- Without cleaning every usable token is admitted. -/
theorem admits_of_uncleaned (extractor : Extractor)
    (uncleaned : extractor.options.cleanStopWords = false) :
    extractor.admits = extractor.registry.isUsable := by
  funext token
  rw [admits, isStopWord, uncleaned, Bool.false_and, Bool.not_false, Bool.and_true]

/-- So it is with no stop word to leave out. -/
theorem admits_of_isEmpty (extractor : Extractor) (none : extractor.stopWords.isEmpty) :
    extractor.admits = extractor.registry.isUsable := by
  have empty : extractor.stopWords.words = ∅ := Std.ExtHashSet.isEmpty_iff.mp none
  funext token
  simp [admits, isStopWord, StopWords.contains, empty]

/-- Without cleaning nothing that is admitted depends on how sure the readings are. -/
theorem blind_of_uncleaned (extractor : Extractor)
    (uncleaned : extractor.options.cleanStopWords = false) :
    extractor.Blind := by
  intro token other same
  rw [extractor.admits_of_uncleaned uncleaned, same.isUsable]

end Extractor

/-- Without cleaning an extraction depends neither on stop words nor on confidences, and cleaning by no
stop words is none. -/
theorem extract_uncleaned (registry : Registry) (options : MatchOptions) :
    (options.cleanStopWords = false →
      ∀ (stopWords others : StopWords) (sentence twin : Sentence),
        sentence.SameButConfidence twin →
        (∃ abort, Extractor.extract ⟨registry, options, stopWords⟩ sentence = .error abort ∧
          Extractor.extract ⟨registry, options, others⟩ twin = .error abort) ∨
        ∃ extraction counterpart,
          Extractor.extract ⟨registry, options, stopWords⟩ sentence = .ok extraction ∧
          Extractor.extract ⟨registry, options, others⟩ twin = .ok counterpart ∧
          List.Forall₂ Phrase.LooksLike extraction.simple counterpart.simple ∧
          List.Forall₂ Phrase.LooksLike extraction.complex counterpart.complex) ∧
    (options.cleanStopWords = true →
      ∀ stopWords : StopWords, stopWords.isEmpty → ∀ (others : StopWords) (sentence : Sentence),
        Extractor.extract ⟨registry, options, stopWords⟩ sentence =
          Extractor.extract ⟨registry, { options with cleanStopWords := false }, others⟩
            sentence) := by
  constructor
  · intro uncleaned stopWords others sentence twin same
    let extractor : Extractor := ⟨registry, options, stopWords⟩
    let other : Extractor := ⟨registry, options, others⟩
    -- The stop words are exchanged first, and then the confidences.
    have admits : extractor.admits = other.admits :=
      (extractor.admits_of_uncleaned uncleaned).trans (other.admits_of_uncleaned uncleaned).symm
    have exchanged := extractor.search_of_admits other rfl admits rfl twin
    have together := Extractor.search_together (extractor.blind_of_uncleaned uncleaned) same
    rw [exchanged] at together
    rcases Extractor.extract_of_lockstep together rfl with
      failed | ⟨extraction, counterpart, ended, endedToo, found⟩
    · exact .inl failed
    · exact .inr ⟨extraction, counterpart, ended, endedToo,
        found.simple.imp fun _ _ both => both.looksLike,
        found.complex.imp fun _ _ both => both.looksLike⟩
  · intro _ stopWords none others sentence
    let extractor : Extractor := ⟨registry, options, stopWords⟩
    let other : Extractor := ⟨registry, { options with cleanStopWords := false }, others⟩
    have admits : extractor.admits = other.admits :=
      (extractor.admits_of_isEmpty none).trans (other.admits_of_uncleaned rfl).symm
    have searches := extractor.search_of_admits other rfl admits rfl sentence
    show extractor.extract sentence = other.extract sentence
    unfold Extractor.extract
    rw [searches]
    rfl

/-- The confidence of a reading that is out of the question. -/
def Confidence.zero : Confidence where
  negative := false
  magnitude := 0

/-- The confidence of a reading that states something but a number. -/
def Confidence.undefined : Confidence where
  negative := false
  magnitude := 0x7FC00000

/-- A sentence whose second token is a form of either of two words. -/
def oldAxes (axe axis : Confidence) : Sentence where
  document := 1
  id := 1
  tokens := [⟨"old", [⟨.adjective, .empty, .ofText "old", .one⟩]⟩,
    ⟨"axes", [⟨.noun, .empty, .ofText "axe", axe⟩, ⟨.noun, .empty, .ofText "axis", axis⟩]⟩]

/-- Old axes are described even if it is undefined how sure one reading is, and with a stop word for the
other one, and cleaning by no stop word leaves them. -/
theorem extract_uncleaned_oldAxes : ∃ registry extraction counterpart,
    Registry.build nounPhrases = .ok registry ∧
      Extractor.extract ⟨registry, { validateBoundaries := false }, .empty⟩
        (oldAxes .one .zero) = .ok extraction ∧
      extraction.complex.map (fun phrase => (phrase.pattern, phrase.text)) =
        [("described noun", "old axes")] ∧
      Extractor.extract ⟨registry, { validateBoundaries := false }, .ofList ["axis"]⟩
        (oldAxes .undefined .one) = .ok counterpart ∧
      List.Forall₂ Phrase.LooksLike extraction.simple counterpart.simple ∧
      List.Forall₂ Phrase.LooksLike extraction.complex counterpart.complex ∧
      Extractor.extract ⟨registry, { cleanStopWords := true, validateBoundaries := false }, .empty⟩
        (oldAxes .one .zero) = .ok extraction := by
  have same : (oldAxes .one .zero).SameButConfidence (oldAxes .undefined .one) :=
    ⟨rfl, rfl, .cons ⟨rfl, .cons ⟨rfl, rfl, rfl⟩ .nil⟩
      (.cons ⟨rfl, .cons ⟨rfl, rfl, rfl⟩ (.cons ⟨rfl, rfl, rfl⟩ .nil)⟩ .nil)⟩
  obtain ⟨extraction, ended, texts⟩ : ∃ extraction,
      Extractor.extract ⟨.assemble nounPhrases [0, 1], { validateBoundaries := false }, .empty⟩
          (oldAxes .one .zero) = .ok extraction ∧
        extraction.complex.map (fun phrase => (phrase.pattern, phrase.text)) =
          [("described noun", "old axes")] := ⟨_, rfl, rfl⟩
  have cleaned := (extract_uncleaned (.assemble nounPhrases [0, 1])
    { cleanStopWords := true, validateBoundaries := false }).2 rfl .empty (by decide) .empty
    (oldAxes .one .zero)
  rcases (extract_uncleaned (.assemble nounPhrases [0, 1]) { validateBoundaries := false }).1 rfl
    .empty (.ofList ["axis"]) _ _ same with
    ⟨abort, failed, _⟩ | ⟨found, counterpart, first, second, simple, complex⟩
  · -- The first extraction ends.
    rw [ended] at failed
    cases failed
  · obtain rfl : extraction = found := Except.ok.inj (ended.symm.trans first)
    exact ⟨_, extraction, counterpart, build_nounPhrases, ended, texts, second, simple, complex,
      cleaned.trans ended⟩

end PhraseGrammar
