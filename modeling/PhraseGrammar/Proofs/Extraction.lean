import PhraseGrammar.Extraction
import PhraseGrammar.Proofs.BoundaryReduction
import PhraseGrammar.Proofs.CompositePass

/-! Whatever is extracted from a sentence is a piece of it that some pattern names. -/

namespace PhraseGrammar

variable {extractor : Extractor} {sentence : Sentence} {phrase : Phrase}

/-- A phrase of one of some patterns that shows a piece of a sentence, with all that it shows. -/
structure Phrase.Piece (extractor : Extractor) (sentence : Sentence) (patterns : List Pattern)
    (phrase : Phrase) : Prop extends phrase.Faithful extractor sentence where
  /-- There are as many tokens as positions. -/
  length_eq : phrase.tokens.length = phrase.span.length
  /-- The text has the words of the tokens with single spaces between them. -/
  text_eq : phrase.text = " ".intercalate ((sentence.slice phrase.span).map Token.text)
  /-- The pattern is one of the patterns. -/
  named : ∃ pattern ∈ patterns, phrase.pattern = pattern.name
  /-- Every token could fill some slot. -/
  usable : ∀ token ∈ phrase.tokens, extractor.registry.isUsable token
  /-- No token is a stop word where these take no part. -/
  cleaned : extractor.options.cleanStopWords → ∀ token ∈ phrase.tokens,
    ¬extractor.stopWords.contains token

/-- A faithful phrase of one of some patterns is a piece of its sentence. -/
theorem Phrase.Faithful.piece (faithful : phrase.Faithful extractor sentence)
    {patterns : List Pattern} {pattern : Pattern} (member : pattern ∈ patterns)
    (named : phrase.pattern = pattern.name) : phrase.Piece extractor sentence patterns := by
  -- A token that can take part is usable, and it is no stop word to be left out.
  have admitted (token : Token) (listed : token ∈ phrase.tokens) :
      extractor.registry.isUsable token ∧ extractor.isStopWord token = false := by
    simpa [Extractor.admits] using faithful.admitted token listed
  refine ⟨faithful, ?_, ?_, ⟨pattern, member, named⟩, fun token listed => (admitted token listed).1,
    fun cleans token listed isStopWord => ?_⟩
  · rw [faithful.tokens_eq, Sentence.length_slice faithful.ordered faithful.inside]
  · rw [← faithful.tokens_eq]
    rfl
  · have refused := (admitted token listed).2
    simp [Extractor.isStopWord, cleans, isStopWord] at refused

/-- Whatever stands in the second of two related lists is related to something in the first. -/
theorem exists_of_mem_forall₂ {α β : Type} {related : α → β → Prop} {items : List α}
    {results : List β} {result : β} (each : List.Forall₂ related items results)
    (member : result ∈ results) : ∃ item ∈ items, related item result := by
  -- The pairs are gone through in order, until the one with the result is met.
  induction each with
  | nil => cases member
  | cons here _ rest =>
    rcases List.mem_cons.mp member with rfl | later
    · exact ⟨_, List.mem_cons_self, here⟩
    · obtain ⟨item, listed, holds⟩ := rest later
      exact ⟨item, List.mem_cons_of_mem _ listed, holds⟩

namespace Extractor

/-- Every phrase of a block comes from a pattern of phrases. -/
theorem CompositeReading.piece {leaves block : List Phrase} {base : Phrase}
    (reading : extractor.CompositeReading sentence leaves base block) (member : phrase ∈ block) :
    phrase.Piece extractor sentence extractor.registry.compositePatterns := by
  rcases reading with ⟨rfl, _⟩ | ⟨before, pattern, after, split, _, _, sound, _⟩
  · cases member
  · -- The phrase is one of the pattern for which the block was found.
    obtain ⟨faithful, named, _⟩ := sound phrase member
    refine faithful.piece ?_ named
    rw [split]
    exact List.mem_append_right before List.mem_cons_self

/-- An extraction has what the two passes find, the phrases of phrases reduced. -/
theorem yields_of_extract {extraction : Extraction}
    (ended : extractor.extract sentence = .ok extraction) :
    ∃ simple complex, (extractor.leafPass sentence).Yields simple ∧
      (extractor.compositePass sentence simple).Yields complex ∧
      extraction = ⟨simple, extractor.reduce complex⟩ := by
  unfold extract at ended
  split at ended
  · rename_i found after ran
    cases ended
    -- What the run returns is what the two searches return one after the other.
    have whole : (extractor.search sentence).Yields extraction := ⟨_, after, ran⟩
    obtain ⟨simple, simpleEnded, whole⟩ := whole.of_bind
    obtain ⟨complex, complexEnded, whole⟩ := whole.of_bind
    exact ⟨simple, complex, simpleEnded, complexEnded, whole.of_pure⟩
  · cases ended

/-- Reducing the phrases of phrases adds none. -/
theorem reduce_subset (extractor : Extractor) (phrases : List Phrase) :
    extractor.reduce phrases ⊆ phrases := by
  unfold reduce
  split
  · exact (Phrase.reduceBoundaries_sublist phrases).subset
  · exact List.Subset.refl phrases

/-- The pass for phrases of phrases finds pieces of the sentence. -/
theorem pieces_of_compositePass (sound : extractor.registry.Sound) {leaves found : List Phrase}
    (leavesEnded : (extractor.leafPass sentence).Yields leaves)
    (ended : (extractor.compositePass sentence leaves).Yields found) (member : phrase ∈ found) :
    phrase.Piece extractor sentence extractor.registry.compositePatterns := by
  obtain ⟨blocks, readings, rfl⟩ :=
    compositePass_yields (isLeaf_of_leafPass sound leavesEnded) ended
  -- What stays without the echoes was found for some phrase of words.
  obtain ⟨block, isBlock, listed⟩ :=
    List.mem_flatten.mp ((Phrase.dropEchoes_sublist _).subset member)
  obtain ⟨base, _, reading⟩ := exists_of_mem_forall₂ readings isBlock
  exact reading.piece listed

/-- Both passes list pieces of the sentence. -/
theorem extract_pieces (sound : extractor.registry.Sound) {extraction : Extraction}
    (ended : extractor.extract sentence = .ok extraction) :
    (∀ phrase ∈ extraction.simple,
        phrase.Piece extractor sentence extractor.registry.leafPatterns) ∧
      ∀ phrase ∈ extraction.complex,
        phrase.Piece extractor sentence extractor.registry.compositePatterns := by
  obtain ⟨simple, complex, simpleEnded, complexEnded, rfl⟩ := yields_of_extract ended
  constructor
  · intro phrase member
    -- A phrase of words is one of the pattern whose head word it has.
    obtain ⟨pattern, registered, named, _⟩ := headed_of_leafPass sound simpleEnded member
    exact ((leafPass_yields sound simpleEnded).2 phrase member).piece registered named
  · intro phrase member
    -- What stays after the reduction was found by the pass.
    exact pieces_of_compositePass sound simpleEnded complexEnded (reduce_subset extractor _ member)

end Extractor

/-- Every phrase of an extraction is a faithful piece of the sentence. -/
theorem extract_faithful {patterns : List Pattern} {limit : Nat} {registry : Registry}
    (built : Registry.build patterns limit = .ok registry) {options : MatchOptions}
    {stopWords : StopWords} {sentence : Sentence} {extraction : Extraction}
    (ended : Extractor.extract ⟨registry, options, stopWords⟩ sentence = .ok extraction) :
    (∀ phrase ∈ extraction.simple,
        phrase.Piece ⟨registry, options, stopWords⟩ sentence registry.leafPatterns) ∧
      ∀ phrase ∈ extraction.complex,
        phrase.Piece ⟨registry, options, stopWords⟩ sentence registry.compositePatterns :=
  Extractor.extract_pieces (Registry.sound_of_build built) ended

/-- The cat and the black cat are pieces of their sentence. -/
theorem extract_faithful_blackCat : ∃ registry extraction,
    Registry.build nounPhrases = .ok registry ∧
      Extractor.extract ⟨registry, { validateBoundaries := false }, .empty⟩ blackCat =
        .ok extraction ∧
      extraction.simple.map Phrase.text = ["cat"] ∧
      extraction.complex.map Phrase.text = ["black cat"] ∧
      (∀ phrase ∈ extraction.simple,
        phrase.Piece ⟨registry, { validateBoundaries := false }, .empty⟩ blackCat
          registry.leafPatterns) ∧
      ∀ phrase ∈ extraction.complex,
        phrase.Piece ⟨registry, { validateBoundaries := false }, .empty⟩ blackCat
          registry.compositePatterns := by
  -- The passes are run before their results are named, as the budget is counted down in passing.
  obtain ⟨extraction, ended, simple, complex⟩ : ∃ extraction,
      Extractor.extract ⟨.assemble nounPhrases [0, 1], { validateBoundaries := false }, .empty⟩
          blackCat = .ok extraction ∧
        extraction.simple.map Phrase.text = ["cat"] ∧
        extraction.complex.map Phrase.text = ["black cat"] := ⟨_, rfl, rfl, rfl⟩
  exact ⟨_, extraction, build_nounPhrases, ended, simple, complex,
    extract_faithful build_nounPhrases ended⟩

end PhraseGrammar
