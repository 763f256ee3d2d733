import PhraseGrammar.Proofs.Agreement
import PhraseGrammar.Proofs.Budget
import PhraseGrammar.Proofs.Screening

/-! One more pattern of phrases after all the others takes no phrase away. -/

namespace PhraseGrammar

open Search

variable {patterns further : List Pattern} {limit greater : Nat} {registry larger : Registry}
  {options : MatchOptions} {stopWords : StopWords} {sentence : Sentence}

/-- A grammar knows the patterns of a smaller one by the same names. -/
theorem Registry.Sound.byName?_eq (sound : registry.Sound) (also : larger.Sound)
    (some : registry.patterns ⊆ larger.patterns) {name : String}
    (known : Known registry.patterns name) : registry.byName? name = larger.byName? name := by
  obtain ⟨pattern, member, rfl⟩ := List.mem_map.mp known
  rw [sound.byName?_name pattern member, also.byName?_name pattern (some member)]

namespace Extractor

/-- Of the tokens that could fill a slot of a grammar, a larger one lets the same ones pass. -/
theorem screen_alike_larger (built : Registry.build patterns limit = .ok registry)
    (builtLarger : Registry.build further greater = .ok larger)
    (some : registry.patterns ⊆ larger.patterns) :
    Screen.Alike registry.patterns (screen ⟨registry, options, stopWords⟩)
      (screen ⟨larger, options, stopWords⟩) := by
  -- The open screen does not depend on the grammar, so both are compared with it.
  have alike := screen_alike built options stopWords
  have alikeLarger := (screen_alike builtLarger options stopWords).mono some
  exact ⟨fun pattern member slot isSlot token fits =>
      (alike.admits pattern member slot isSlot token fits).trans
        (alikeLarger.admits pattern member slot isSlot token fits).symm,
    fun pattern member slot isHead token fits =>
      (alike.canHead pattern member slot isHead token fits).trans
        (alikeLarger.canHead pattern member slot isHead token fits).symm⟩

/-- The pass for phrases of words is the same search in grammars with the same patterns of words. -/
theorem leafPass_larger (built : Registry.build patterns limit = .ok registry)
    (builtLarger : Registry.build further greater = .ok larger)
    (some : registry.patterns ⊆ larger.patterns)
    (same : registry.leafPatterns = larger.leafPatterns) :
    leafPass ⟨registry, options, stopWords⟩ sentence =
      leafPass ⟨larger, options, stopWords⟩ sentence := by
  have alike : Screen.Alike registry.leafPatterns (screen ⟨registry, options, stopWords⟩)
      (screen ⟨larger, options, stopWords⟩) :=
    (screen_alike_larger built builtLarger some).mono fun _ member => List.mem_of_mem_filter member
  calc leafPass ⟨registry, options, stopWords⟩ sentence
      = leafPassThrough ⟨registry, options, stopWords⟩
          (screen ⟨registry, options, stopWords⟩) sentence := rfl
    _ = leafPassThrough ⟨registry, options, stopWords⟩
          (screen ⟨larger, options, stopWords⟩) sentence := leafPassThrough_screen alike
    _ = leafPass ⟨larger, options, stopWords⟩ sentence := by
      simp only [leafPassThrough, same]
      rfl

/-- A phrase grows into a pattern of the smaller grammar in the same way in the larger one. -/
theorem compositeCandidates_larger (built : Registry.build patterns limit = .ok registry)
    (builtLarger : Registry.build further greater = .ok larger)
    (some : registry.patterns ⊆ larger.patterns) {pattern : Pattern}
    (member : pattern ∈ registry.patterns) (leaves : LeafIndex) (base : Phrase) (number : Nat) :
    compositeCandidates registry (surroundings ⟨registry, options, stopWords⟩ sentence) leaves base
        number pattern =
      compositeCandidates larger (surroundings ⟨larger, options, stopWords⟩ sentence) leaves base
        number pattern := by
  refine compositeCandidates_screen (fun component isSlot => ?_) leaves base number
  cases component with
  | word slot =>
    exact (screen_alike_larger built builtLarger some).admits pattern member slot
      (Pattern.mem_wordSlots.mpr isSlot)
  | model slot =>
    -- What the slot refers to is registered in the smaller grammar already.
    have sound := Registry.sound_of_build built
    exact sound.byName?_eq (Registry.sound_of_build builtLarger) some
      (sound.resolved pattern member slot isSlot)

/-- The phrases of the first pattern that fits a base are the same with later patterns behind it. -/
theorem firstFound_larger (built : Registry.build patterns limit = .ok registry)
    (builtLarger : Registry.build further greater = .ok larger)
    (some : registry.patterns ⊆ larger.patterns) (later : List Pattern) (leaves : List Phrase)
    (base : Phrase) (number : Nat) :
    Within
      (firstFound (compositeCandidates registry
        (surroundings ⟨registry, options, stopWords⟩ sentence) (.ofList leaves) base number)
        registry.compositePatterns)
      (firstFound (compositeCandidates larger
        (surroundings ⟨larger, options, stopWords⟩ sentence) (.ofList leaves) base number)
        (registry.compositePatterns ++ later)) := by
  have grown : ∀ pattern ∈ registry.compositePatterns,
      compositeCandidates registry (surroundings ⟨registry, options, stopWords⟩ sentence)
          (.ofList leaves) base number pattern =
        compositeCandidates larger (surroundings ⟨larger, options, stopWords⟩ sentence)
          (.ofList leaves) base number pattern := fun pattern member =>
    compositeCandidates_larger built builtLarger some (List.mem_of_mem_filter member) _ base number
  rw [firstFound_congr grown]
  -- A search with a price finds the same each time.
  exact Within.firstFound_append (fun pattern _ found other ended also =>
    (compositeCandidates_priced_any ⟨larger, options, stopWords⟩ sentence leaves base number
      pattern).unique ended also) later

/-- Patterns of phrases that come later take no text away from what the pass finds. -/
theorem compositePass_larger (built : Registry.build patterns limit = .ok registry)
    (builtLarger : Registry.build further greater = .ok larger)
    (some : registry.patterns ⊆ larger.patterns) {later : List Pattern}
    (split : larger.compositePatterns = registry.compositePatterns ++ later)
    (leaves : List Phrase) :
    Agree (fun found others => ∀ phrase ∈ found, ∃ other ∈ others, other.text = phrase.text)
      (compositePass ⟨registry, options, stopWords⟩ sentence leaves)
      (compositePass ⟨larger, options, stopWords⟩ sentence leaves) := by
  unfold compositePass
  dsimp only
  rw [split]
  refine (Within.gather fun next _ => firstFound_larger built builtLarger some later leaves next.1
    next.2).bind fun found others subset => .ofPure fun phrase member => ?_
  -- A phrase may be an echo in the larger list, but then its text stands before it.
  exact Phrase.exists_mem_dropEchoes_text (subset ((Phrase.dropEchoes_sublist found).subset member))

end Extractor

/-- One more pattern of phrases changes no phrase of words, and every text found is found again. -/
theorem extract_conservative {pattern : Pattern}
    (built : Registry.build patterns limit = .ok registry) (composite : pattern.isLeaf = false)
    (builtLarger : Registry.build (patterns ++ [pattern]) greater = .ok larger)
    (unreduced : options.validateBoundaries = false) {before after : Extraction}
    (ended : Extractor.extract ⟨registry, options, stopWords⟩ sentence = .ok before)
    (endedLarger : Extractor.extract ⟨larger, options, stopWords⟩ sentence = .ok after) :
    before.simple = after.simple ∧
      ∀ phrase ∈ before.complex, ∃ other ∈ after.complex, other.text = phrase.text := by
  have isRegistered := Registry.patterns_of_build built
  have isLarger := Registry.patterns_of_build builtLarger
  have some : registry.patterns ⊆ larger.patterns := by
    rw [isRegistered, isLarger]
    exact List.subset_append_left patterns [pattern]
  have leafPatterns : registry.leafPatterns = larger.leafPatterns := by
    simp [Registry.leafPatterns, isRegistered, isLarger, composite]
  have compositePatterns : larger.compositePatterns = registry.compositePatterns ++ [pattern] := by
    simp [Registry.compositePatterns, isRegistered, isLarger, composite]
  have whole (extractor : Extractor) (off : extractor.options.validateBoundaries = false)
      (phrases : List Phrase) : extractor.reduce phrases = phrases := by
    rw [Extractor.reduce, off, if_neg Bool.false_ne_true]
  obtain ⟨simple, complex, simpleEnded, complexEnded, rfl⟩ := Extractor.yields_of_extract ended
  obtain ⟨others, found, othersEnded, foundEnded, rfl⟩ := Extractor.yields_of_extract endedLarger
  -- The passes for phrases of words are one search, so they find the same.
  rw [← Extractor.leafPass_larger built builtLarger some leafPatterns] at othersEnded
  obtain rfl : simple = others :=
    (Extractor.leafPass_priced ⟨registry, options, stopWords⟩ sentence).unique simpleEnded
      othersEnded
  rw [whole _ unreduced, whole _ unreduced]
  exact ⟨rfl, Extractor.compositePass_larger built builtLarger some compositePatterns simple _ _
    complexEnded foundEnded⟩

/-- A noun before a verb. -/
def verbPhrase : Pattern :=
  ⟨"verb phrase", [.model { pattern := "noun", condition := .ofRole .head },
    .word { pos := .verb }]⟩

/-- The small grammar is registered with one more pattern over the noun. -/
theorem build_verbPhrase :
    Registry.build (nounPhrases ++ [verbPhrase]) =
      .ok (.assemble (nounPhrases ++ [verbPhrase]) [0, 1, 1]) :=
  Registry.build_of_flat (Registry.checkNames_eq_none_iff.mp rfl) (by decide) (by decide)

/-- With a pattern for a noun before a verb the sleeping dog is found behind the black cat. -/
theorem extract_conservative_sleepingDog : ∃ registry larger before after,
    Registry.build nounPhrases = .ok registry ∧
      Registry.build (nounPhrases ++ [verbPhrase]) = .ok larger ∧
      Extractor.extract ⟨registry, { validateBoundaries := false }, .empty⟩ sleepingDog =
        .ok before ∧
      Extractor.extract ⟨larger, { validateBoundaries := false }, .empty⟩ sleepingDog =
        .ok after ∧
      before.complex.map Phrase.text = ["black cat"] ∧
      after.complex.map Phrase.text = ["black cat", "dog sleeps"] ∧
      before.simple = after.simple ∧
      ∀ phrase ∈ before.complex, ∃ other ∈ after.complex, other.text = phrase.text := by
  obtain ⟨before, ended, texts⟩ : ∃ before,
      Extractor.extract ⟨.assemble nounPhrases [0, 1], { validateBoundaries := false }, .empty⟩
        sleepingDog = .ok before ∧ before.complex.map Phrase.text = ["black cat"] :=
    ⟨_, rfl, rfl⟩
  obtain ⟨after, endedLarger, textsLarger⟩ : ∃ after,
      Extractor.extract ⟨.assemble (nounPhrases ++ [verbPhrase]) [0, 1, 1],
        { validateBoundaries := false }, .empty⟩ sleepingDog = .ok after ∧
      after.complex.map Phrase.text = ["black cat", "dog sleeps"] := ⟨_, rfl, rfl⟩
  exact ⟨_, _, before, after, build_nounPhrases, build_verbPhrase, ended, endedLarger, texts,
    textsLarger, extract_conservative build_nounPhrases rfl build_verbPhrase rfl ended endedLarger⟩

end PhraseGrammar
