import PhraseGrammar.Proofs.Extraction

/-! Only patterns one level above words are found, as every slot for a phrase takes one of words. -/

namespace PhraseGrammar

variable {patterns : List Pattern} {limit : Nat} {registry : Registry} {pattern : Pattern}

/-- Whether every slot for a phrase refers to a pattern of words that has a head. -/
def Registry.Shallow (registry : Registry) (pattern : Pattern) : Prop :=
  ∀ slot, Component.model slot ∈ pattern.components → ∃ named,
    registry.byName? slot.pattern = some named ∧ named.isLeaf ∧ named.headIndex?.isSome

namespace Registry

/-- Patterns of a sound registry with one name are one pattern. -/
theorem Sound.eq_of_name (sound : registry.Sound) {other : Pattern}
    (member : pattern ∈ registry.patterns) (listed : other ∈ registry.patterns)
    (same : pattern.name = other.name) : pattern = other := by
  have found := sound.byName?_name pattern member
  rw [same, sound.byName?_name other listed] at found
  exact (Option.some.inj found).symm

/-- A pattern of phrases over patterns of words alone has one level of references. -/
theorem Shallow.hasDepth (sound : registry.Sound) (shallow : registry.Shallow pattern)
    (composite : pattern.isLeaf = false) {id : Nat} (stands : registry.patterns[id]? = some pattern) :
    HasDepth registry.patterns id 1 := by
  have resolved := sound.resolved pattern (List.mem_of_getElem? stands)
  refine hasDepth_one (exists_refers resolved stands composite) ?_
  rintro target ⟨source, other, here, there, listed⟩
  cases stands.symm.trans here
  -- What is found by the name of a slot is the pattern of words that the slot refers to.
  obtain ⟨slot, isSlot, same⟩ := Pattern.mem_references.mp listed
  obtain ⟨named, found, isLeaf, _⟩ := shallow slot isSlot
  rw [same, sound.byName?_name other (List.mem_of_getElem? there)] at found
  cases found
  exact hasDepth_zero there isLeaf

end Registry

/-- Every slot of a row that is passed has been passed in some step. -/
theorem Along.exists_step {α σ : Type} {step : α → Span → σ → σ → Prop} {slots : List α}
    {runs : List Span} {start final : σ} (along : Along step slots runs start final) {slot : α}
    (member : slot ∈ slots) : ∃ run before after, step slot run before after := by
  induction slots generalizing runs start with
  | nil => cases member
  | cons first slots rest =>
    cases runs with
    | nil => exact absurd along id
    | cons run runs =>
      obtain ⟨next, stepped, along⟩ := along
      rcases List.mem_cons.mp member with rfl | later
      · exact ⟨run, start, next, stepped⟩
      · exact rest along later

namespace Extractor

variable {extractor : Extractor} {sentence : Sentence} {leaves found : List Phrase}
  {base phrase : Phrase}

/-- Where a pattern is bound, some phrase of words fills each of its slots for phrases. -/
theorem Binds.exists_leaf {span : Span} (binds : extractor.Binds sentence leaves base pattern span)
    (isBase : base ∈ leaves) {slot : ModelSlot} (member : Component.model slot ∈ pattern.components) :
    ∃ leaf ∈ leaves, leaf.pattern = slot.pattern := by
  obtain ⟨anchor, runs, ⟨index, _⟩, binding⟩ := binds
  obtain ⟨number, stands⟩ := List.mem_iff_getElem?.mp member
  obtain ⟨run, before, after, filled, _⟩ :=
    binding.exists_step (List.mk_mem_zipIdx_iff_getElem?.mpr stands)
  unfold FillsAt at filled
  split at filled
  · -- The base fills the slot that the search starts with.
    rename_i same
    obtain ⟨_, other, there, named⟩ := Pattern.model_of_modelSlotIndex? index
    rw [Pattern.component?, ← same] at there
    cases stands.symm.trans there
    exact ⟨base, isBase, named.symm⟩
  · obtain ⟨leaf, isLeaf, _, takes⟩ := filled
    exact ⟨leaf, isLeaf, takes.named⟩

/-- What the pass for phrases of phrases finds is of patterns over headed patterns of words. -/
theorem shallow_of_compositePass (sound : extractor.registry.Sound)
    (leavesEnded : (extractor.leafPass sentence).Yields leaves)
    (ended : (extractor.compositePass sentence leaves).Yields found) (member : phrase ∈ found) :
    ∃ pattern ∈ extractor.registry.compositePatterns, phrase.pattern = pattern.name ∧
      extractor.registry.Shallow pattern := by
  obtain ⟨blocks, readings, rfl⟩ :=
    compositePass_yields (isLeaf_of_leafPass sound leavesEnded) ended
  obtain ⟨block, isBlock, listed⟩ :=
    List.mem_flatten.mp ((Phrase.dropEchoes_sublist _).subset member)
  obtain ⟨base, isBase, reading⟩ := exists_of_mem_forall₂ readings isBlock
  rcases reading with ⟨rfl, _⟩ | ⟨before, pattern, after, split, _, _, bound, _⟩
  · cases listed
  · obtain ⟨_, named, binds⟩ := bound phrase listed
    refine ⟨pattern, ?_, named, fun slot isSlot => ?_⟩
    · rw [split]
      exact List.mem_append_right before List.mem_cons_self
    · -- What fills the slot comes from the pass for phrases of words, so it has a head word.
      obtain ⟨leaf, isLeaf, same⟩ := binds.exists_leaf isBase isSlot
      obtain ⟨referenced, registered, named, _, _, _, _, isHead, _⟩ :=
        headed_of_leafPass sound leavesEnded isLeaf
      obtain ⟨listed, words⟩ := List.mem_filter.mp registered
      refine ⟨referenced, ?_, words, Pattern.isSome_headIndex? isHead⟩
      rw [← same, named]
      exact sound.byName?_name referenced listed

/-- An extracted phrase of phrases is of a pattern over headed patterns of words. -/
theorem shallow_of_extract (sound : extractor.registry.Sound) {extraction : Extraction}
    (ended : extractor.extract sentence = .ok extraction) (member : phrase ∈ extraction.complex) :
    ∃ pattern ∈ extractor.registry.compositePatterns, phrase.pattern = pattern.name ∧
      extractor.registry.Shallow pattern := by
  obtain ⟨simple, complex, simpleEnded, complexEnded, rfl⟩ := yields_of_extract ended
  exact shallow_of_compositePass sound simpleEnded complexEnded (reduce_subset extractor _ member)

end Extractor

/-- Only one level of nesting is ever found, and patterns that refer deeper are found nowhere. -/
theorem extract_shallow (built : Registry.build patterns limit = .ok registry)
    {options : MatchOptions} {stopWords : StopWords} {sentence : Sentence} {extraction : Extraction}
    (ended : Extractor.extract ⟨registry, options, stopWords⟩ sentence = .ok extraction) :
    (∀ phrase ∈ extraction.complex, ∃ id pattern, registry.idOf? phrase.pattern = some id ∧
      registry.get? id = some pattern ∧ pattern.name = phrase.pattern ∧
      registry.Shallow pattern ∧ registry.nestingDepth? id = some 1) ∧
    ∀ pattern ∈ registry.compositePatterns,
      (∃ slot named, Component.model slot ∈ pattern.components ∧
        registry.byName? slot.pattern = some named ∧
        (named.isLeaf = false ∨ named.headIndex? = none)) →
      ∀ phrase ∈ extraction.simple ++ extraction.complex, phrase.pattern ≠ pattern.name := by
  have sound := Registry.sound_of_build built
  obtain ⟨wellNamed, _, nesting, rfl⟩ := Registry.of_build built
  refine ⟨fun phrase member => ?_, ?_⟩
  · obtain ⟨pattern, registered, named, shallow⟩ := Extractor.shallow_of_extract sound ended member
    obtain ⟨listed, composite⟩ := List.mem_filter.mp registered
    rw [Bool.not_eq_true'] at composite
    obtain ⟨id, stands⟩ := List.mem_iff_getElem?.mp listed
    have inside : id < patterns.length := (List.getElem?_eq_some_iff.mp stands).1
    -- The depth that is registered is that of the longest chain, and the chains have one step.
    obtain ⟨depth, isDepth, greatest⟩ := Registry.hasDepth_of_build built inside
    rw [greatest.unique (shallow.hasDepth sound composite stands)] at isDepth
    exact ⟨id, pattern, wellNamed.indexOf?_eq_some_iff.mpr ⟨pattern, stands, named.symm⟩, stands,
      named.symm, shallow, isDepth⟩
  · rintro pattern registered ⟨slot, referenced, isSlot, found, deep⟩ phrase member same
    obtain ⟨listed, composite⟩ := List.mem_filter.mp registered
    rw [Bool.not_eq_true'] at composite
    rcases List.mem_append.mp member with member | member
    · -- A phrase of words is one of a pattern of words, which is another one.
      obtain ⟨other, isLeaf, named⟩ := ((Extractor.extract_pieces sound ended).1 phrase member).named
      obtain ⟨isListed, words⟩ := List.mem_filter.mp isLeaf
      rw [sound.eq_of_name listed isListed (same.symm.trans named), words] at composite
      cases composite
    · obtain ⟨other, isOther, named, shallow⟩ := Extractor.shallow_of_extract sound ended member
      obtain rfl := sound.eq_of_name listed (List.mem_filter.mp isOther).1 (same.symm.trans named)
      obtain ⟨known, foundAgain, words, headed⟩ := shallow slot isSlot
      cases found.symm.trans foundAgain
      rcases deep with notWords | headless
      · rw [words] at notWords
        cases notWords
      · rw [headless] at headed
        cases headed

/-- A grammar in which one pattern refers to a pattern of phrases, and another one to a pattern without a
head. -/
def stressedNouns : List Pattern :=
  [⟨"noun", [.word { pos := .noun, condition := .ofRole .head }]⟩,
    ⟨"exclamation", [.word { pos := .interjection }]⟩,
    ⟨"described noun", [.word { pos := .adjective },
      .model { pattern := "noun", condition := .ofRole .head }]⟩,
    ⟨"stressed noun", [.word { pos := .adverb },
      .model { pattern := "described noun", condition := .ofRole .head }]⟩,
    ⟨"exclaimed noun", [.model { pattern := "noun", condition := .ofRole .head },
      .model { pattern := "exclamation" }]⟩]

/-- The grammar is registered, with two levels of phrases over nouns. -/
theorem build_stressedNouns :
    Registry.build stressedNouns = .ok (.assemble stressedNouns [0, 0, 1, 2, 1]) :=
  @Registry.build_of_graded _ (stressedNouns.zip [0, 0, 1, 2, 1])
    (Registry.checkNames_eq_none_iff.mp rfl) (by decide) (by decide)

/-- A sentence of an adverb, an adjective, a noun and an interjection. -/
def veryBlackCat : Sentence where
  document := 1
  id := 1
  tokens := ⟨"very", [⟨.adverb, .empty, .ofText "very", .one⟩]⟩ ::
    (blackCat.tokens ++ [⟨"oh", [⟨.interjection, .empty, .ofText "oh", .one⟩]⟩])

/-- The black cat is one level above the cat; neither the very black cat is found nor the cat with its
exclamation. -/
theorem extract_shallow_veryBlackCat : ∃ registry extraction,
    Registry.build stressedNouns = .ok registry ∧
      Extractor.extract ⟨registry, { validateBoundaries := false }, .empty⟩ veryBlackCat =
        .ok extraction ∧
      extraction.complex.map Phrase.text = ["black cat"] ∧
      (∀ phrase ∈ extraction.complex, ∃ id pattern, registry.idOf? phrase.pattern = some id ∧
        registry.get? id = some pattern ∧ pattern.name = phrase.pattern ∧
        registry.Shallow pattern ∧ registry.nestingDepth? id = some 1) ∧
      ∀ phrase ∈ extraction.simple ++ extraction.complex,
        phrase.pattern ≠ "stressed noun" ∧ phrase.pattern ≠ "exclaimed noun" := by
  obtain ⟨extraction, ended, texts⟩ : ∃ extraction,
      Extractor.extract ⟨.assemble stressedNouns [0, 0, 1, 2, 1], { validateBoundaries := false },
          .empty⟩ veryBlackCat = .ok extraction ∧
        extraction.complex.map Phrase.text = ["black cat"] := ⟨_, rfl, rfl⟩
  obtain ⟨shallow, deeper⟩ := extract_shallow build_stressedNouns ended
  -- What the two patterns refer to is found by its name.
  have sound := Registry.sound_of_build build_stressedNouns
  have described := sound.byName?_name _ (List.mem_of_getElem? (i := 2) rfl)
  have exclamation := sound.byName?_name _ (List.mem_of_getElem? (i := 1) rfl)
  refine ⟨_, extraction, build_stressedNouns, ended, texts, shallow, fun phrase member => ⟨?_, ?_⟩⟩
  · exact deeper _ (List.mem_filter.mpr ⟨List.mem_of_getElem? (i := 3) rfl, rfl⟩)
      ⟨_, _, List.mem_of_getElem? (i := 1) rfl, described, .inl rfl⟩ phrase member
  · exact deeper _ (List.mem_filter.mpr ⟨List.mem_of_getElem? (i := 4) rfl, rfl⟩)
      ⟨_, _, List.mem_of_getElem? (i := 1) rfl, exclamation, .inr rfl⟩ phrase member

end PhraseGrammar
