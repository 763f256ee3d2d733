import PhraseGrammar.Proofs.Echoes
import PhraseGrammar.Proofs.LeafGrowth
import PhraseGrammar.Proofs.NestingDepth

/-! The pass for phrases of words finds each pattern where its slots can be filled, and no other. -/

namespace PhraseGrammar

/-- What the places of a list have in front are its items that are not refused. -/
theorem filterMap_head?_runs {α : Type} (items : List (α × Bool)) :
    (runs items).filterMap List.head? = (items.filter (·.2)).map (·.1) := by
  -- An admitted item is in front of its place, and a refused one leaves it empty.
  induction items with
  | nil => rfl
  | cons item items rest =>
    rw [runs_cons, List.filter_cons]
    by_cases admitted : item.2 = true
    · rw [if_pos admitted, if_pos admitted, List.filterMap_cons, List.head?_cons, List.map_cons,
        rest]
    · rw [if_neg admitted, if_neg admitted, List.filterMap_cons, List.head?_nil, rest]

/-- Items for which there is nothing can be left out. -/
theorem flatMap_filter {α β : Type} {items : List α} {test : α → Bool} {results : α → List β}
    (nothing : ∀ item ∈ items, ¬test item → results item = []) :
    (items.filter test).flatMap results = items.flatMap results := by
  induction items with
  | nil => rfl
  | cons item items rest =>
    obtain ⟨here, later⟩ := List.forall_mem_cons.mp nothing
    rw [List.filter_cons, List.flatMap_cons, ← rest later]
    -- An item that is left out would have given nothing.
    by_cases kept : test item = true
    · rw [if_pos kept, List.flatMap_cons]
    · rw [if_neg kept, here kept, List.nil_append]

/-- The tokens of a sentence are numbered by its positions. -/
theorem Sentence.map_snd_zipIdx (sentence : Sentence) :
    sentence.tokens.zipIdx.map Prod.snd = List.range sentence.length := by
  rw [List.zipIdx_map_snd, List.range_eq_range', length]

/-- The admitted tokens of a sentence are found with their positions in order. -/
theorem Surroundings.admitted_ofSentence (admits : Token → Bool) (sentence : Sentence) :
    (ofSentence admits sentence).admitted =
      sentence.tokens.zipIdx.filter fun next => admits next.1 := by
  -- Every token carries its own position, wherever it comes to stand.
  simp only [admitted, ofSentence, filterMap_head?_runs, flagged, List.filter_map, List.map_map]
  exact List.map_id _

variable {extractor : Extractor} {sentence : Sentence} {pattern : Pattern}

/-- The slots for words on a side of the head are the slots there. -/
theorem Pattern.map_word_slotsBeyond (leaf : pattern.isLeaf) (head : Nat) :
    (pattern.wordSlots.take head).reverse.map .word = pattern.slotsBeyond .left head ∧
      (pattern.wordSlots.drop (head + 1)).map .word = pattern.slotsBeyond .right head := by
  simp only [slotsBeyond, components_of_isLeaf leaf]
  exact ⟨by rw [List.map_reverse, List.map_take], List.map_drop⟩

/-- A token that meets a slot has a reading of its part of speech. -/
theorem WordSlot.exists_reading {slot : WordSlot} {token : Token} (fits : slot.matchesToken token) :
    ∃ reading ∈ token.readings, reading.pos = slot.pos := by
  simp only [matchesToken, Condition.matchesToken, Bool.and_eq_true, Bool.not_eq_true',
    List.isEmpty_eq_false_iff_exists_mem, List.all_eq_true, decide_eq_true_eq] at fits
  obtain ⟨⟨reading, listed⟩, all⟩ := fits
  exact ⟨reading, listed, (all reading listed).1⟩

/-- A token that meets the head slot of a pattern could fill some head slot. -/
theorem Registry.Sound.isHeadCandidate {registry : Registry} (sound : registry.Sound)
    {slot : WordSlot} {token : Token} (member : pattern ∈ registry.patterns)
    (isHead : pattern.headWord? = some slot) (fits : slot.matchesToken token) :
    registry.isHeadCandidate token := by
  obtain ⟨reading, listed, same⟩ := slot.exists_reading fits
  refine List.any_eq_true.mpr ⟨reading, listed, ?_⟩
  rw [same]
  exact sound.isHeadPos pattern member slot isHead

namespace Surroundings

/-- Growing to both sides of a head finds a phrase for every span of the pattern around it. -/
theorem growBoth_reading {anchor : Phrase} {head position : Nat} {found : List Phrase}
    (leaf : pattern.isLeaf) (faithful : anchor.Faithful extractor sentence)
    (shown : anchor.occurrence =
      sentence.occurrence pattern.name ⟨position, position⟩ (some position))
    (ended : (growBoth (extractor.surroundings sentence) pattern head anchor).Yields found) :
    found.map Phrase.occurrence =
        (extractor.leafSpans sentence pattern head position).map (fun span =>
          sentence.occurrence pattern.name span (some position)) ∧
      ∀ phrase ∈ found, phrase.Faithful extractor sentence := by
  obtain ⟨leftSlots, rightSlots⟩ := Pattern.map_word_slotsBeyond leaf head
  unfold growBoth at ended
  unfold Extractor.leafSpans
  split at ended
  · rename_i single
    rw [if_pos single, ended.of_pure]
    exact ⟨by rw [List.map_singleton, List.map_singleton, shown], by simpa using faithful⟩
  · rename_i several
    obtain ⟨left, leftEnded, ended⟩ := ended.of_bind
    obtain ⟨right, rightEnded, ended⟩ := ended.of_bind
    have leftReach := Phrase.grow_reach faithful leftEnded
    rw [leftSlots] at leftReach
    obtain ⟨seedFaithful, seedShown⟩ := leftReach.seed faithful
    obtain ⟨rightShown, rightFaithful⟩ := Phrase.grow_reach seedFaithful rightEnded
    obtain ⟨leftShown, leftFaithful⟩ := leftReach
    -- Both sides only depend on what the head and the longest phrase to the left show.
    obtain ⟨span, name, head⟩ := Phrase.of_occurrence_eq shown
    rw [span, name, head] at seedShown leftShown
    obtain ⟨seedSpan, seedName, seedHead⟩ := Phrase.of_occurrence_eq seedShown
    rw [rightSlots, seedSpan, seedName, seedHead] at rightShown
    rw [if_neg several, ended.of_pure]
    refine ⟨?_, fun phrase member =>
      (List.mem_append.mp member).elim (leftFaithful phrase) (rightFaithful phrase)⟩
    rw [List.map_append, leftShown, rightShown, List.map_append, List.map_map, List.map_map]
    rfl

/-- The phrases of a pattern with their head at a token are those that its slots allow there. -/
theorem leafCandidates_reading {token : Token} {position : Nat} {found : List Phrase}
    (leaf : pattern.isLeaf) (stands : sentence.tokens[position]? = some token)
    (admits : extractor.admits token)
    (ended : (leafCandidates (extractor.surroundings sentence) token position pattern).Yields
      found) :
    found.map Phrase.occurrence = extractor.leafOccurrences sentence position pattern ∧
      ∀ phrase ∈ found, phrase.Faithful extractor sentence := by
  unfold leafCandidates at ended
  unfold Extractor.leafOccurrences
  cases index : pattern.headIndex? with
  | none =>
    -- A pattern without a head is found nowhere.
    rw [index] at ended
    rw [ended.of_pure]
    exact ⟨rfl, by simp⟩
  | some head =>
    obtain ⟨slot, isHead, atHead⟩ := Pattern.headWord?_of_isLeaf leaf index
    simp only [index, isHead] at ended
    simp only [Option.bind_some, atHead, Extractor.eligible_word_eq stands admits]
    split at ended
    · rename_i fits
      obtain ⟨_, _, ended⟩ := ended.of_bind
      -- What grows is the phrase of the head alone.
      have faithful : (Phrase.ofToken sentence token position pattern.name).Faithful extractor
          sentence := Phrase.faithful_ofToken stands admits
      rw [if_pos fits]
      exact growBoth_reading leaf faithful faithful.occurrence_eq ended
    · -- No phrase has its head where the head slot is not met.
      rename_i misfit
      rw [if_neg misfit, ended.of_pure]
      exact ⟨rfl, by simp⟩

end Surroundings

namespace Extractor

/-- The occurrences of all patterns of words in a sentence, by the position of their head. -/
def leafReading (extractor : Extractor) (sentence : Sentence) : List Occurrence :=
  (List.range sentence.length).flatMap fun position =>
    extractor.registry.leafPatterns.flatMap (extractor.leafOccurrences sentence position)

/-- A pattern occurs only at tokens that can take part and could fill some head slot. -/
theorem leafOccurrences_eq_nil (sound : extractor.registry.Sound) {token : Token} {position : Nat}
    (stands : sentence.tokens[position]? = some token)
    (member : pattern ∈ extractor.registry.leafPatterns)
    (refused : ¬(extractor.admits token ∧ extractor.registry.isHeadCandidate token)) :
    extractor.leafOccurrences sentence position pattern = [] := by
  obtain ⟨registered, leaf⟩ := List.mem_filter.mp member
  unfold leafOccurrences
  cases index : pattern.headIndex? with
  | none => rfl
  | some head =>
    obtain ⟨slot, isHead, atHead⟩ := Pattern.headWord?_of_isLeaf leaf index
    simp only [Option.bind_some, atHead]
    -- An eligible token is admitted, and it meets a head slot.
    refine if_neg fun eligible => refused ?_
    obtain ⟨other, same, admits, fits⟩ := eligible_word_iff.mp eligible
    cases stands.symm.trans same
    exact ⟨admits, sound.isHeadCandidate registered isHead fits⟩

/-- The pass finds the occurrences of all patterns of words before it drops echoes. -/
theorem leafPass_candidates (sound : extractor.registry.Sound) {leaves : List Phrase}
    (ended : (extractor.leafPass sentence).Yields leaves) :
    ∃ candidates, leaves = Phrase.dropEchoes candidates ∧
      candidates.map Phrase.occurrence = extractor.leafReading sentence ∧
      ∀ candidate ∈ candidates, candidate.Faithful extractor sentence := by
  obtain ⟨candidates, gathered, ended⟩ := ended.of_bind
  have heads : ∀ token position, (token, position) ∈ (extractor.surroundings sentence).admitted →
      sentence.tokens[position]? = some token ∧ extractor.admits token := by
    intro token position member
    rw [surroundings, Surroundings.admitted_ofSentence, List.mem_filter] at member
    exact ⟨List.mk_mem_zipIdx_iff_getElem?.mp member.1, member.2⟩
  -- At each head the patterns are found one after the other.
  obtain ⟨shown, faithful⟩ := gathered.of_gather_map Phrase.occurrence
    (fun next => extractor.registry.leafPatterns.flatMap
      (extractor.leafOccurrences sentence next.2))
    (fun phrase => phrase.Faithful extractor sentence) (by
      rintro ⟨token, position⟩ member block blockEnded
      obtain ⟨stands, admits⟩ := heads token position (List.mem_filter.mp member).1
      refine blockEnded.of_gather_map _ _ _ fun pattern listed found foundEnded => ?_
      have leaf := (List.mem_filter.mp listed).2
      exact Surroundings.leafCandidates_reading leaf stands admits foundEnded)
  refine ⟨candidates, ended.of_pure, ?_, faithful⟩
  rw [shown, leafReading]
  -- The tokens that are passed over are the head of no occurrence.
  rw [surroundings, Surroundings.admitted_ofSentence, List.filter_filter, flatMap_filter]
  · rw [← Sentence.map_snd_zipIdx, List.flatMap_map]
  · rintro ⟨token, position⟩ member refused
    have stands := List.mk_mem_zipIdx_iff_getElem?.mp member
    refine List.flatMap_eq_nil_iff.mpr fun pattern listed => ?_
    refine leafOccurrences_eq_nil sound stands listed ?_
    simpa [and_comm] using refused

/-- The pass finds the occurrences of all patterns of words, and drops echoes. -/
theorem leafPass_yields (sound : extractor.registry.Sound) {leaves : List Phrase}
    (ended : (extractor.leafPass sentence).Yields leaves) :
    leaves.map Phrase.occurrence =
        (extractor.leafReading sentence).destutter Occurrence.Differs ∧
      ∀ leaf ∈ leaves, leaf.Faithful extractor sentence := by
  obtain ⟨candidates, rfl, shown, faithful⟩ := leafPass_candidates sound ended
  rw [Phrase.map_occurrence_dropEchoes, shown]
  exact ⟨rfl, fun leaf member => faithful leaf ((Phrase.dropEchoes_sublist _).subset member)⟩

/-- A leaf is an occurrence of a registered pattern of words, the head word of which it has. -/
theorem headed_of_leafPass (sound : extractor.registry.Sound) {leaves : List Phrase}
    (ended : (extractor.leafPass sentence).Yields leaves) {leaf : Phrase} (member : leaf ∈ leaves) :
    ∃ pattern ∈ extractor.registry.leafPatterns, leaf.pattern = pattern.name ∧
      ∃ head slot token, leaf.head = some head ∧ pattern.headWord? = some slot ∧
        sentence.tokens[head]? = some token ∧ slot.matchesToken token := by
  obtain ⟨reading, _⟩ := leafPass_yields sound ended
  -- What the leaf shows has been listed for some head and some pattern.
  have listed : leaf.occurrence ∈ extractor.leafReading sentence := by
    refine (List.destutter_sublist Occurrence.Differs _).subset ?_
    rw [← reading]
    exact List.mem_map_of_mem member
  obtain ⟨position, _, listed⟩ := List.mem_flatMap.mp listed
  obtain ⟨pattern, isLeaf, listed⟩ := List.mem_flatMap.mp listed
  refine ⟨pattern, isLeaf, ?_⟩
  -- A pattern is listed only where its head slot is met.
  unfold leafOccurrences at listed
  cases index : pattern.headIndex? with
  | none => simp [index] at listed
  | some head =>
    obtain ⟨slot, isHead, atHead⟩ :=
      Pattern.headWord?_of_isLeaf (List.mem_filter.mp isLeaf).2 index
    simp only [index, Option.bind_some, atHead] at listed
    split at listed
    · rename_i eligible
      obtain ⟨token, stands, _, fits⟩ := eligible_word_iff.mp eligible
      obtain ⟨span, _, shown⟩ := List.mem_map.mp listed
      obtain ⟨_, named, headed⟩ := Phrase.of_occurrence_eq shown.symm
      exact ⟨named, position, slot, token, headed, isHead, stands, fits⟩
    · exact absurd listed List.not_mem_nil

end Extractor

/-- A small grammar: a noun, and a noun after an adjective. -/
def nounPhrases : List Pattern :=
  [⟨"noun", [.word { pos := .noun, condition := .ofRole .head }]⟩,
    ⟨"described noun", [.word { pos := .adjective },
      .model { pattern := "noun", condition := .ofRole .head }]⟩]

/-- A sentence of an adjective and a noun. -/
def blackCat : Sentence where
  document := 1
  id := 1
  tokens := [⟨"black", [⟨.adjective, .empty, .ofText "black", .one⟩]⟩,
    ⟨"cat", [⟨.noun, .empty, .ofText "cat", .one⟩]⟩]

/-- A sentence of two adjectives and a noun. -/
def bigBlackCat : Sentence where
  document := 1
  id := 1
  tokens := ⟨"big", [⟨.adjective, .empty, .ofText "big", .one⟩]⟩ :: blackCat.tokens

/-- The small grammar is registered. -/
theorem build_nounPhrases :
    Registry.build nounPhrases = .ok (.assemble nounPhrases [0, 1]) :=
  Registry.build_of_flat (Registry.checkNames_eq_none_iff.mp rfl) (by decide) (by decide)

/-- The pass over a sentence lists the occurrences of the patterns of words, and drops echoes. -/
theorem leafPass_reading {patterns : List Pattern} {limit : Nat} {registry : Registry}
    (built : Registry.build patterns limit = .ok registry) {options : MatchOptions}
    {stopWords : StopWords} {sentence : Sentence} {before after : Budget} {leaves : List Phrase}
    (ended : Extractor.leafPass ⟨registry, options, stopWords⟩ sentence before = .ok leaves after) :
    leaves.map Phrase.occurrence =
      (Extractor.leafReading ⟨registry, options, stopWords⟩ sentence).destutter
        Occurrence.Differs :=
  (Extractor.leafPass_yields (Registry.sound_of_build built) ⟨before, after, ended⟩).1

/-- A grammar of nouns between any number of adjectives and any number of adverbs. -/
def placedNouns : List Pattern :=
  [⟨"placed noun", [.word { pos := .adjective, condition := Condition.repeated {} },
    .word { pos := .noun, condition := .ofRole .head },
    .word { pos := .adverb, condition := Condition.repeated {} }]⟩]

/-- A sentence of two adjectives, a noun and two adverbs. -/
def bigBlackCatOutThere : Sentence :=
  { bigBlackCat with
    tokens := bigBlackCat.tokens ++ [⟨"out", [⟨.adverb, .empty, .ofText "out", .one⟩]⟩,
      ⟨"there", [⟨.adverb, .empty, .ofText "there", .one⟩]⟩] }

/-- Around the cat the pass goes word by word to the left, and then to the right. -/
theorem leafPass_reading_bigBlackCatOutThere : ∃ registry leaves after,
    Registry.build placedNouns = .ok registry ∧
      Extractor.leafPass ⟨registry, {}, .empty⟩ bigBlackCatOutThere (.ofOptions {}) =
        .ok leaves after ∧
      leaves.map Phrase.text =
        ["black cat", "big black cat", "big black cat out", "big black cat out there"] ∧
      leaves.map Phrase.occurrence =
        (Extractor.leafReading ⟨registry, {}, .empty⟩ bigBlackCatOutThere).destutter
          Occurrence.Differs := by
  have built : Registry.build placedNouns = .ok (.assemble placedNouns [0]) :=
    Registry.build_of_flat (Registry.checkNames_eq_none_iff.mp rfl) (by decide) (by decide)
  -- The budget is counted down in passing, so the pass is run before its result is named.
  obtain ⟨leaves, after, ended, texts⟩ : ∃ leaves after,
      Extractor.leafPass ⟨.assemble placedNouns [0], {}, .empty⟩ bigBlackCatOutThere
          (.ofOptions {}) = .ok leaves after ∧
        leaves.map Phrase.text =
          ["black cat", "big black cat", "big black cat out", "big black cat out there"] :=
    ⟨_, _, rfl, rfl⟩
  exact ⟨_, leaves, after, built, ended, texts, leafPass_reading built ended⟩

end PhraseGrammar
