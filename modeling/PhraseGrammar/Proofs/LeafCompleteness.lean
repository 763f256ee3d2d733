import PhraseGrammar.Proofs.Extraction

/-! A pattern of one word is found at every word that meets it, unless it has just been found there. -/

namespace PhraseGrammar

open Search

variable {extractor : Extractor} {sentence : Sentence} {pattern : Pattern} {slot : WordSlot}
  {position : Nat}

/-- Whether the token at a position repeats the text of the nearest eligible token before it. -/
def Extractor.Repeats (extractor : Extractor) (sentence : Sentence) (component : Component)
    (position : Nat) : Prop :=
  ∃ earlier, earlier < position ∧ extractor.eligible sentence component earlier ∧
    (∀ between, earlier < between → between < position →
      extractor.eligible sentence component between = false) ∧
    sentence.tokens[earlier]?.map Token.text = sentence.tokens[position]?.map Token.text

namespace Pattern

/-- A pattern of one head slot for a word occurs at the eligible positions, at each of them once. -/
theorem leafOccurrences_single (single : pattern.components = [.word slot])
    (isHead : slot.condition.isHead) :
    extractor.leafOccurrences sentence position pattern =
      if extractor.eligible sentence (.word slot) position then
        [sentence.occurrence pattern.name ⟨position, position⟩ (some position)]
      else [] := by
  have index : pattern.headIndex? = some 0 := by
    simp [headIndex?, single, List.findIdx?_cons, Component.isHead, Component.condition, isHead]
  have atHead : pattern.component? 0 = some (.word slot) := by
    rw [component?, single]
    rfl
  have one : pattern.length = 1 := by
    rw [length, single]
    rfl
  simp only [Extractor.leafOccurrences, index, Option.bind_some, atHead, Extractor.leafSpans,
    if_pos one, List.map_singleton]

end Pattern

namespace Extractor

/-- With one pattern of one word the reading lists the eligible positions. -/
theorem leafReading_single (only : extractor.registry.leafPatterns = [pattern])
    (single : pattern.components = [.word slot]) (isHead : slot.condition.isHead) :
    extractor.leafReading sentence =
      ((List.range sentence.length).filter (extractor.eligible sentence (.word slot))).map
        fun position => sentence.occurrence pattern.name ⟨position, position⟩ (some position) := by
  rw [leafReading, only]
  simp only [List.flatMap_singleton, Pattern.leafOccurrences_single single isHead]
  induction List.range sentence.length with
  | nil => rfl
  | cons position positions rest =>
    rw [List.flatMap_cons, List.filter_cons, rest]
    split <;> rfl

end Extractor

/-- The last of the numbers below a bound that pass a test is the nearest one to the bound. -/
theorem getLast?_filter_range {test : Nat → Bool} {bound nearest : Nat} :
    ((List.range bound).filter test).getLast? = some nearest ↔
      nearest < bound ∧ test nearest ∧
        ∀ between, nearest < between → between < bound → test between = false := by
  -- The numbers come to an end just below the bound.
  induction bound with
  | zero => simp
  | succ bound rest =>
    rw [List.range_succ, List.filter_append]
    by_cases passes : test bound = true
    · rw [List.filter_cons_of_pos passes, List.filter_nil, List.getLast?_append,
        List.getLast?_singleton, Option.some_or]
      constructor
      · intro same
        cases same
        exact ⟨Nat.lt_succ_self _, passes, fun between above below => by omega⟩
      · rintro ⟨below, _, none⟩
        -- A nearest number below the last one would not be the nearest.
        by_contra apart
        have lower : nearest < bound := by
          have : nearest ≠ bound := fun same => apart (congrArg some same.symm)
          omega
        rw [none bound lower (Nat.lt_succ_self _)] at passes
        cases passes
    · rw [List.filter_cons_of_neg passes, List.filter_nil, List.append_nil, rest]
      constructor
      · rintro ⟨below, fits, none⟩
        refine ⟨Nat.lt_succ_of_lt below, fits, fun between above also => ?_⟩
        rcases Nat.lt_succ_iff_lt_or_eq.mp also with lower | rfl
        · exact none between above lower
        · simpa using passes
      · rintro ⟨below, fits, none⟩
        have apart : nearest ≠ bound := by
          rintro rfl
          exact passes fits
        exact ⟨by omega, fits, fun between above lower => none between above (by omega)⟩

/-- A phrase that shows the token at a position reads like the token. -/
theorem Phrase.text_of_occurrence_eq {phrase : Phrase} {name : String} {head : Option Nat}
    {token : Token} (shown : phrase.occurrence = sentence.occurrence name ⟨position, position⟩ head)
    (stands : sentence.tokens[position]? = some token) : phrase.text = token.text := by
  have one : phrase.tokens = [token] := by
    rw [← Sentence.slice_single stands]
    exact congrArg Occurrence.tokens shown
  rw [← Phrase.text_occurrence, Occurrence.text]
  show " ".intercalate (phrase.tokens.map Token.text) = token.text
  rw [one]
  rfl

/-- A phrase apart from all others is there once after echoes are dropped, or it was an echo. -/
theorem Phrase.countP_dropEchoes {first second : List Phrase} {phrase : Phrase}
    (apart : ∀ other ∈ first ++ second, other.span ≠ phrase.span) :
    (dropEchoes (first ++ phrase :: second)).countP (fun other => other.span = phrase.span) =
      if first.getLast?.any fun before => before.row.readsLike phrase.row then 0 else 1 := by
  -- What stays of the phrases before and of those behind has other spans.
  have none (previous : Option Phrase) (phrases : List Phrase) (part : phrases ⊆ first ++ second) :
      (dropEchoesAfter previous phrases).countP (fun other => other.span = phrase.span) = 0 := by
    refine List.countP_eq_zero.mpr fun other member => ?_
    have listed := part ((dropEchoesAfter_sublist previous phrases).subset member)
    simpa using apart other listed
  rw [dropEchoes, dropEchoesAfter_append, Option.or_none, dropEchoesAfter_cons, List.countP_append,
    none _ first (List.subset_append_left ..), Nat.zero_add]
  split
  · exact none _ second (List.subset_append_right ..)
  · rw [List.countP_cons_of_pos (by simp), none _ second (List.subset_append_right ..)]

/-- A token is repeated if the last eligible one before it has its text. -/
theorem Extractor.repeats_iff {component : Component} :
    extractor.Repeats sentence component position ↔
      ∃ nearest, ((List.range position).filter (extractor.eligible sentence component)).getLast? =
          some nearest ∧
        sentence.tokens[nearest]?.map Token.text = sentence.tokens[position]?.map Token.text := by
  simp only [Repeats, getLast?_filter_range, and_assoc]

/-- Phrases that show single positions stand at these positions. -/
theorem exists_position_of_map_eq {phrases : List Phrase} {positions : List Nat} {name : String}
    (shown : phrases.map Phrase.occurrence = positions.map fun position =>
      sentence.occurrence name ⟨position, position⟩ (some position))
    {phrase : Phrase} (member : phrase ∈ phrases) :
    ∃ position ∈ positions, phrase.span = ⟨position, position⟩ := by
  have listed : phrase.occurrence ∈ phrases.map Phrase.occurrence := List.mem_map_of_mem member
  rw [shown] at listed
  obtain ⟨position, inside, same⟩ := List.mem_map.mp listed
  exact ⟨position, inside, (Phrase.of_occurrence_eq same.symm).1⟩

/-- A position stands between those before it and those behind it. -/
theorem range_eq_append_cons {length : Nat} (inside : position < length) :
    List.range length = List.range position ++
      position :: List.range' (position + 1) (length - (position + 1)) := by
  have rest : length - position = length - (position + 1) + 1 := by omega
  rw [← List.range'_succ, ← rest, List.range_eq_range', List.range_eq_range']
  have joined := @List.range'_append_1 0 position (length - position)
  rw [Nat.zero_add, Nat.add_sub_of_le (Nat.le_of_lt inside)] at joined
  exact joined.symm

/-- A phrase of one word echoes the one of the last eligible position if its token repeats that one. -/
theorem Extractor.echoes_iff_repeats {first : List Phrase} {phrase : Phrase} {token : Token}
    (shown : first.map Phrase.occurrence =
      ((List.range position).filter (extractor.eligible sentence (.word slot))).map fun earlier =>
        sentence.occurrence pattern.name ⟨earlier, earlier⟩ (some earlier))
    (stands : sentence.tokens[position]? = some token) (text : phrase.text = token.text) :
    (first.getLast?.any fun before => before.row.readsLike phrase.row) ↔
      extractor.Repeats sentence (.word slot) position := by
  -- The last phrase before this one shows the last eligible position before this one.
  have last := congrArg List.getLast? shown
  rw [List.getLast?_map, List.getLast?_map] at last
  rw [repeats_iff]
  cases nearest : ((List.range position).filter
      (extractor.eligible sentence (.word slot))).getLast? with
  | none =>
    rw [nearest, Option.map_none, Option.map_eq_none_iff] at last
    simp [last]
  | some place =>
    rw [nearest, Option.map_some, Option.map_eq_some_iff] at last
    obtain ⟨before, isLast, shownBefore⟩ := last
    obtain ⟨_, fits, _⟩ := getLast?_filter_range.mp nearest
    obtain ⟨earlier, standsEarlier, _⟩ := eligible_word_iff.mp fits
    have textBefore := Phrase.text_of_occurrence_eq shownBefore standsEarlier
    rw [isLast, Option.any_some, TokenRow.readsLike_iff]
    show before.text = phrase.text ↔ _
    rw [textBefore, text]
    simp [standsEarlier, stands]

/-- At an eligible position the pass has one phrase of one word, if it does not repeat the last one. -/
theorem Extractor.countP_leafPass (sound : extractor.registry.Sound)
    (only : extractor.registry.leafPatterns = [pattern])
    (single : pattern.components = [.word slot]) (isHead : slot.condition.isHead)
    {leaves : List Phrase} (ended : (extractor.leafPass sentence).Yields leaves)
    (eligible : extractor.eligible sentence (.word slot) position) :
    (extractor.Repeats sentence (.word slot) position →
        leaves.countP (fun leaf => leaf.span = ⟨position, position⟩) = 0) ∧
      (¬extractor.Repeats sentence (.word slot) position →
        leaves.countP (fun leaf => leaf.span = ⟨position, position⟩) = 1) := by
  obtain ⟨candidates, rfl, shown, _⟩ := leafPass_candidates sound ended
  obtain ⟨token, stands, _⟩ := eligible_word_iff.mp eligible
  have inside : position < sentence.length := (List.getElem?_eq_some_iff.mp stands).1
  -- The phrase at the position stands between those at the eligible positions around it.
  rw [leafReading_single only single isHead, range_eq_append_cons inside, List.filter_append,
    List.filter_cons_of_pos eligible, List.map_append, List.map_cons] at shown
  obtain ⟨first, rest, rfl, shownFirst, shown⟩ := List.map_eq_append_iff.mp shown
  obtain ⟨phrase, second, rfl, shownHere, shownSecond⟩ := List.map_eq_cons_iff.mp shown
  have span : phrase.span = ⟨position, position⟩ := (Phrase.of_occurrence_eq shownHere).1
  have apart : ∀ other ∈ first ++ second, other.span ≠ phrase.span := by
    intro other member same
    have there := congrArg Span.first (same.trans span)
    rcases List.mem_append.mp member with member | member
    · obtain ⟨place, listed, stood⟩ := exists_position_of_map_eq shownFirst member
      have below := List.mem_range.mp (List.mem_filter.mp listed).1
      rw [stood] at there
      exact absurd there (Nat.ne_of_lt below)
    · obtain ⟨place, listed, stood⟩ := exists_position_of_map_eq shownSecond member
      have above := (List.mem_range'_1.mp (List.mem_filter.mp listed).1).1
      rw [stood] at there
      exact absurd there (Nat.ne_of_gt above)
  have echo := echoes_iff_repeats shownFirst stands (Phrase.text_of_occurrence_eq shownHere stands)
  rw [← span, Phrase.countP_dropEchoes apart]
  constructor
  · intro repeats
    rw [if_pos (echo.mpr repeats)]
  · intro fresh
    rw [if_neg (mt echo.mp fresh)]

/-- With one pattern of one word each word that meets it is found once, or it repeats the last one. -/
theorem extract_single_word {patterns : List Pattern} {limit : Nat} {registry : Registry}
    (built : Registry.build patterns limit = .ok registry) {pattern : Pattern} {slot : WordSlot}
    (only : registry.leafPatterns = [pattern]) (single : pattern.components = [.word slot])
    (isHead : slot.condition.isHead) {options : MatchOptions} {stopWords : StopWords}
    {sentence : Sentence} {extraction : Extraction}
    (ended : Extractor.extract ⟨registry, options, stopWords⟩ sentence = .ok extraction)
    {position : Nat} {token : Token} (stands : sentence.tokens[position]? = some token)
    (admits : Extractor.admits ⟨registry, options, stopWords⟩ token)
    (fits : slot.matchesToken token) :
    (Extractor.Repeats ⟨registry, options, stopWords⟩ sentence (.word slot) position →
        extraction.simple.countP (fun phrase => phrase.span = ⟨position, position⟩) = 0) ∧
      (¬Extractor.Repeats ⟨registry, options, stopWords⟩ sentence (.word slot) position →
        extraction.simple.countP (fun phrase => phrase.span = ⟨position, position⟩) = 1) := by
  obtain ⟨simple, complex, found, _, rfl⟩ := Extractor.yields_of_extract ended
  have eligible : Extractor.eligible ⟨registry, options, stopWords⟩ sentence (.word slot) position :=
    Extractor.eligible_word_iff.mpr ⟨token, stands, admits, fits⟩
  exact Extractor.countP_leafPass (Registry.sound_of_build built) only single isHead found eligible

/-- A sentence of the same noun twice. -/
def catCat : Sentence where
  document := 1
  id := 1
  tokens := [⟨"cat", [⟨.noun, .empty, .ofText "cat", .one⟩]⟩,
    ⟨"cat", [⟨.noun, .empty, .ofText "cat", .one⟩]⟩]

/-- Of two cats the first one is found, and the second one is not. -/
theorem extract_single_word_catCat : ∃ registry extraction,
    Registry.build nounPhrases = .ok registry ∧
      Extractor.extract ⟨registry, {}, .empty⟩ catCat = .ok extraction ∧
      extraction.simple.countP (fun phrase => phrase.span = ⟨0, 0⟩) = 1 ∧
      extraction.simple.countP (fun phrase => phrase.span = ⟨1, 1⟩) = 0 := by
  obtain ⟨extraction, ended⟩ : ∃ extraction,
      Extractor.extract ⟨.assemble nounPhrases [0, 1], {}, .empty⟩ catCat = .ok extraction :=
    ⟨_, rfl⟩
  refine ⟨_, extraction, build_nounPhrases, ended, ?_, ?_⟩
  · refine (extract_single_word build_nounPhrases rfl rfl rfl ended rfl rfl rfl).2 ?_
    -- Nothing comes before the first position.
    rintro ⟨earlier, before, _⟩
    exact absurd before (Nat.not_lt_zero _)
  · refine (extract_single_word build_nounPhrases rfl rfl rfl ended rfl rfl rfl).1 ?_
    exact ⟨0, Nat.zero_lt_one, rfl, fun between above below => by omega, rfl⟩

/-- Not every word that meets the only pattern is found: the second of two cats is passed over. -/
theorem extract_passes_over_second_cat : ∃ registry pattern slot extraction token,
    Registry.build nounPhrases = .ok registry ∧
      registry.leafPatterns = [pattern] ∧ pattern.components = [.word slot] ∧
      slot.condition.isHead ∧
      Extractor.extract ⟨registry, {}, .empty⟩ catCat = .ok extraction ∧
      catCat.tokens[1]? = some token ∧ registry.isUsable token ∧
      ¬Extractor.isStopWord ⟨registry, {}, .empty⟩ token ∧ slot.matchesToken token ∧
      ¬extraction.simple.countP (fun phrase => phrase.span = ⟨1, 1⟩) = 1 := by
  refine ⟨.assemble nounPhrases [0, 1], ⟨"noun", _⟩,
    { pos := .noun, condition := .ofRole .head }, _, _, build_nounPhrases, rfl, rfl, rfl, rfl, rfl,
    rfl, ?_, rfl, ?_⟩
  · decide
  · decide

end PhraseGrammar
