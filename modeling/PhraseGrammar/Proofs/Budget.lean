import PhraseGrammar.Proofs.CompositeCost

/-! A budget says whether phrases are found, and never which ones. -/

namespace PhraseGrammar

open Search

variable {extractor : Extractor} {sentence : Sentence}

/-- Where the search for each item has a price, so has the search for all of them. -/
theorem Search.Priced.gather_any {α β : Type} {search : α → Search (List β)} (items : List α)
    (each : ∀ item, Priced (search item) fun _ _ => True) :
    Priced (Search.gather search items) fun _ _ => True := by
  choose found steps depth costs _ using each
  exact (Priced.gather fun item _ => ⟨found item, steps item, depth item, costs item,
    Nat.le_refl _⟩).mono fun _ _ _ => trivial

/-- Where the search for each item has a price, so has the search for the first with results. -/
theorem Search.Priced.firstFound_any {α β : Type} {search : α → Search (List β)} (items : List α)
    (each : ∀ item, Priced (search item) fun _ _ => True) :
    Priced (Search.firstFound search items) fun _ _ => True := by
  choose found steps depth costs _ using each
  exact (Priced.firstFound fun item _ => ⟨found item, steps item, depth item, costs item,
    Nat.le_refl _⟩).mono fun _ _ _ => trivial

namespace Extractor

/-- Growing a phrase into a pattern has a price, whatever there is as phrases of words. -/
theorem compositeCandidates_priced_any (extractor : Extractor) (sentence : Sentence)
    (leaves : List Phrase) (base : Phrase) (number : Nat) (pattern : Pattern) :
    (compositeCandidates extractor.registry (extractor.surroundings sentence) (.ofList leaves) base
      number pattern).Priced fun _ _ => True := by
  refine compositeCandidates_priced_of_walk trivial fun anchor slot status _ => ?_
  -- There are never more tokens on a side than in the sentence.
  have pays := (extractor.attempt sentence leaves number pattern).walk_pays
    (fun _ _ => Surroundings.length_outward_le_length) (pattern.route anchor)
    (seed pattern slot base) status 1 ∅
  exact pays.mono fun _ _ _ => trivial

/-- The pass for phrases of phrases has a price, whatever it is given as phrases of words. -/
theorem compositePass_priced_any (extractor : Extractor) (sentence : Sentence)
    (leaves : List Phrase) :
    (extractor.compositePass sentence leaves).Priced fun _ _ => True := by
  unfold compositePass
  refine (Priced.gather_any _ fun next => .firstFound_any _ fun pattern => ?_).bind
    fun _ _ _ => .ofPure trivial
  exact extractor.compositeCandidates_priced_any sentence leaves next.1 next.2 pattern

/-- Both passes together have a price. -/
theorem search_priced_any (extractor : Extractor) (sentence : Sentence) :
    (extractor.search sentence).Priced fun _ _ => True :=
  (extractor.leafPass_priced sentence).bind fun simple _ _ =>
    (extractor.compositePass_priced_any sentence simple).bind fun _ _ _ => .ofPure trivial

/-- An extraction is what both passes find, if the options allow their cost. -/
theorem extract_eq_ok_iff {result extraction : Extraction} {steps depth : Nat}
    (costs : Costs (extractor.search sentence) result steps depth) :
    extractor.extract sentence = .ok extraction ↔
      extraction = result ∧ steps ≤ extractor.options.maxSteps ∧
        depth ≤ extractor.options.maxDepth := by
  -- No step has been taken at the start, so that all that count are those of the search.
  have allows : (Budget.ofOptions extractor.options).Allows steps depth ↔
      steps ≤ extractor.options.maxSteps ∧ depth ≤ extractor.options.maxDepth := by
    simp only [Budget.Allows, Budget.ofOptions]
    omega
  rw [← allows]
  unfold extract
  constructor
  · intro ended
    split at ended
    · rename_i found after ran
      cases ended
      obtain ⟨same, _, allowed⟩ := costs.of_ok ran
      exact ⟨same, allowed⟩
    · cases ended
  · rintro ⟨rfl, allowed⟩
    rw [show (extractor.search sentence).run (.ofOptions extractor.options) = _ from
      costs.ends _ allowed]

/-- An extraction that is cut off comes from a search that is. -/
theorem search_of_extract {abort : SearchAbort} (cut : extractor.extract sentence = .error abort) :
    ∃ after, extractor.search sentence (.ofOptions extractor.options) = .error abort after := by
  unfold extract at cut
  split at cut
  · cases cut
  · rename_i reported after ran
    cases cut
    exact ⟨after, ran⟩

/-- An extraction that is cut off reports the limit of the options that it has reached. -/
theorem abort_of_extract {abort : SearchAbort} (cut : extractor.extract sentence = .error abort) :
    abort = .stepBudgetExceeded extractor.options.maxSteps ∨
      abort = .depthExceeded extractor.options.maxDepth := by
  -- A search that is cut off has had its cause, which the limit tells.
  obtain ⟨result, steps, depth, costs, _⟩ := extractor.search_priced_any sentence
  obtain ⟨after, ran⟩ := search_of_extract cut
  have due := (costs.of_error ran).2
  cases abort with
  | stepBudgetExceeded limit => exact .inl (congrArg _ due.1)
  | depthExceeded limit => exact .inr (congrArg _ due.1)

end Extractor

variable {registry : Registry} {options wider : MatchOptions} {stopWords : StopWords}

/-- The limits of the options play no part in what is searched for. -/
theorem Extractor.search_congr (clean : wider.cleanStopWords = options.cleanStopWords)
    (reduce : wider.validateBoundaries = options.validateBoundaries) :
    Extractor.search ⟨registry, wider, stopWords⟩ sentence =
      Extractor.search ⟨registry, options, stopWords⟩ sentence := by
  -- With the two flags the same, the options differ in the limits alone.
  cases wider
  cases options
  cases clean
  cases reduce
  rfl

/-- A budget only cuts an extraction off: more of it changes no answer, and the cost alone counts. -/
theorem extract_budget (registry : Registry) (options : MatchOptions) (stopWords : StopWords)
    (sentence : Sentence) :
    (∀ wider : MatchOptions, wider.cleanStopWords = options.cleanStopWords →
      wider.validateBoundaries = options.validateBoundaries →
      options.maxSteps ≤ wider.maxSteps → options.maxDepth ≤ wider.maxDepth →
      ∀ extraction, Extractor.extract ⟨registry, options, stopWords⟩ sentence = .ok extraction →
        Extractor.extract ⟨registry, wider, stopWords⟩ sentence = .ok extraction) ∧
    (∀ abort, Extractor.extract ⟨registry, options, stopWords⟩ sentence = .error abort →
      abort = .stepBudgetExceeded options.maxSteps ∨ abort = .depthExceeded options.maxDepth) ∧
    ∀ extraction after, Extractor.search ⟨registry, options, stopWords⟩ sentence
        (.ofOptions options) = .ok extraction after →
      ∀ maxSteps, (∃ found, Extractor.extract ⟨registry, { options with maxSteps }, stopWords⟩
        sentence = .ok found) ↔ after.steps ≤ maxSteps := by
  obtain ⟨result, steps, depth, costs, _⟩ :=
    Extractor.search_priced_any ⟨registry, options, stopWords⟩ sentence
  refine ⟨fun wider clean reduce more deeper extraction ended => ?_,
    fun abort cut => Extractor.abort_of_extract cut, fun extraction after ran maxSteps => ?_⟩
  · -- The same search is allowed what it costs by both of the budgets.
    obtain ⟨same, few, near⟩ := (Extractor.extract_eq_ok_iff costs).mp ended
    rw [← Extractor.search_congr clean reduce] at costs
    exact (Extractor.extract_eq_ok_iff costs).mpr
      ⟨same, Nat.le_trans few more, Nat.le_trans near deeper⟩
  · -- What is counted up to the end of a run is the cost of the search.
    obtain ⟨_, rfl, allowed⟩ := costs.of_ok ran
    have near : depth ≤ options.maxDepth := allowed.2
    have counted : ((Budget.ofOptions options).spend steps).steps = steps := Nat.zero_add steps
    -- The limit on the steps is no part of the search, so that the cost stays.
    have limited : Costs (Extractor.search ⟨registry, { options with maxSteps }, stopWords⟩ sentence)
        result steps depth := costs
    rw [counted]
    constructor
    · rintro ⟨found, ended⟩
      exact ((Extractor.extract_eq_ok_iff limited).mp ended).2.1
    · intro few
      exact ⟨result, (Extractor.extract_eq_ok_iff limited).mpr ⟨rfl, few, near⟩⟩

/-- A black cat is found under every budget of three steps, and more steps find nothing else. -/
theorem extract_budget_blackCat : ∃ registry extraction,
    Registry.build nounPhrases = .ok registry ∧
      extraction.complex.map Phrase.text = ["black cat"] ∧
      Extractor.extract ⟨registry, { validateBoundaries := false, maxSteps := 3 }, .empty⟩
        blackCat = .ok extraction ∧
      Extractor.extract ⟨registry, { validateBoundaries := false }, .empty⟩ blackCat =
        .ok extraction ∧
      Extractor.extract ⟨registry, { validateBoundaries := false, maxSteps := 2 }, .empty⟩
        blackCat = .error (.stepBudgetExceeded 2) ∧
      ∀ maxSteps, (∃ found, Extractor.extract
        ⟨registry, { validateBoundaries := false, maxSteps }, .empty⟩ blackCat = .ok found) ↔
          3 ≤ maxSteps := by
  obtain ⟨extraction, after, ran, ended, texts, three⟩ : ∃ extraction after,
      Extractor.search ⟨.assemble nounPhrases [0, 1],
          { validateBoundaries := false, maxSteps := 3 }, .empty⟩ blackCat
          (.ofOptions { maxSteps := 3 }) = .ok extraction after ∧
        Extractor.extract ⟨.assemble nounPhrases [0, 1],
          { validateBoundaries := false, maxSteps := 3 }, .empty⟩ blackCat = .ok extraction ∧
        extraction.complex.map Phrase.text = ["black cat"] ∧ after.steps = 3 :=
    ⟨_, _, rfl, rfl, rfl, rfl⟩
  obtain ⟨wider, _, enough⟩ := extract_budget (.assemble nounPhrases [0, 1])
    { validateBoundaries := false, maxSteps := 3 } .empty blackCat
  have counts := enough extraction after ran
  rw [three] at counts
  exact ⟨_, extraction, build_nounPhrases, texts, ended,
    wider _ rfl rfl (by decide) (by decide) extraction ended, rfl, counts⟩

end PhraseGrammar
