import PhraseGrammar.Proofs.WalkEntries

/-! What touches the span of a search lies beside it, which the base of the search never does. -/

namespace PhraseGrammar

namespace Span

/-- Whether two spans have a position in common. -/
def Overlaps (span other : Span) : Prop :=
  ∃ position, (span.first ≤ position ∧ position ≤ span.last) ∧
    other.first ≤ position ∧ position ≤ other.last

/-- Whether a span reaches at least as far as another one at both ends. -/
def Contains (span inner : Span) : Prop :=
  span.first ≤ inner.first ∧ inner.last ≤ span.last

variable {span inner run : Span} {side : Side} {position : Nat}

/-- Spans that lie beside each other have no position in common. -/
theorem Beside.not_overlaps (beside : run.Beside span side) : ¬run.Overlaps span := by
  rintro ⟨position, inRun, inSpan⟩
  cases side with
  | left =>
    have adjoins : run.last + 1 = span.first := beside
    omega
  | right =>
    have adjoins : span.last + 1 = run.first := beside
    omega

/-- What a span contains does not lie beside it. -/
theorem Contains.not_beside (contains : span.Contains inner) (ordered : inner.first ≤ inner.last)
    (side : Side) : ¬inner.Beside span side := by
  obtain ⟨before, behind⟩ := contains
  cases side with
  | left =>
    show inner.last + 1 ≠ span.first
    omega
  | right =>
    show span.last + 1 ≠ inner.first
    omega

/-- A span that is stretched over the run beside it contains what it has contained before. -/
theorem Contains.stretch_beside (contains : span.Contains inner) (beside : run.Beside span side)
    (ordered : run.first ≤ run.last) : (span.stretch side (run.reach side)).Contains inner := by
  obtain ⟨before, behind⟩ := beside.stretch_covers ordered
  exact ⟨Nat.le_trans before contains.1, Nat.le_trans contains.2 behind⟩

end Span

namespace Surroundings

variable {admits : Token → Bool} {sentence : Sentence} {side : Side} {span inner : Span}
  {next : Token × Nat}

/-- The tokens that are met to the left of a span stand before it, wherever the span lies. -/
theorem lt_of_mem_outward_left (met : next ∈ (ofSentence admits sentence).outward .left span) :
    next.2 < span.first := by
  have inside : next.2 < sentence.length := lt_of_mem_outward met
  by_cases reaches : span.first ≤ sentence.length
  · -- The last position of the span does not matter to what lies before it.
    have same : (ofSentence admits sentence).outward .left span =
        (ofSentence admits sentence).outward .left ⟨span.first, next.2⟩ := rfl
    rw [same, outward_ofSentence admits sentence .left ⟨span.first, next.2⟩ reaches inside] at met
    have listed := (List.takeWhile_sublist _).subset met
    rw [Sentence.outward, List.mem_reverse] at listed
    have numbered := List.snd_lt_of_mem_zipIdx listed
    simp only [List.length_take] at numbered
    omega
  · omega

/-- The tokens that are met to the right of a span stand behind it, wherever the span lies. -/
theorem lt_of_mem_outward_right (met : next ∈ (ofSentence admits sentence).outward .right span) :
    span.last < next.2 := by
  by_cases reaches : span.last < sentence.length
  · -- The first position of the span does not matter to what lies behind it.
    have same : (ofSentence admits sentence).outward .right span =
        (ofSentence admits sentence).outward .right ⟨0, span.last⟩ := rfl
    have first : 0 ≤ sentence.length := Nat.zero_le sentence.length
    rw [same, outward_ofSentence admits sentence .right ⟨0, span.last⟩ first reaches] at met
    have listed := (List.takeWhile_sublist _).subset met
    exact List.le_snd_of_mem_zipIdx listed
  · -- There is no place behind the end of the sentence that a run could be looked up for.
    unfold Sentence.length at reaches
    have beyond : (ofSentence admits sentence).after[span.last + 1]? = none := by
      apply Array.getElem?_eq_none
      simp only [ofSentence, flagged, List.size_toArray, length_runs, List.length_map,
        List.length_zipIdx]
      omega
    rw [outward, beyond, Option.getD_none] at met
    exact absurd met List.not_mem_nil

/-- A span that is stretched to a token met outwards contains what it has contained before. -/
theorem stretch_contains (contains : span.Contains inner)
    (met : next ∈ (ofSentence admits sentence).outward side span) :
    (span.stretch side next.2).Contains inner := by
  obtain ⟨before, behind⟩ := contains
  cases side with
  | left =>
    have outside := lt_of_mem_outward_left met
    exact ⟨Nat.le_trans (Nat.le_of_lt outside) before, behind⟩
  | right =>
    have outside := lt_of_mem_outward_right met
    exact ⟨before, Nat.le_trans behind (Nat.le_of_lt outside)⟩

end Surroundings

namespace LeafIndex

/-- Whether a numbered phrase touches a span on neither side. -/
def ApartFrom (index : LeafIndex) (number : Nat) (span : Span) : Prop :=
  ∀ side, number ∉ (index.adjacent side span).map Prod.snd

/-- There are two sides only to be looked at. -/
instance (index : LeafIndex) (number : Nat) (span : Span) :
    Decidable (index.ApartFrom number span) :=
  decidable_of_iff (number ∉ (index.adjacent .left span).map Prod.snd ∧
      number ∉ (index.adjacent .right span).map Prod.snd)
    ⟨fun ⟨left, right⟩ side => match side with
      | .left => left
      | .right => right,
    fun apart => ⟨apart .left, apart .right⟩⟩

variable {phrases : List Phrase} {side : Side} {span : Span} {base : Phrase} {number : Nat}

/-- The phrases that touch a span are found by increasing number. -/
theorem pairwise_adjacent (phrases : List Phrase) (side : Side) (span : Span) :
    (((ofList phrases).adjacent side span).map Prod.snd).Pairwise (· < ·) := by
  rw [adjacent_ofList, List.pairwise_map]
  exact (pairwise_lt_zipIdx phrases).filter _

/-- A phrase whose own span is contained in a span does not touch that. -/
theorem apartFrom_of_contains (isBase : phrases[number]? = some base)
    (ordered : base.span.first ≤ base.span.last) (contains : span.Contains base.span) :
    (ofList phrases).ApartFrom number span := by
  intro side listed
  obtain ⟨⟨phrase, which⟩, member, same⟩ := List.mem_map.mp listed
  obtain ⟨found, beside⟩ := mem_adjacent_ofList.mp member
  -- Under the number of the base there is no other phrase.
  obtain rfl : which = number := same
  obtain rfl : base = phrase := Option.some.inj (isBase.symm.trans found)
  exact contains.not_beside ordered side beside

/-- A span stretched over a phrase that touches it contains what it has contained before. -/
theorem contains_stretch_adjacent {inner : Span} {phrase : Phrase}
    (ordered : ∀ phrase ∈ phrases, phrase.span.first ≤ phrase.span.last)
    (contains : span.Contains inner)
    (touches : (phrase, number) ∈ (ofList phrases).adjacent side span) :
    (span.stretch side (phrase.span.reach side)).Contains inner := by
  obtain ⟨listed, beside⟩ := mem_adjacent_ofList.mp touches
  exact contains.stretch_beside beside (ordered phrase (List.mem_of_getElem? listed))

end LeafIndex

namespace Attempt

variable {attempt : Attempt} {extractor : Extractor} {sentence : Sentence} {leaves : List Phrase}
  {number : Nat} {pattern : Pattern} {base : Span} {stop : Stop} {route : List Stop}
  {phrase grown : Phrase} {status counted : MatchStatus} {start moment : Moment}
  {filled : List Nat} {goOn other : Continue} {depth : Nat} {trials : Trials}

/-- Whether two ways to go on are the same from every phrase that contains a base. -/
def AgreeOver (base : Span) (goOn other : Continue) : Prop :=
  ∀ phrase status depth trials, phrase.span.Contains base →
    goOn phrase status depth trials = other phrase status depth trials

/-- To fill a slot with words is the same if it is so to go on from what contains the base. -/
theorem fillWord_congr_over {slot : WordSlot} {outward : List (Token × Nat)}
    (agree : AgreeOver base goOn other)
    (contains : ∀ next ∈ outward, (phrase.span.stretch stop.side next.2).Contains base) :
    fillWord stop slot goOn outward phrase status depth trials =
      fillWord stop slot other outward phrase status depth trials := by
  induction outward generalizing phrase status depth trials with
  | nil => rfl
  | cons next outward rest =>
    obtain ⟨token, position⟩ := next
    obtain ⟨here, later⟩ := List.forall_mem_cons.mp contains
    by_cases fits : slot.matchesToken token
    · have taken : (takeWord stop slot token position phrase status).1.span.Contains base := by
        -- The phrase that takes the token is stretched to its position.
        rw [span_takeWord]
        exact here
      rw [fillWord_cons fits, fillWord_cons fits]
      dsimp only
      rw [agree _ _ _ _ taken]
      split
      · congr 1
        funext tried
        rw [rest]
        -- The tokens further out stretch the span that the phrase has had before.
        simpa only [span_takeWord, Span.stretch_stretch] using later
      · rfl
    · simp only [fillWord, if_neg fits]

/-- To fill a slot with neighbours is the same if it is so to go on from what contains the base. -/
theorem fillModel_congr_over {slot : ModelSlot} {referenced : Pattern}
    {candidates : List (Phrase × Nat)} (agree : AgreeOver base goOn other)
    (contains : ∀ next ∈ candidates,
      (phrase.span.stretch stop.side (next.1.span.reach stop.side)).Contains base) :
    attempt.fillModel stop slot referenced goOn phrase status depth candidates trials =
      attempt.fillModel stop slot referenced other phrase status depth candidates trials := by
  induction candidates generalizing trials with
  | nil => rfl
  | cons next candidates rest =>
    obtain ⟨leaf, which⟩ := next
    obtain ⟨here, later⟩ := List.forall_mem_cons.mp contains
    rw [fillModel_cons, fillModel_cons]
    dsimp only
    split
    · exact rest later
    · split
      · exact rest later
      · rename_i grown counted taken
        -- The phrase that takes the neighbour is stretched to where that ends.
        rw [← span_of_takeLeaf? taken] at here
        rw [agree _ _ _ _ here]
        congr 1
        funext tried
        exact rest later

section Ordered

variable (ordered : ∀ leaf ∈ leaves, leaf.span.first ≤ leaf.span.last)
include ordered

/-- A phrase that fills a slot contains what it has contained before. -/
theorem Filling.contains (contains : phrase.span.Contains base)
    (filling : (extractor.attempt sentence leaves number pattern).Filling stop phrase status grown
      counted) : grown.span.Contains base := by
  cases filling with
  | word isWord next fits =>
    rename_i slot token position outward
    rw [span_takeWord]
    -- The token is the nearest one that is met outwards.
    have listed : (extractor.surroundings sentence).outward stop.side phrase.span =
        (token, position) :: outward := next
    have met : (token, position) ∈
        (extractor.surroundings sentence).outward stop.side phrase.span := by
      rw [listed]
      exact List.mem_cons_self
    exact Surroundings.stretch_contains contains met
  | model isModel known adjacent other named taken =>
    rw [span_of_takeLeaf? taken]
    exact LeafIndex.contains_stretch_adjacent ordered contains adjacent

/-- Along a path the phrase contains what it has contained at the start. -/
theorem Path.contains (contains : start.phrase.span.Contains base)
    (path : (extractor.attempt sentence leaves number pattern).Path start filled moment) :
    moment.phrase.span.Contains base := by
  induction path with
  | start => exact contains
  | step _ step before =>
    -- Whether the search goes on behind the slot or at the slot, the phrase is the filled one.
    cases step with
    | onward filling => exact filling.contains ordered before
    | again _ filling => exact filling.contains ordered before

/-- To fill a slot is the same if it is so to go on from what contains the base. -/
theorem fill_congr_over (agree : AgreeOver base goOn other) :
    AgreeOver base ((extractor.attempt sentence leaves number pattern).fill stop goOn)
      ((extractor.attempt sentence leaves number pattern).fill stop other) := by
  intro phrase status depth trials contains
  unfold fill
  congr 1
  funext _
  split
  · apply fillWord_congr_over agree
    intro next met
    exact Surroundings.stretch_contains contains met
  · split
    · rfl
    · apply fillModel_congr_over agree
      intro next touches
      exact LeafIndex.contains_stretch_adjacent ordered contains touches

/-- A check that holds of all that contains the base does not change the search along a route. -/
theorem checkedWalk_over {check : Moment → Bool} (abort : SearchAbort)
    (holds : ∀ moment : Moment, moment.phrase.span.Contains base → check moment)
    (route : List Stop) :
    AgreeOver base
      ((extractor.attempt sentence leaves number pattern).checkedWalk check abort route)
      ((extractor.attempt sentence leaves number pattern).walk route) := by
  -- The induction is on the route, and what follows a slot is entered with what has filled it.
  induction route with
  | nil =>
    intro phrase status depth trials contains
    exact checked_eq (holds ⟨[], phrase, status, depth⟩ contains)
  | cons stop route rest =>
    intro phrase status depth trials contains
    rw [checkedWalk, checked_eq (holds ⟨stop :: route, phrase, status, depth⟩ contains), walk_cons]
    exact fill_congr_over ordered rest phrase status depth trials contains

end Ordered

end Attempt

/-- A search sets out with the span of its base. -/
theorem Extractor.span_of_outset? {pattern : Pattern} {base : Phrase} {start : Moment}
    (sets : Extractor.outset? pattern base = some start) : start.phrase.span = base.span := by
  obtain ⟨anchor, slot, status, _, _, _, rfl⟩ := Extractor.outset?_eq_some_iff.mp sets
  rfl

/-- The index of phrases agrees with a scan of all of them, and keeps the base of a search apart. -/
theorem LeafIndex.adjacent_scan (phrases : List Phrase) :
    (∀ side span,
      (∀ phrase number, (phrase, number) ∈ (ofList phrases).adjacent side span ↔
        phrases[number]? = some phrase ∧ phrase.span.Beside span side) ∧
      (((ofList phrases).adjacent side span).map Prod.snd).Pairwise (· < ·) ∧
      ∀ next ∈ (ofList phrases).adjacent side span, ¬next.1.span.Overlaps span) ∧
    ((∀ phrase ∈ phrases, phrase.span.first ≤ phrase.span.last) →
      ∀ (extractor : Extractor) sentence (number : Nat) base pattern start,
        phrases[number]? = some base → Extractor.outset? pattern base = some start →
        (∀ filled moment,
          (extractor.attempt sentence phrases number pattern).Path start filled moment →
          moment.phrase.span.Contains base.span ∧
            (ofList phrases).ApartFrom number moment.phrase.span) ∧
        ∀ abort trials,
          start.resume ((extractor.attempt sentence phrases number pattern).checkedWalk
              (fun moment => (ofList phrases).ApartFrom number moment.phrase.span) abort) trials =
            start.resume (extractor.attempt sentence phrases number pattern).walk trials) := by
  refine ⟨?_, ?_⟩
  · intro side span
    refine ⟨fun phrase number => mem_adjacent_ofList, pairwise_adjacent phrases side span, ?_⟩
    intro next member
    exact (mem_adjacent_ofList.mp member).2.not_overlaps
  · intro ordered extractor sentence number base pattern start isBase sets
    have apart : ∀ span : Span, span.Contains base.span → (ofList phrases).ApartFrom number span :=
      fun span => apartFrom_of_contains isBase (ordered base (List.mem_of_getElem? isBase))
    have atStart : start.phrase.span.Contains base.span := by
      rw [Extractor.span_of_outset? sets]
      exact ⟨Nat.le_refl _, Nat.le_refl _⟩
    constructor
    · intro filled moment path
      have contains := path.contains ordered atStart
      exact ⟨contains, apart _ contains⟩
    · intro abort trials
      apply Attempt.checkedWalk_over ordered abort _ _ _ _ _ _ atStart
      intro moment contains
      exact decide_eq_true (apart _ contains)

/-- A black neighbour touches the cat, and once it is taken the cat no longer touches the span. -/
theorem LeafIndex.adjacent_scan_blackCat : ∃ black cat pattern start filled moment,
    Extractor.outset? pattern cat = some start ∧
      (black, 0) ∈ (ofList [black, cat]).adjacent .left start.phrase.span ∧
      ¬black.span.Overlaps start.phrase.span ∧
      (Extractor.attempt ⟨.assemble nounPhrases [0, 1], {}, .empty⟩ blackCat [black, cat] 1
        pattern).Path start filled moment ∧
      moment.phrase.text = "black cat" ∧ moment.phrase.span.Contains cat.span ∧
      (ofList [black, cat]).ApartFrom 1 moment.phrase.span := by
  let extractor : Extractor := ⟨.assemble nounPhrases [0, 1], {}, .empty⟩
  let token : Token := ⟨"black", [⟨.adjective, .empty, .ofText "black", .one⟩]⟩
  let black : Phrase := .ofToken blackCat token 0 "quality"
  let cat : Phrase :=
    .ofToken blackCat ⟨"cat", [⟨.noun, .empty, .ofText "cat", .one⟩]⟩ 1 "noun"
  let slot : WordSlot := { pos := .adjective }
  let noun : ModelSlot := { pattern := "noun", condition := .ofRole .head }
  let described : Pattern := ⟨"described noun", [.word slot, .model noun]⟩
  let stop : Stop := ⟨.left, 0, .word slot, true⟩
  obtain ⟨status, sets⟩ : ∃ status, Extractor.outset? described cat =
      some ⟨[stop], Extractor.seed described noun cat, status, 1⟩ := ⟨_, rfl⟩
  have outward : (extractor.surroundings blackCat).outward .left cat.span = [(token, 0)] := rfl
  have fits : slot.matchesToken token = true := rfl
  have filling : (extractor.attempt blackCat [black, cat] 1 described).Filling stop
      (Extractor.seed described noun cat) status _ _ := .word rfl outward fits
  have path : (extractor.attempt blackCat [black, cat] 1 described).Path
      ⟨[stop], Extractor.seed described noun cat, status, 1⟩ [0] ⟨[], _, _, 2⟩ :=
    .step .start (.onward filling)
  have ordered : ∀ phrase ∈ [black, cat], phrase.span.first ≤ phrase.span.last := by
    simp [black, cat, Phrase.ofToken]
  obtain ⟨scan, attempts⟩ := adjacent_scan [black, cat]
  obtain ⟨touches, _, disjoint⟩ := scan .left cat.span
  have member : (black, 0) ∈ (ofList [black, cat]).adjacent .left cat.span :=
    (touches black 0).mpr ⟨rfl, rfl⟩
  obtain ⟨contains, apart⟩ :=
    (attempts ordered extractor blackCat 1 cat described _ rfl sets).1 _ _ path
  exact ⟨black, cat, described, _, _, _, sets, member, disjoint _ member, path, rfl, contains,
    apart⟩

end PhraseGrammar
