import PhraseGrammar.Proofs.Binding

/-! Filling a slot takes a run into a phrase, and keeps what the search relies on up to its end. -/

namespace PhraseGrammar

/-- A phrase of words as the other pass hands it on: faithful, with the head word of its pattern. -/
structure Extractor.IsLeaf (extractor : Extractor) (sentence : Sentence) (leaf : Phrase) :
    Prop where
  /-- The phrase shows a piece of the sentence. -/
  faithful : leaf.Faithful extractor sentence
  /-- The token at the head meets the head slot of the pattern that the phrase is one of. -/
  headed : ∃ pattern head slot token, extractor.registry.byName? leaf.pattern = some pattern ∧
    leaf.head = some head ∧ pattern.headWord? = some slot ∧
    sentence.tokens[head]? = some token ∧ slot.matchesToken token

/-- The slot for a word that a head has to meet: the slot itself, or that of the named pattern. -/
def Registry.headSlot? (registry : Registry) : Component → Option WordSlot
  | .word slot => some slot
  | .model slot => (registry.byName? slot.pattern).bind Pattern.headWord?

/-- Whether a slot that is filled by a run has its head at a position. -/
structure Extractor.HeadAt (extractor : Extractor) (sentence : Sentence) (component : Component)
    (run : Span) (head : Nat) : Prop where
  /-- The head lies in the run. -/
  inside : run.first ≤ head ∧ head ≤ run.last
  /-- The token there meets the slot that counts for the head. -/
  fits : ∃ slot token, extractor.registry.headSlot? component = some slot ∧
    sentence.tokens[head]? = some token ∧ slot.matchesToken token

/-- What becomes of a phrase and its status when a run fills the slot of a stop. -/
structure Taken (extractor : Extractor) (sentence : Sentence) (leaves : List Phrase) (stop : Stop)
    (run : Span) (before after : Phrase × MatchStatus) : Prop where
  /-- The run fills the slot. -/
  fills : extractor.Fills sentence leaves stop.component stop.outermost run
  /-- The run lies beside the phrase. -/
  beside : run.Beside before.1.span stop.side
  /-- The phrase stays faithful. -/
  faithful : after.1.Faithful extractor sentence
  /-- The phrase then ends where the run does. -/
  span_eq : after.1.span = before.1.span.stretch stop.side (run.reach stop.side)
  /-- The phrase keeps its pattern. -/
  pattern_eq : after.1.pattern = before.1.pattern
  /-- What has been asked of the words stays met. -/
  lexicon : before.2.lexiconSatisfied → after.2.lexiconSatisfied
  /-- At least one more thing is taken. -/
  consumed : before.2.consumed < after.2.consumed
  /-- The first slot with the role of the head gives the head. -/
  headed : stop.component.isHead → before.2.headChecked = false →
    after.2.headChecked ∧ after.2.headMatched ∧
      ∃ head, after.1.head = some head ∧ extractor.HeadAt sentence stop.component run head
  /-- Any other slot leaves the head alone. -/
  unheaded : ¬(stop.component.isHead ∧ before.2.headChecked = false) →
    after.1.head = before.1.head ∧ after.2.headChecked = before.2.headChecked ∧
      after.2.headMatched = before.2.headMatched

variable {extractor : Extractor} {sentence : Sentence} {leaves : List Phrase} {stop : Stop}
  {run : Span} {phrase : Phrase} {status : MatchStatus}

/-- A position of a run lies in the span that the run makes of the one beside it. -/
theorem Span.Beside.inside_stretch {span : Span} {side : Side} {position : Nat}
    (beside : run.Beside span side) (ordered : span.first ≤ span.last)
    (inside : run.first ≤ position ∧ position ≤ run.last) :
    (span.stretch side (run.reach side)).first ≤ position ∧
      position ≤ (span.stretch side (run.reach side)).last := by
  cases side with
  | left =>
    -- The run ends just before the span.
    have adjoins : run.last + 1 = span.first := beside
    exact ⟨inside.1, by show position ≤ span.last; omega⟩
  | right =>
    -- The run starts just behind the span.
    have adjoins : span.last + 1 = run.first := beside
    exact ⟨by show span.first ≤ position; omega, inside.2⟩

/-- A span that is stretched over the run beside it keeps its positions. -/
theorem Span.Beside.stretch_covers {span : Span} {side : Side} (beside : run.Beside span side)
    (ordered : run.first ≤ run.last) :
    (span.stretch side (run.reach side)).first ≤ span.first ∧
      span.last ≤ (span.stretch side (run.reach side)).last := by
  -- The span only changes at the end where the run lies.
  cases side with
  | left =>
    have adjoins : run.last + 1 = span.first := beside
    exact ⟨by show run.first ≤ span.first; omega, Nat.le_refl _⟩
  | right =>
    have adjoins : span.last + 1 = run.first := beside
    exact ⟨Nat.le_refl _, by show span.last ≤ run.last; omega⟩

/-- A phrase that has grown by a run is taken, with the head of the run if that is the first one. -/
theorem taken_of_grown {grown : Phrase} {counted : MatchStatus} {head : Option Nat}
    (fills : extractor.Fills sentence leaves stop.component stop.outermost run)
    (beside : run.Beside phrase.span stop.side) (ordered : phrase.span.first ≤ phrase.span.last)
    (faithful : grown.Faithful extractor sentence)
    (span_eq : grown.span = phrase.span.stretch stop.side (run.reach stop.side))
    (pattern_eq : grown.pattern = phrase.pattern) (head_eq : grown.head = phrase.head)
    (lexicon : status.lexiconSatisfied → counted.lexiconSatisfied)
    (consumed : status.consumed < counted.consumed)
    (checked : counted.headChecked = status.headChecked)
    (matched : counted.headMatched = status.headMatched)
    (headed : stop.component.isHead → ∃ position, head = some position ∧
      extractor.HeadAt sentence stop.component run position) :
    Taken extractor sentence leaves stop run (phrase, status)
      (if stop.component.isHead && !status.headChecked then
        ({ grown with head }, counted.recordHead true) else (grown, counted)) := by
  split
  · -- The slot is the first one with the role of the head.
    rename_i first
    rw [Bool.and_eq_true, Bool.not_eq_true'] at first
    obtain ⟨isHead, unchecked⟩ := first
    obtain ⟨position, rfl, headAt⟩ := headed isHead
    have record : counted.recordHead true =
        { counted with headChecked := true, headMatched := true } := by
      simp [MatchStatus.recordHead, checked, unchecked]
    -- The head lies in the run, which is part of the phrase by now.
    have inside : ∀ other, some position = some other →
        grown.span.first ≤ other ∧ other ≤ grown.span.last := by
      intro other same
      cases same
      rw [span_eq]
      exact beside.inside_stretch ordered headAt.inside
    rw [record]
    exact ⟨fills, beside, faithful.relabel grown.pattern inside, span_eq, pattern_eq, lexicon,
      consumed, fun _ _ => ⟨rfl, rfl, position, rfl, headAt⟩,
      fun other => absurd ⟨isHead, unchecked⟩ other⟩
  · -- The head is left alone, and so is all that was known of it.
    rename_i later
    rw [Bool.and_eq_true, Bool.not_eq_true'] at later
    exact ⟨fills, beside, faithful, span_eq, pattern_eq, lexicon, consumed,
      fun isHead unchecked => absurd ⟨isHead, unchecked⟩ later,
      fun _ => ⟨head_eq, checked, matched⟩⟩

/-- A token that meets the slot of a stop is taken as a run of one position. -/
theorem taken_takeWord {slot : WordSlot} {token : Token} {position : Nat}
    (isWord : stop.component = .word slot) (faithful : phrase.Faithful extractor sentence)
    (stands : sentence.tokens[position]? = some token) (admits : extractor.admits token)
    (fits : slot.matchesToken token)
    (beside : Span.Beside ⟨position, position⟩ phrase.span stop.side) :
    Taken extractor sentence leaves stop ⟨position, position⟩ (phrase, status)
      (Attempt.takeWord stop slot token position phrase status) := by
  -- The run has one position only, which is eligible.
  have fills : extractor.Fills sentence leaves stop.component stop.outermost
      ⟨position, position⟩ := by
    rw [isWord]
    refine ⟨Nat.le_refl _, fun place first last => ?_, .inl rfl⟩
    obtain rfl : place = position := Nat.le_antisymm last first
    exact Extractor.eligible_word_iff.mpr ⟨token, stands, admits, fits⟩
  have reach : (⟨position, position⟩ : Span).reach stop.side = position := by
    cases stop.side <;> rfl
  have role : slot.condition.isHead = stop.component.isHead := by rw [isWord]; rfl
  -- The token itself is the head of the run.
  have headAt : extractor.HeadAt sentence stop.component ⟨position, position⟩ position :=
    ⟨⟨Nat.le_refl _, Nat.le_refl _⟩, slot, token, by rw [isWord]; rfl, stands, fits⟩
  unfold Attempt.takeWord
  rw [role]
  exact taken_of_grown fills beside faithful.ordered (faithful.push stands admits beside)
    (by rw [reach]; rfl) rfl rfl (fun met => by simp [met]) (Nat.lt_succ_self _) rfl rfl
    fun _ => ⟨position, rfl, headAt⟩

/-- Where nothing is demanded beyond the attributes, every reading will do. -/
theorem Additional.matchesReading_of_isEmpty {additional : Additional} (none : additional.isEmpty)
    (reading : Reading) : additional.matchesReading reading := by
  rw [isEmpty, Bool.and_eq_true, Option.isNone_iff_eq_none] at none
  simp [matchesReading, matchesLexeme, none.1, matchesThemes]

/-- A phrase meets a slot as the search tests it: every test asks the readings one by one. -/
theorem ModelSlot.takes_iff {slot : ModelSlot} {leaf : Phrase}
    (named : leaf.pattern = slot.pattern) :
    slot.Takes leaf ↔ leaf.row.any slot.condition.acceptsToken ∧
      (slot.condition.additional.isEmpty ∨ Attempt.meetsAdditional slot leaf) := by
  -- The row of tokens is asked without making a list of it.
  have tagged : leaf.row.any slot.condition.acceptsToken = true ↔
      ∃ token ∈ leaf.tokens, ∃ reading ∈ token.readings,
        slot.condition.matchesAttributes reading := by
    rw [← TokenRow.any_toList]
    simp [Condition.acceptsToken, Phrase.tokens]
  have worded : Attempt.meetsAdditional slot leaf = true ↔
      ∃ token ∈ leaf.tokens, ∃ reading ∈ token.readings,
        slot.condition.additional.matchesReading reading := by
    rw [Attempt.meetsAdditional, ← TokenRow.any_toList]
    simp [Phrase.tokens]
  rw [tagged, worded]
  constructor
  · rintro ⟨_, tagged, worded⟩
    exact ⟨tagged, .inr worded⟩
  · rintro ⟨⟨token, member, reading, listed, accepts⟩, demands⟩
    refine ⟨named, ⟨token, member, reading, listed, accepts⟩, demands.elim (fun none => ?_) id⟩
    -- Where nothing is demanded, the reading with the attributes will do.
    exact ⟨token, member, reading, listed, Additional.matchesReading_of_isEmpty none reading⟩

/-- The head of a phrase of words meets the head slot of its pattern, whichever attempt asks. -/
theorem Extractor.IsLeaf.headMatches {leaf : Phrase} (isLeaf : extractor.IsLeaf sentence leaf)
    {attempt : Attempt} (around : attempt.around = extractor.surroundings sentence)
    {referenced : Pattern} (named : extractor.registry.byName? leaf.pattern = some referenced) :
    attempt.headMatches referenced leaf := by
  obtain ⟨pattern, head, slot, token, found, headed, isHead, stands, fits⟩ := isLeaf.headed
  cases found.symm.trans named
  -- The token at the head is looked up in the sentence, as the pass had it.
  have there : attempt.around.tokens[head]? = some token := by
    rw [around]
    show sentence.tokens.toArray[head]? = some token
    rw [List.getElem?_toArray, stands]
  unfold Attempt.headMatches
  rw [isHead, headed, Option.bind_some, there]
  exact fits

/-- The head of a phrase of words is that of a slot for a phrase of its pattern. -/
theorem Extractor.IsLeaf.headAt {leaf : Phrase} {slot : ModelSlot}
    (isLeaf : extractor.IsLeaf sentence leaf) (named : leaf.pattern = slot.pattern) :
    ∃ head, leaf.head = some head ∧
      extractor.HeadAt sentence (.model slot) leaf.span head := by
  obtain ⟨pattern, head, word, token, same, headed, isHead, stands, fits⟩ := isLeaf.headed
  refine ⟨head, headed, isLeaf.faithful.head_inside head headed, word, token, ?_, stands, fits⟩
  -- The slot that counts is looked up under the name that the phrase has.
  show (extractor.registry.byName? slot.pattern).bind Pattern.headWord? = some word
  rw [← named, same, Option.bind_some, isHead]

/-- A token stretches the phrase that takes it to its position. -/
theorem span_takeWord {slot : WordSlot} {token : Token} {position : Nat} :
    (Attempt.takeWord stop slot token position phrase status).1.span =
      phrase.span.stretch stop.side position := by
  unfold Attempt.takeWord
  dsimp only
  -- The head that may be set leaves the span alone.
  split <;> rfl

/-- A neighbour stretches the phrase that takes it to where it ends itself. -/
theorem span_of_takeLeaf? {attempt : Attempt} {slot : ModelSlot} {referenced : Pattern}
    {leaf grown : Phrase} {counted : MatchStatus}
    (taken : attempt.takeLeaf? stop slot referenced leaf phrase status = some (grown, counted)) :
    grown.span = phrase.span.stretch stop.side (leaf.span.reach stop.side) := by
  unfold Attempt.takeLeaf? at taken
  dsimp only at taken
  -- A refusal takes nothing, whichever test it comes from.
  split at taken
  · cases taken
  split at taken
  · cases taken
  split at taken
  · cases taken
  split at taken
  · cases taken
    rfl
  · cases taken
    rfl

/-- A neighbour that does not meet the slot is not taken. -/
theorem takeLeaf?_eq_none {attempt : Attempt} {slot : ModelSlot} {referenced : Pattern}
    {leaf : Phrase} (named : leaf.pattern = slot.pattern) (misfit : ¬slot.Takes leaf) :
    attempt.takeLeaf? stop slot referenced leaf phrase status = none := by
  rw [ModelSlot.takes_iff named] at misfit
  unfold Attempt.takeLeaf?
  dsimp only
  -- Each of the three tests can only lead to a refusal.
  split
  · rfl
  · split
    · rfl
    · rename_i tagged
      refine if_pos ?_
      have tagged : leaf.row.any slot.condition.acceptsToken = true := by simpa using tagged
      simpa [tagged] using misfit

/-- A neighbour that meets the slot is taken as the run that it stands at. -/
theorem exists_takeLeaf? {attempt : Attempt} {slot : ModelSlot} {referenced : Pattern}
    {leaf : Phrase} (around : attempt.around = extractor.surroundings sentence)
    (isModel : stop.component = .model slot)
    (found : extractor.registry.byName? slot.pattern = some referenced)
    (member : leaf ∈ leaves) (isLeaf : extractor.IsLeaf sentence leaf)
    (faithful : phrase.Faithful extractor sentence)
    (beside : leaf.span.Beside phrase.span stop.side) (takes : slot.Takes leaf) :
    ∃ after, attempt.takeLeaf? stop slot referenced leaf phrase status = some after ∧
      Taken extractor sentence leaves stop leaf.span (phrase, status) after := by
  have named := takes.named
  have headMatches := isLeaf.headMatches around (named ▸ found)
  obtain ⟨tagged, met⟩ := (ModelSlot.takes_iff named).mp takes
  have demands :
      (!slot.condition.additional.isEmpty && !Attempt.meetsAdditional slot leaf) = false := by
    rcases met with none | met
    · simp [none]
    · simp [met]
  have role : slot.condition.isHead = stop.component.isHead := by rw [isModel]; rfl
  have fills : extractor.Fills sentence leaves stop.component stop.outermost leaf.span := by
    rw [isModel]
    exact ⟨leaf, member, rfl, takes⟩
  -- The head of the phrase is the head of the run.
  have headAt : ∃ position, leaf.head = some position ∧
      extractor.HeadAt sentence stop.component leaf.span position := by
    rw [isModel]
    exact isLeaf.headAt named
  unfold Attempt.takeLeaf?
  simp only [headMatches, tagged, demands, Bool.not_true, Bool.and_false, Bool.false_eq_true,
    if_false]
  refine ⟨_, rfl, ?_⟩
  rw [role]
  exact taken_of_grown fills beside faithful.ordered (faithful.absorb isLeaf.faithful beside) rfl
    rfl rfl (fun met => by simp [met]) (Nat.lt_succ_self _) rfl rfl fun _ => headAt

/-- A slot that may be filled again is filled by an eligible position and a run beside it. -/
theorem Extractor.fills_word_again {slot : WordSlot} {outermost : Prop} {position : Nat}
    {side : Side}
    (again : outermost ∧ slot.condition.isRepeated)
    (eligible : extractor.eligible sentence (.word slot) position)
    (beside : run.Beside ⟨position, position⟩ side)
    (fills : extractor.Fills sentence leaves (.word slot) outermost run) :
    extractor.Fills sentence leaves (.word slot) outermost
      (Span.stretch ⟨position, position⟩ side (run.reach side)) := by
  obtain ⟨ordered, all, _⟩ := fills
  cases side with
  | left =>
    have adjoins : run.last + 1 = position := beside
    refine ⟨by show run.first ≤ position; omega, fun place first last => ?_, .inr again⟩
    have last : place ≤ position := last
    -- A position is the one nearest to the phrase, or it lies in the run.
    rcases Nat.eq_or_lt_of_le last with rfl | before
    · exact eligible
    · exact all place first (by omega)
  | right =>
    have adjoins : position + 1 = run.first := beside
    -- To the right the run follows the position.
    refine ⟨by show position ≤ run.last; omega, fun place first last => ?_, .inr again⟩
    have first : position ≤ place := first
    rcases Nat.eq_or_lt_of_le first with rfl | behind
    · exact eligible
    · exact all place (by omega) last

/-- A run beside a span starts with the position there, and may go on with a run beside that one. -/
theorem Extractor.fills_word_cases {slot : WordSlot} {outermost : Prop} {position : Nat}
    {span : Span} {side : Side}
    (fills : extractor.Fills sentence leaves (.word slot) outermost run)
    (beside : run.Beside span side) (adjoins : Span.Beside ⟨position, position⟩ span side) :
    extractor.eligible sentence (.word slot) position ∧
      (run = ⟨position, position⟩ ∨ (outermost ∧ slot.condition.isRepeated) ∧
        ∃ rest : Span, extractor.Fills sentence leaves (.word slot) outermost rest ∧
          rest.Beside (span.stretch side position) side ∧ rest.reach side = run.reach side) := by
  obtain ⟨first, last⟩ := run
  obtain ⟨ordered, all, several⟩ := fills
  simp only at ordered all several
  rcases Nat.eq_or_lt_of_le ordered with rfl | more
  · -- The run is a single position, which can only be the one beside the span.
    obtain rfl : first = position := by
      cases side <;> simp only [Span.Beside] at beside adjoins <;> omega
    exact ⟨all first (Nat.le_refl _) (Nat.le_refl _), .inl rfl⟩
  · -- The run has more than one position, so that the slot may be filled again.
    have again := several.resolve_left (Nat.ne_of_lt more)
    cases side with
    | left =>
      obtain rfl : last = position := by simp only [Span.Beside] at beside adjoins; omega
      refine ⟨all last ordered (Nat.le_refl _),
        .inr ⟨again, ⟨first, last - 1⟩, ⟨?_, ?_, ?_⟩, ?_, rfl⟩⟩
      · show first ≤ last - 1
        omega
      · exact fun place left right => all place left (Nat.le_trans right (Nat.sub_le ..))
      · exact .inr again
      · show last - 1 + 1 = last
        omega
    | right =>
      obtain rfl : first = position := by simp only [Span.Beside] at beside adjoins; omega
      refine ⟨all first (Nat.le_refl _) ordered,
        .inr ⟨again, ⟨first + 1, last⟩, ⟨?_, ?_, ?_⟩, rfl, rfl⟩⟩
      · show first + 1 ≤ last
        omega
      · exact fun place left right => all place (Nat.le_of_succ_le left) right
      · exact .inr again

/-- No run fills a slot for a word beside a span where the first position is not eligible. -/
theorem Extractor.not_fills_word {slot : WordSlot} {outermost : Prop} {span : Span} {side : Side}
    (blocked : ∀ position ∈ (sentence.beyond side span).head?,
      extractor.eligible sentence (.word slot) position = false)
    (beside : run.Beside span side) :
    ¬extractor.Fills sentence leaves (.word slot) outermost run := by
  rintro ⟨ordered, all, _⟩
  -- The position of the run that is nearest to the span would be eligible.
  obtain ⟨position, inside, adjoins⟩ : ∃ position, (run.first ≤ position ∧ position ≤ run.last) ∧
      Span.Beside ⟨position, position⟩ span side := by
    cases side with
    | left => exact ⟨run.last, ⟨ordered, Nat.le_refl _⟩, beside⟩
    | right => exact ⟨run.first, ⟨Nat.le_refl _, ordered⟩, beside⟩
  have eligible := all position inside.1 inside.2
  obtain ⟨token, stands, _⟩ := eligible_word_iff.mp eligible
  have within : position < sentence.length := (List.getElem?_eq_some_iff.mp stands).1
  have refused := blocked position (Sentence.head?_beyond adjoins within)
  rw [eligible] at refused
  cases refused

/-- Filling a slot again takes the run that the token and the further tokens make. -/
theorem Taken.trans {slot : WordSlot} {position : Nat} {before middle after : Phrase × MatchStatus}
    (isWord : stop.component = .word slot)
    (again : stop.outermost ∧ slot.condition.isRepeated)
    (first : Taken extractor sentence leaves stop ⟨position, position⟩ before middle)
    (further : Taken extractor sentence leaves stop run middle after) :
    Taken extractor sentence leaves stop
      (Span.stretch ⟨position, position⟩ stop.side (run.reach stop.side)) before after := by
  -- The run lies beside the token, since that is where the phrase ends once it is taken.
  have beside : run.Beside ⟨position, position⟩ stop.side := by
    have next := further.beside
    rw [first.span_eq] at next
    cases side : stop.side <;> simpa [side, Span.Beside, Span.stretch, Span.reach] using next
  have adjoins : Span.Beside (Span.stretch ⟨position, position⟩ stop.side (run.reach stop.side))
      before.1.span stop.side := by
    have next := first.beside
    cases side : stop.side <;> simpa [side, Span.Beside, Span.stretch, Span.reach] using next
  have fills := first.fills
  have furtherFills := further.fills
  rw [isWord] at fills furtherFills
  -- The token was taken for the slot, so its position is eligible.
  have eligible := fills.2.1 position (Nat.le_refl _) (Nat.le_refl _)
  refine ⟨?_, adjoins, further.faithful, ?_, further.pattern_eq.trans first.pattern_eq,
    fun met => further.lexicon (first.lexicon met), Nat.lt_trans first.consumed further.consumed,
    fun isHead unchecked => ?_, fun other => ?_⟩
  · rw [isWord]
    exact Extractor.fills_word_again again eligible beside furtherFills
  · rw [further.span_eq, first.span_eq, Span.reach_stretch, Span.stretch_stretch]
  · -- The token gives the head, and the further tokens leave it alone.
    obtain ⟨checked, matched, head, same, inside, fits⟩ := first.headed isHead unchecked
    obtain ⟨kept, stillChecked, stillMatched⟩ := further.unheaded (by simp [checked])
    have covers := beside.stretch_covers furtherFills.1
    exact ⟨stillChecked.trans checked, stillMatched.trans matched, head, kept.trans same,
      ⟨Nat.le_trans covers.1 inside.1, Nat.le_trans inside.2 covers.2⟩, fits⟩
  · obtain ⟨kept, sameChecked, sameMatched⟩ := first.unheaded other
    obtain ⟨stillKept, stillChecked, stillMatched⟩ :=
      further.unheaded (by rw [sameChecked]; exact other)
    exact ⟨stillKept.trans kept, stillChecked.trans sameChecked, stillMatched.trans sameMatched⟩

/-- Taking one run after the other grows the span, and keeps the phrase faithful and its pattern. -/
theorem along_taken {route : List Stop} {runs : List Span} {before after : Phrase × MatchStatus}
    (faithful : before.1.Faithful extractor sentence)
    (along : Along (Taken extractor sentence leaves) route runs before after) :
    Grown (fun stop => extractor.Fills sentence leaves stop.component stop.outermost) route runs
        before.1.span after.1.span ∧
      after.1.Faithful extractor sentence ∧ after.1.pattern = before.1.pattern := by
  -- Each run is taken from where those before it have led.
  induction route generalizing runs before with
  | nil =>
    cases runs with
    | nil =>
      cases along
      exact ⟨rfl, faithful, rfl⟩
    | cons run runs => exact absurd along id
  | cons stop route rest =>
    cases runs with
    | nil => exact absurd along id
    | cons run runs =>
      obtain ⟨middle, taken, along⟩ := along
      obtain ⟨grown, stillFaithful, named⟩ := rest taken.faithful along
      refine ⟨⟨_, ⟨taken.fills, taken.beside, taken.span_eq⟩, grown⟩, stillFaithful, ?_⟩
      exact named.trans taken.pattern_eq

/-- What a status has come to if nothing is missing any more but the slots of a route. -/
structure MatchStatus.Awaits (status : MatchStatus) (route : List Stop) (length : Nat) : Prop where
  /-- What is asked of the words is met from the start. -/
  lexicon : status.lexiconSatisfied = true
  /-- A head that has been looked at matches. -/
  matched : status.headChecked = true → status.headMatched = true
  /-- The head has been looked at, or a slot for it is still to come. -/
  checked : status.headChecked = true ∨ ∃ stop ∈ route, stop.component.isHead = true
  /-- The slots that are left make up for what has not been taken yet. -/
  consumed : length ≤ status.consumed + route.length

/-- Once every slot is filled, everything is settled. -/
theorem MatchStatus.Awaits.isComplete {length : Nat} (awaits : status.Awaits [] length) :
    status.isComplete length := by
  -- With no slot left the head must have been looked at.
  have looked : status.headChecked = true := awaits.checked.resolve_right (by simp)
  simp only [MatchStatus.isComplete, looked, awaits.matched looked, awaits.lexicon, Bool.true_and,
    decide_eq_true_eq]
  simpa using awaits.consumed

/-- What holds while slots are being filled, those of a route being left. -/
structure Underway (extractor : Extractor) (sentence : Sentence) (pattern : Pattern) (base : Span)
    (route : List Stop) (phrase : Phrase) (status : MatchStatus) : Prop where
  /-- The phrase shows a piece of the sentence. -/
  faithful : phrase.Faithful extractor sentence
  /-- The phrase has the span of the base in its own. -/
  covers : phrase.span.first ≤ base.first ∧ base.last ≤ phrase.span.last
  /-- What is asked of the words is met from the start. -/
  lexicon : status.lexiconSatisfied = true
  /-- A head that has been looked at matches. -/
  matched : status.headChecked = true → status.headMatched = true
  /-- The head has been looked at, or a slot for it is still to come. -/
  checked : status.headChecked = true ∨ ∃ stop ∈ route, stop.component.isHead = true
  /-- The slots that are left make up for what has not been taken yet. -/
  consumed : pattern.length ≤ status.consumed + route.length

namespace Underway

variable {pattern : Pattern} {base : Span} {route : List Stop} {grown : Phrase}
  {counted : MatchStatus}

/-- Filling a slot leaves the slots after it. -/
theorem step (underway : Underway extractor sentence pattern base (stop :: route) phrase status)
    (taken : Taken extractor sentence leaves stop run (phrase, status) (grown, counted))
    (ordered : run.first ≤ run.last) :
    Underway extractor sentence pattern base route grown counted := by
  obtain ⟨faithful, covers, lexicon, matched, checked, consumed⟩ := underway
  -- The phrase grows over the run and so keeps the base.
  have wider := taken.beside.stretch_covers ordered
  rw [← taken.span_eq] at wider
  have more := taken.consumed
  simp only [List.length_cons] at consumed more
  refine ⟨taken.faithful, ⟨Nat.le_trans wider.1 covers.1, Nat.le_trans covers.2 wider.2⟩,
    taken.lexicon lexicon, ?_, ?_, by omega⟩
  · intro looked
    by_cases first : stop.component.isHead ∧ status.headChecked = false
    · exact (taken.headed first.1 first.2).2.1
    · -- All that is known of the head stays as it was.
      obtain ⟨_, sameChecked, sameMatched⟩ := taken.unheaded first
      exact sameMatched.trans (matched (sameChecked.symm.trans looked))
  · by_cases first : stop.component.isHead ∧ status.headChecked = false
    · exact .inl (taken.headed first.1 first.2).1
    · obtain ⟨_, sameChecked, _⟩ := taken.unheaded first
      rcases checked with looked | ⟨other, member, isHead⟩
      · exact .inl (sameChecked.trans looked)
      · rcases List.mem_cons.mp member with rfl | member
        · -- The slot has the role of the head, so the head must have been looked at before.
          refine .inl (sameChecked.trans ?_)
          simpa [isHead] using first
        · exact .inr ⟨other, member, isHead⟩

/-- The base is part of the phrase, so that it does not lie beside it. -/
theorem not_beside (underway : Underway extractor sentence pattern base route phrase status)
    (ordered : base.first ≤ base.last) (side : Side) : ¬base.Beside phrase.span side := by
  have covers := underway.covers
  cases side with
  | left =>
    show base.last + 1 ≠ phrase.span.first
    omega
  | right =>
    show phrase.span.last + 1 ≠ base.first
    omega

/-- Nothing is lost if a slot that is filled may be filled again. -/
theorem again (underway : Underway extractor sentence pattern base route phrase status)
    (stop : Stop) : Underway extractor sentence pattern base (stop :: route) phrase status := by
  obtain ⟨faithful, covers, lexicon, matched, checked, consumed⟩ := underway
  refine ⟨faithful, covers, lexicon, matched, ?_, Nat.le_succ_of_le consumed⟩
  exact checked.imp_right fun ⟨other, member, isHead⟩ =>
    ⟨other, List.mem_cons_of_mem stop member, isHead⟩

/-- Nothing is missing any more but the slots that are left. -/
theorem awaits (underway : Underway extractor sentence pattern base route phrase status) :
    status.Awaits route pattern.length :=
  ⟨underway.lexicon, underway.matched, underway.checked, underway.consumed⟩

end Underway

end PhraseGrammar
