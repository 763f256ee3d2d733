import PhraseGrammar.Proofs.CompositeStep
import PhraseGrammar.Proofs.LeafIndex

/-! The search along a route loses nothing by leaving out what was tried, and adds nothing. -/

namespace PhraseGrammar

/-- The attempt to grow a numbered phrase of words into a pattern. -/
def Extractor.attempt (extractor : Extractor) (sentence : Sentence) (leaves : List Phrase)
    (number : Nat) (pattern : Pattern) : Attempt where
  registry := extractor.registry
  around := extractor.surroundings sentence
  leaves := .ofList leaves
  base := number
  length := pattern.length

/-- An attempt looks patterns up in the grammar of its extractor. -/
@[simp]
theorem Extractor.registry_attempt {extractor : Extractor} {sentence : Sentence}
    {leaves : List Phrase} {number : Nat} {pattern : Pattern} :
    (extractor.attempt sentence leaves number pattern).registry = extractor.registry :=
  rfl

/-- Whether a run fills the slot of a stop. -/
abbrev Extractor.FillsStop (extractor : Extractor) (sentence : Sentence) (leaves : List Phrase)
    (stop : Stop) (run : Span) : Prop :=
  extractor.Fills sentence leaves stop.component stop.outermost run

/-- Whether every span that a span can grow to along a route is that of a known phrase. -/
def Covers (extractor : Extractor) (sentence : Sentence) (leaves known : List Phrase)
    (route : List Stop) (span : Span) : Prop :=
  ∀ runs final, Grown (extractor.FillsStop sentence leaves) route runs span final →
    ∃ phrase ∈ known, phrase.span = final

/-- Whether whatever the trials at the stops of a route can lead to is known. -/
def Settled (extractor : Extractor) (sentence : Sentence) (leaves known : List Phrase)
    (trials : Trials) : List Stop → Prop
  | [] => True
  | stop :: route =>
    -- A trial leads on along the stops after its own.
    (∀ number leaf span slot, ⟨stop.side, stop.index, number, span⟩ ∈ trials →
      leaves[number]? = some leaf → stop.component = .model slot → slot.Takes leaf →
      leaf.span.Beside span stop.side →
      Covers extractor sentence leaves known route
        (span.stretch stop.side (leaf.span.reach stop.side))) ∧
    Settled extractor sentence leaves known trials route

/-- What a search along a route leaves behind, given what was known and tried before it. -/
structure Explored (extractor : Extractor) (sentence : Sentence) (leaves : List Phrase)
    (route : List Stop) (phrase : Phrase) (status : MatchStatus) (known : List Phrase)
    (trials : Trials) (findings : Findings) : Prop where
  /-- Every phrase that is found has been taken together along the route. -/
  sound : ∀ found ∈ findings.found, ∃ runs ended,
    Along (Taken extractor sentence leaves) route runs (phrase, status) (found, ended)
  /-- What the trials can lead to is known in the end. -/
  settled : Settled extractor sentence leaves (known ++ findings.found) findings.trials route
  /-- New trials are made at the stops of the route only. -/
  framed : ∀ trial ∈ findings.trials, trial ∈ trials ∨ ∃ stop ∈ route, trial.index = stop.index

/-- Whether a way to go on explores a route from wherever it starts, and misses no phrase there. -/
def Explores (extractor : Extractor) (sentence : Sentence) (leaves : List Phrase)
    (pattern : Pattern) (base : Span) (route : List Stop) (goOn : Attempt.Continue) : Prop :=
  ∀ phrase status depth trials known findings,
    Underway extractor sentence pattern base route phrase status →
    Settled extractor sentence leaves known trials route →
    (goOn phrase status depth trials).Yields findings →
    Explored extractor sentence leaves route phrase status known trials findings ∧
      Covers extractor sentence leaves (known ++ findings.found) route phrase.span

variable {extractor : Extractor} {sentence : Sentence} {leaves known more : List Phrase}
  {pattern : Pattern} {base : Span} {stop : Stop} {route : List Stop} {run span : Span}
  {phrase : Phrase} {status : MatchStatus} {trials : Trials}

/-- What is covered stays covered when more is known. -/
theorem Covers.mono (covers : Covers extractor sentence leaves known route span)
    (subset : known ⊆ more) : Covers extractor sentence leaves more route span := by
  intro runs final grown
  -- The phrase that was known before is still known.
  obtain ⟨phrase, member, same⟩ := covers runs final grown
  exact ⟨phrase, subset member, same⟩

/-- A route is covered if whatever fills its first slot leads to a covered rest of it. -/
theorem covers_cons_iff :
    Covers extractor sentence leaves known (stop :: route) span ↔
      ∀ run, extractor.FillsStop sentence leaves stop run → run.Beside span stop.side →
        Covers extractor sentence leaves known route
          (span.stretch stop.side (run.reach stop.side)) := by
  constructor
  · intro covers run fills beside runs final grown
    exact covers (run :: runs) final ⟨_, ⟨fills, beside, rfl⟩, grown⟩
  · -- The first of the runs fills the first slot, and the others go on from there.
    intro each runs final grown
    cases runs with
    | nil => exact absurd grown id
    | cons run runs =>
      obtain ⟨_, ⟨fills, beside, rfl⟩, grown⟩ := grown
      exact each run fills beside runs final grown

/-- What is settled stays settled when more is known. -/
theorem Settled.mono (settled : Settled extractor sentence leaves known trials route)
    (subset : known ⊆ more) : Settled extractor sentence leaves more trials route := by
  -- What each trial leads to is covered, which more knowledge does not change.
  induction route with
  | nil => trivial
  | cons stop route rest =>
    refine ⟨fun number leaf span slot tried listed isModel takes beside => ?_, rest settled.2⟩
    exact (settled.1 number leaf span slot tried listed isModel takes beside).mono subset

/-- Without a trial there is nothing to be settled. -/
theorem settled_empty (route : List Stop) :
    Settled extractor sentence leaves known ∅ route := by
  induction route with
  | nil => trivial
  | cons stop route rest =>
    exact ⟨fun _ _ _ _ tried => absurd tried Std.HashSet.not_mem_empty, rest⟩

/-- A trial at none of the stops leaves settled what was settled. -/
theorem Settled.insert (settled : Settled extractor sentence leaves known trials route)
    {trial : Trial} (apart : ∀ stop ∈ route, trial.index ≠ stop.index) :
    Settled extractor sentence leaves known (trials.insert trial) route := by
  -- At every stop the trials are those that there were.
  induction route with
  | nil => trivial
  | cons stop route rest =>
    obtain ⟨here, later⟩ := List.forall_mem_cons.mp apart
    refine ⟨fun number leaf span slot tried => ?_, rest settled.2 later⟩
    rcases Std.HashSet.mem_insert.mp tried with same | tried
    · -- The new trial was made at another stop.
      obtain rfl := eq_of_beq same
      exact absurd rfl here
    · exact settled.1 number leaf span slot tried

/-- At a stop for a word there are no trials to be settled. -/
theorem settled_word {slot : WordSlot} (isWord : stop.component = .word slot) :
    Settled extractor sentence leaves known trials (stop :: route) ↔
      Settled extractor sentence leaves known trials route := by
  refine ⟨And.right, fun settled => ⟨fun number leaf span other _ _ isModel => ?_, settled⟩⟩
  rw [isWord] at isModel
  cases isModel

/-- Where nothing can be taken, nothing is found, and nothing is missed. -/
theorem Explored.nothing (settled : Settled extractor sentence leaves known trials route) :
    Explored extractor sentence leaves route phrase status known trials ⟨[], trials⟩ where
  sound := by simp
  settled := by simpa using settled
  framed trial tried := .inl tried

/-- What is explored behind a slot is explored from before it, if the trials there are settled. -/
theorem Explored.behind {grown : Phrase} {counted : MatchStatus} {findings : Findings}
    (explored : Explored extractor sentence leaves route grown counted known trials findings)
    (taken : Taken extractor sentence leaves stop run (phrase, status) (grown, counted))
    (settled : Settled extractor sentence leaves (known ++ findings.found) findings.trials
      (stop :: route)) :
    Explored extractor sentence leaves (stop :: route) phrase status known trials findings := by
  refine ⟨fun found member => ?_, settled, fun trial tried => ?_⟩
  · -- The run that fills the slot comes before those that fill the others.
    obtain ⟨runs, ended, along⟩ := explored.sound found member
    exact ⟨run :: runs, ended, _, taken, along⟩
  · rcases explored.framed trial tried with before | ⟨other, member, same⟩
    · exact .inl before
    · exact .inr ⟨other, List.mem_cons_of_mem stop member, same⟩

/-- What is explored by filling a slot again is explored from before the slot. -/
theorem Explored.again {slot : WordSlot} {position : Nat} {grown : Phrase} {counted : MatchStatus}
    {findings : Findings}
    (explored : Explored extractor sentence leaves (stop :: route) grown counted known trials
      findings)
    (isWord : stop.component = .word slot) (again : stop.outermost ∧ slot.condition.isRepeated)
    (taken : Taken extractor sentence leaves stop ⟨position, position⟩ (phrase, status)
      (grown, counted)) :
    Explored extractor sentence leaves (stop :: route) phrase status known trials findings := by
  refine ⟨fun found member => ?_, explored.settled, explored.framed⟩
  obtain ⟨runs, ended, along⟩ := explored.sound found member
  cases runs with
  | nil => exact absurd along id
  | cons run runs =>
    -- The token and the further tokens make one run together.
    obtain ⟨between, more, along⟩ := along
    exact ⟨_ :: runs, ended, between, taken.trans isWord again more, along⟩

/-- One part of a search after the other explores what both of them do. -/
theorem Explored.append {here further : Findings}
    (first : Explored extractor sentence leaves route phrase status known trials here)
    (second : Explored extractor sentence leaves route phrase status (known ++ here.found)
      here.trials further) :
    Explored extractor sentence leaves route phrase status known trials
      ⟨here.found ++ further.found, further.trials⟩ := by
  refine ⟨fun found member => ?_, ?_, fun trial tried => ?_⟩
  · exact (List.mem_append.mp member).elim (first.sound found) (second.sound found)
  · rw [← List.append_assoc]
    exact second.settled
  · -- A trial of the second part was made in the first one, or it is new in the second one.
    exact (second.framed trial tried).elim (first.framed trial) .inr

/-- Trials that were made at a stop of the route before the search count as new ones. -/
theorem Explored.before {tried : Trials} {findings : Findings}
    (explored : Explored extractor sentence leaves route phrase status known tried findings)
    (made : ∀ trial ∈ tried, trial ∈ trials ∨ ∃ stop ∈ route, trial.index = stop.index) :
    Explored extractor sentence leaves route phrase status known trials findings :=
  -- What is found and settled does not depend on what was tried before.
  ⟨explored.sound, explored.settled,
    fun trial member => (explored.framed trial member).elim (made trial) .inr⟩

/-- A slot for a word is covered if it is with the token beside the phrase taken, once or again. -/
theorem covers_word {slot : WordSlot} {position : Nat} (isWord : stop.component = .word slot)
    (adjoins : Span.Beside ⟨position, position⟩ span stop.side)
    (once : extractor.eligible sentence (.word slot) position →
      Covers extractor sentence leaves known route (span.stretch stop.side position))
    (again : extractor.eligible sentence (.word slot) position →
      stop.outermost ∧ slot.condition.isRepeated →
      Covers extractor sentence leaves known (stop :: route) (span.stretch stop.side position)) :
    Covers extractor sentence leaves known (stop :: route) span := by
  refine covers_cons_iff.mpr fun run fills beside => ?_
  rw [Extractor.FillsStop, isWord] at fills
  -- A run is the token alone, or the token and a further run.
  obtain ⟨eligible, rfl | ⟨repeats, rest, fillsRest, besideRest, sameReach⟩⟩ :=
    Extractor.fills_word_cases fills beside adjoins
  · rw [Span.reach_single]
    exact once eligible
  · have covered := covers_cons_iff.mp (again eligible repeats) rest
      (by rw [Extractor.FillsStop, isWord]; exact fillsRest) besideRest
    rwa [Span.stretch_stretch, sameReach] at covered

/-- A slot for a word is covered where the position beside the phrase is not eligible for it. -/
theorem covers_blocked {slot : WordSlot} (isWord : stop.component = .word slot)
    (blocked : ∀ position ∈ (sentence.beyond stop.side span).head?,
      extractor.eligible sentence (.word slot) position = false) :
    Covers extractor sentence leaves known (stop :: route) span := by
  refine covers_cons_iff.mpr fun run fills beside => ?_
  rw [Extractor.FillsStop, isWord] at fills
  exact absurd fills (Extractor.not_fills_word blocked beside)

/-- Filling a slot with words explores what lies before it if going on explores what lies after. -/
theorem fillWord_explored {slot : WordSlot} {goOn : Attempt.Continue} {depth : Nat}
    {findings : Findings} {outward : List (Token × Nat)} (isWord : stop.component = .word slot)
    (next : Explores extractor sentence leaves pattern base route goOn)
    (underway : Underway extractor sentence pattern base (stop :: route) phrase status)
    (settled : Settled extractor sentence leaves known trials (stop :: route))
    (same : (extractor.surroundings sentence).outward stop.side phrase.span = outward)
    (ended : (Attempt.fillWord stop slot goOn outward phrase status depth trials).Yields findings) :
    Explored extractor sentence leaves (stop :: route) phrase status known trials findings ∧
      Covers extractor sentence leaves (known ++ findings.found) (stop :: route) phrase.span := by
  -- The induction is on the tokens outwards, since a slot may be filled again by the next one.
  induction outward generalizing phrase status depth trials known findings with
  | nil =>
    rcases Extractor.outward_cases extractor stop.side underway.faithful.ordered
      underway.faithful.inside with ⟨token, position, _, _, _, outwards, _⟩ | ⟨_, blocked⟩
    · rw [same] at outwards
      cases outwards
    · -- The sentence ends here, or the next token can take part in nothing.
      rw [ended.of_pure]
      exact ⟨.nothing settled, covers_blocked isWord (blocked _)⟩
  | cons first outward rest =>
    rcases Extractor.outward_cases extractor stop.side underway.faithful.ordered
      underway.faithful.inside with
      ⟨token, position, stands, admits, adjoins, outwards, _⟩ | ⟨none, _⟩
    · rw [same] at outwards
      obtain ⟨rfl, further⟩ := List.cons.inj outwards
      rw [Attempt.fillWord] at ended
      split at ended
      · rename_i fits
        -- The token is taken, and the search goes on behind it.
        have taken : Taken extractor sentence leaves stop ⟨position, position⟩ (phrase, status)
            (Attempt.takeWord stop slot token position phrase status) :=
          taken_takeWord isWord underway.faithful stands admits fits adjoins
        generalize Attempt.takeWord stop slot token position phrase status = taking at ended taken
        obtain ⟨grown, counted⟩ := taking
        have after := underway.step taken (Nat.le_refl _)
        have span : grown.span = phrase.span.stretch stop.side position := by
          have stretched := taken.span_eq
          rwa [Span.reach_single] at stretched
        dsimp only at ended
        obtain ⟨here, hereEnded, ended⟩ := ended.of_bind
        obtain ⟨explored, covers⟩ := next _ _ _ _ _ _ after settled.2 hereEnded
        have untried := (settled_word isWord).mpr explored.settled
        split at ended
        · rename_i repeats
          rw [Bool.and_eq_true] at repeats
          obtain ⟨_, _, ended⟩ := ended.of_bind
          obtain ⟨more, moreEnded, ended⟩ := ended.of_bind
          -- The further tokens are taken from where the first one has left off.
          obtain ⟨exploredMore, coversMore⟩ := rest (after.again stop) untried
            (by rw [span, further]) moreEnded
          rw [ended.of_pure]
          have exploredAgain := exploredMore.again isWord repeats taken
          refine ⟨(explored.behind taken untried).append exploredAgain, ?_⟩
          rw [← List.append_assoc]
          rw [span] at covers coversMore
          exact covers_word isWord adjoins (fun _ => covers.mono (List.subset_append_left ..))
            fun _ _ => coversMore
        · -- The slot is filled once only.
          rename_i unrepeated
          rw [ended.of_pure]
          rw [span] at covers
          refine ⟨explored.behind taken untried, covers_word isWord adjoins (fun _ => covers) ?_⟩
          exact fun _ repeats => absurd (by simpa using repeats) unrepeated
      · -- What is beside the phrase does not meet the slot, so nothing fills it.
        rename_i misfit
        have ineligible : ¬extractor.eligible sentence (.word slot) position := by
          rwa [Extractor.eligible_word_eq stands admits]
        rw [ended.of_pure]
        exact ⟨.nothing settled, covers_word isWord adjoins
          (fun eligible => absurd eligible ineligible) fun eligible => absurd eligible ineligible⟩
    · rw [same] at none
      cases none

/-- A trial that leads to what is known by now can be added to settled ones. -/
theorem Settled.try {number : Nat} {leaf : Phrase} (span : Span)
    (settled : Settled extractor sentence leaves known trials (stop :: route))
    (apart : ∀ other ∈ route, stop.index ≠ other.index) (listed : leaves[number]? = some leaf)
    (covered : ∀ slot, stop.component = .model slot → slot.Takes leaf →
      leaf.span.Beside span stop.side →
      Covers extractor sentence leaves known route
        (span.stretch stop.side (leaf.span.reach stop.side))) :
    Settled extractor sentence leaves known
      (trials.insert ⟨stop.side, stop.index, number, span⟩) (stop :: route) := by
  refine ⟨fun other found place slot tried isOther isModel takes beside => ?_,
    settled.2.insert apart⟩
  rcases Std.HashSet.mem_insert.mp tried with same | tried
  · -- The trial is the one that is added.
    cases eq_of_beq same
    cases isOther.symm.trans listed
    exact covered slot isModel takes beside
  · exact settled.1 other found place slot tried isOther isModel takes beside

/-- What settles a stop is not disturbed by what is tried at the stops after it. -/
theorem Settled.of_explored {tried : Trials} {grown : Phrase} {counted : MatchStatus}
    {findings : Findings}
    (settled : Settled extractor sentence leaves (known ++ findings.found) tried (stop :: route))
    (apart : ∀ other ∈ route, stop.index ≠ other.index)
    (explored : Explored extractor sentence leaves route grown counted known tried findings) :
    Settled extractor sentence leaves (known ++ findings.found) findings.trials
      (stop :: route) := by
  refine ⟨fun number leaf span slot made => ?_, explored.settled⟩
  rcases explored.framed _ made with made | ⟨other, member, same⟩
  · exact settled.1 number leaf span slot made
  · exact absurd same (apart other member)

/-- After one more trial at a stop, every trial was there before or was made at the stop. -/
theorem made_of_insert {trial : Trial} {which : Nat} (route : List Stop)
    (made : trial ∈ trials.insert ⟨stop.side, stop.index, which, span⟩) :
    trial ∈ trials ∨ ∃ other ∈ stop :: route, trial.index = other.index := by
  rcases Std.HashSet.mem_insert.mp made with same | before
  · cases eq_of_beq same
    exact .inr ⟨stop, List.mem_cons_self, rfl⟩
  · exact .inl before

/-- A neighbour that is passed over leads to nothing that is not known already. -/
theorem covers_passedOver {slot : ModelSlot} {number which : Nat} {baseLeaf leaf : Phrase}
    (isLeaf : ∀ leaf ∈ leaves, extractor.IsLeaf sentence leaf)
    (isBase : leaves[number]? = some baseLeaf) (isModel : stop.component = .model slot)
    (underway : Underway extractor sentence pattern baseLeaf.span (stop :: route) phrase status)
    (settled : Settled extractor sentence leaves known trials (stop :: route))
    (isListed : leaves[which]? = some leaf) (beside : leaf.span.Beside phrase.span stop.side)
    (passed : (which = number ∨ leaf.pattern ≠ slot.pattern) ∨
      ⟨stop.side, stop.index, which, phrase.span⟩ ∈ trials)
    (takes : slot.Takes leaf) :
    Covers extractor sentence leaves known route
      (phrase.span.stretch stop.side (leaf.span.reach stop.side)) := by
  rcases passed with (rfl | other) | tried
  · -- The base lies within the phrase, and so never beside it.
    obtain rfl : leaf = baseLeaf := Option.some.inj (isListed.symm.trans isBase)
    have ordered := (isLeaf leaf (List.mem_of_getElem? isBase)).faithful.ordered
    exact absurd beside (underway.not_beside ordered stop.side)
  · -- A phrase of another pattern does not fill the slot.
    exact absurd takes.named other
  · -- What the trial leads to was known when it was made before.
    exact settled.1 which leaf phrase.span slot tried isListed isModel takes beside

/-- Filling a slot with neighbours explores what lies before it, one neighbour after the other. -/
theorem fillModel_explored {slot : ModelSlot} {referenced : Pattern} {goOn : Attempt.Continue}
    {number depth : Nat} {baseLeaf : Phrase} {findings : Findings}
    {candidates : List (Phrase × Nat)}
    (isLeaf : ∀ leaf ∈ leaves, extractor.IsLeaf sentence leaf)
    (isBase : leaves[number]? = some baseLeaf)
    (isModel : stop.component = .model slot)
    (found : extractor.registry.byName? slot.pattern = some referenced)
    (apart : ∀ other ∈ route, stop.index ≠ other.index)
    (next : Explores extractor sentence leaves pattern baseLeaf.span route goOn)
    (underway : Underway extractor sentence pattern baseLeaf.span (stop :: route) phrase status)
    (listed : ∀ next ∈ candidates, leaves[next.2]? = some next.1 ∧
      next.1.span.Beside phrase.span stop.side)
    (settled : Settled extractor sentence leaves known trials (stop :: route))
    (ended : (Attempt.fillModel (extractor.attempt sentence leaves number pattern) stop slot
      referenced goOn phrase status depth candidates trials).Yields findings) :
    Explored extractor sentence leaves (stop :: route) phrase status known trials findings ∧
      ∀ next ∈ candidates, slot.Takes next.1 →
        Covers extractor sentence leaves (known ++ findings.found) route
          (phrase.span.stretch stop.side (next.1.span.reach stop.side)) := by
  -- What one neighbour leaves behind is where the next one starts.
  induction candidates generalizing trials known findings with
  | nil =>
    rw [ended.of_pure]
    exact ⟨.nothing settled, by simp⟩
  | cons first candidates rest =>
    obtain ⟨leaf, which⟩ := first
    obtain ⟨⟨isListed, beside⟩, later⟩ := List.forall_mem_cons.mp listed
    rw [Attempt.fillModel] at ended
    split at ended
    · -- A neighbour is passed over for one of three reasons, none of which loses a phrase.
      rename_i skipped
      simp only [Bool.or_eq_true, decide_eq_true_eq, Std.HashSet.contains_iff_mem] at skipped
      obtain ⟨explored, covers⟩ := rest later settled ended
      refine ⟨explored, List.forall_mem_cons.mpr ⟨fun takes => ?_, covers⟩⟩
      have covered := covers_passedOver isLeaf isBase isModel underway settled isListed beside
        skipped takes
      exact covered.mono (List.subset_append_left ..)
    · rename_i fresh
      simp only [Bool.or_eq_true, decide_eq_true_eq, not_or, Decidable.not_not] at fresh
      obtain ⟨⟨_, named⟩, _⟩ := fresh
      have member := List.mem_of_getElem? isListed
      dsimp only at ended
      by_cases takes : slot.Takes leaf
      · obtain ⟨⟨grown, counted⟩, taking, taken⟩ :
            ∃ after, (extractor.attempt sentence leaves number pattern).takeLeaf? stop slot
              referenced leaf phrase status = some after ∧
              Taken extractor sentence leaves stop leaf.span (phrase, status) after :=
          exists_takeLeaf? rfl isModel found member (isLeaf leaf member) underway.faithful beside
            takes
        rw [taking] at ended
        dsimp only at ended
        obtain ⟨here, hereEnded, ended⟩ := ended.of_bind
        obtain ⟨more, moreEnded, ended⟩ := ended.of_bind
        have after := underway.step taken (isLeaf leaf member).faithful.ordered
        obtain ⟨explored, covered⟩ := next _ _ _ _ _ _ after (settled.2.insert apart) hereEnded
        rw [show grown.span = _ from taken.span_eq] at covered
        -- Now that all behind the neighbour is known, the trial itself is settled.
        have tried := ((settled.mono (List.subset_append_left known here.found)).try phrase.span
          apart isListed fun _ _ _ _ => covered).of_explored apart explored
        obtain ⟨exploredMore, covers⟩ := rest later tried moreEnded
        rw [ended.of_pure]
        have exploredHere := (explored.behind taken tried).before fun _ => made_of_insert route
        refine ⟨exploredHere.append exploredMore, ?_⟩
        rw [← List.append_assoc]
        refine List.forall_mem_cons.mpr ⟨fun _ => ?_, covers⟩
        exact covered.mono (List.subset_append_left ..)
      · rw [takeLeaf?_eq_none named takes] at ended
        dsimp only at ended
        -- A trial of what does not meet the slot leads nowhere.
        have tried := settled.try phrase.span apart isListed fun other isOther takes' _ => by
          cases isModel.symm.trans isOther
          exact absurd takes' takes
        obtain ⟨explored, covers⟩ := rest later tried ended
        have exploredHere := explored.before fun _ => made_of_insert route
        refine ⟨exploredHere, List.forall_mem_cons.mpr ⟨fun takes' => ?_, covers⟩⟩
        exact absurd takes' takes

/-- Walking along a route explores it. -/
theorem walk_explores {number : Nat} {baseLeaf : Phrase}
    (isLeaf : ∀ leaf ∈ leaves, extractor.IsLeaf sentence leaf)
    (isBase : leaves[number]? = some baseLeaf)
    (apart : route.Pairwise fun stop other => stop.index ≠ other.index) :
    Explores extractor sentence leaves pattern baseLeaf.span route
      ((extractor.attempt sentence leaves number pattern).walk route) := by
  -- The induction is on the route, so that what follows a slot is explored already.
  induction route with
  | nil =>
    intro phrase status depth trials known findings underway _ ended
    rw [Attempt.walk, if_pos (by exact underway.awaits.isComplete)] at ended
    rw [ended.of_pure]
    refine ⟨⟨fun found member => ?_, trivial, fun trial tried => .inl tried⟩,
      fun runs final grown => ?_⟩
    · -- With no slot left the phrase is found as it is.
      cases List.mem_singleton.mp member
      exact ⟨[], status, rfl⟩
    · -- Nothing is left to be filled, so the phrase itself is the only one.
      cases runs with
      | nil => exact ⟨phrase, List.mem_append_right _ List.mem_cons_self, grown⟩
      | cons run runs => exact absurd grown id
  | cons stop route rest =>
    obtain ⟨here, later⟩ := List.pairwise_cons.mp apart
    intro phrase status depth trials known findings underway settled ended
    rw [Attempt.walk] at ended
    obtain ⟨_, _, ended⟩ := ended.of_bind
    cases component : stop.component with
    | word slot =>
      simp only [component] at ended
      exact fillWord_explored component (rest later) underway settled rfl ended
    | model slot =>
      simp only [component] at ended
      cases found : extractor.registry.byName? slot.pattern with
      | none =>
        -- No phrase of words is one of a pattern that there is not.
        rw [Extractor.registry_attempt, found] at ended
        rw [ended.of_pure]
        refine ⟨.nothing settled, covers_cons_iff.mpr fun run fills beside => ?_⟩
        rw [Extractor.FillsStop, component] at fills
        obtain ⟨leaf, member, _, takes⟩ := fills
        obtain ⟨named, _, _, _, same, _⟩ := (isLeaf leaf member).headed
        rw [takes.named, found] at same
        cases same
      | some referenced =>
        rw [Extractor.registry_attempt, found] at ended
        obtain ⟨explored, covers⟩ := fillModel_explored isLeaf isBase component found here
          (rest later) underway (fun next member => LeafIndex.mem_adjacent_ofList.mp member) settled
          ended
        refine ⟨explored, covers_cons_iff.mpr fun run fills beside => ?_⟩
        rw [Extractor.FillsStop, component] at fills
        obtain ⟨leaf, member, rfl, takes⟩ := fills
        -- A phrase that fills the slot is one of the neighbours.
        obtain ⟨which, listed⟩ := List.mem_iff_getElem?.mp member
        exact covers (leaf, which) (LeafIndex.mem_adjacent_ofList.mpr ⟨listed, beside⟩) takes

end PhraseGrammar
