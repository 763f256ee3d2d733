import PhraseGrammar.Proofs.CompositePass

/-! The search along a route as paths of fillings, and what holds of it because of its parts. -/

namespace PhraseGrammar

/-- Where the search along a route can stand. -/
structure Moment where
  /-- The stops that are left. -/
  route : List Stop
  /-- The phrase as far as it has grown. -/
  phrase : Phrase
  /-- The status of the phrase. -/
  status : MatchStatus
  /-- The depth that the search has come to. -/
  depth : Nat

/-- The search along what is left of a route, as some way to go on along routes has it. -/
abbrev Moment.resume (moment : Moment) (goOn : List Stop → Attempt.Continue) (trials : Trials) :
    Search Findings :=
  goOn moment.route moment.phrase moment.status moment.depth trials

/-- Whether the slot of a stop is one for words that may be filled again. -/
def Stop.Repeats (stop : Stop) : Prop :=
  stop.outermost ∧ ∃ slot, stop.component = .word slot ∧ slot.condition.isRepeated

namespace Attempt

/-- A way to fill the slot of a stop next to a phrase, and what becomes of phrase and status. -/
inductive Filling (attempt : Attempt) (stop : Stop) (phrase : Phrase) (status : MatchStatus) :
    Phrase → MatchStatus → Prop
  /-- The token next to the phrase meets the slot. -/
  | word {slot : WordSlot} {token : Token} {position : Nat} {outward : List (Token × Nat)}
      (isWord : stop.component = .word slot)
      (next : attempt.around.outward stop.side phrase.span = (token, position) :: outward)
      (fits : slot.matchesToken token) :
      Filling attempt stop phrase status (takeWord stop slot token position phrase status).1
        (takeWord stop slot token position phrase status).2
  /-- A neighbour other than the base meets the slot. -/
  | model {slot : ModelSlot} {referenced : Pattern} {leaf grown : Phrase} {number : Nat}
      {counted : MatchStatus} (isModel : stop.component = .model slot)
      (known : attempt.registry.byName? slot.pattern = some referenced)
      (adjacent : (leaf, number) ∈ attempt.leaves.adjacent stop.side phrase.span)
      (other : number ≠ attempt.base) (named : leaf.pattern = slot.pattern)
      (taken : attempt.takeLeaf? stop slot referenced leaf phrase status = some (grown, counted)) :
      Filling attempt stop phrase status grown counted

/-- A slot is filled: which one it is, and where the search goes on. -/
inductive Step (attempt : Attempt) : Moment → Nat → Moment → Prop
  /-- The search goes on behind the slot. -/
  | onward {stop : Stop} {route : List Stop} {phrase grown : Phrase} {status counted : MatchStatus}
      {depth : Nat} (filling : attempt.Filling stop phrase status grown counted) :
      Step attempt ⟨stop :: route, phrase, status, depth⟩ stop.index
        ⟨route, grown, counted, depth + 1⟩
  /-- The search goes on at the slot itself. -/
  | again {stop : Stop} {route : List Stop} {phrase grown : Phrase} {status counted : MatchStatus}
      {depth : Nat} (repeats : stop.Repeats)
      (filling : attempt.Filling stop phrase status grown counted) :
      Step attempt ⟨stop :: route, phrase, status, depth⟩ stop.index
        ⟨stop :: route, grown, counted, depth + 1⟩

/-- A path of the search: the slots that it has filled, the last one first, and where it ends. -/
inductive Path (attempt : Attempt) (start : Moment) : List Nat → Moment → Prop
  /-- The search sets out. -/
  | start : Path attempt start [] start
  /-- One more slot is filled. -/
  | step {filled : List Nat} {moment next : Moment} {index : Nat}
      (path : Path attempt start filled moment) (step : attempt.Step moment index next) :
      Path attempt start (index :: filled) next

/-- The search that fills the slot of a stop, and goes on from each of its fillings. -/
def fill (attempt : Attempt) (stop : Stop) (goOn : Continue) : Continue :=
  fun phrase status depth trials => do
    descend depth
    match stop.component with
    | .word slot =>
      fillWord stop slot goOn (attempt.around.outward stop.side phrase.span) phrase status depth
        trials
    | .model slot =>
      match attempt.registry.byName? slot.pattern with
      | none => return ⟨[], trials⟩
      | some pattern =>
        fillModel attempt stop slot pattern goOn phrase status depth
          (attempt.leaves.adjacent stop.side phrase.span) trials

/-- The findings of two searches, the second of which starts with the trials of the first. -/
def both (first : Search Findings) (second : Trials → Search Findings) : Search Findings := do
  let here ← first
  let further ← second here.trials
  return ⟨here.found ++ further.found, further.trials⟩

variable {attempt : Attempt} {stop : Stop} {route : List Stop}

/-- To follow a route is to fill its first slot, and to follow the rest of it from there. -/
theorem walk_cons : attempt.walk (stop :: route) = attempt.fill stop (attempt.walk route) := by
  funext phrase status depth trials
  rw [walk]
  rfl

/-- A token that meets the slot is taken, and maybe the one behind it is tried as well. -/
theorem fillWord_cons {slot : WordSlot} {goOn : Continue} {token : Token} {position depth : Nat}
    {outward : List (Token × Nat)} {phrase : Phrase} {status : MatchStatus} {trials : Trials}
    (fits : slot.matchesToken token) :
    fillWord stop slot goOn ((token, position) :: outward) phrase status depth trials =
      let taken := takeWord stop slot token position phrase status
      let here := goOn taken.1 taken.2 (depth + 1) trials
      if stop.outermost && slot.condition.isRepeated then
        both here fun tried => do
          descend (depth + 1)
          fillWord stop slot goOn outward taken.1 taken.2 (depth + 1) tried
      else here := by
  rw [fillWord, if_pos fits]
  dsimp only
  split
  · -- To go down and then to try again is one search, which comes second.
    simp only [both, bind_assoc]
  · -- Only what is found behind the token counts.
    exact bind_pure _

/-- A neighbour is passed over, or it is one more trial, behind which the search may go on. -/
theorem fillModel_cons {slot : ModelSlot} {pattern : Pattern} {goOn : Continue} {leaf : Phrase}
    {number depth : Nat} {leaves : List (Phrase × Nat)} {phrase : Phrase} {status : MatchStatus}
    {trials : Trials} :
    fillModel attempt stop slot pattern goOn phrase status depth ((leaf, number) :: leaves) trials =
      let trial : Trial := ⟨stop.side, stop.index, number, phrase.span⟩
      let others := fillModel attempt stop slot pattern goOn phrase status depth leaves
      if number = attempt.base || leaf.pattern ≠ slot.pattern || trials.contains trial then
        others trials
      else
        match attempt.takeLeaf? stop slot pattern leaf phrase status with
        | none => others (trials.insert trial)
        | some (grown, counted) =>
          both (goOn grown counted (depth + 1) (trials.insert trial)) others := by
  rw [fillModel]
  rfl

/-- Whether a relation of two searches passes from their parts to the whole of them. -/
structure Closed (attempt : Attempt) (start : Moment)
    (relates : Search Findings → Search Findings → Prop) : Prop where
  /-- Where nothing is found, nothing differs. -/
  nothing : ∀ trials, relates (pure ⟨[], trials⟩) (pure ⟨[], trials⟩)
  /-- Searches one after the other are related if each of them is. -/
  both : ∀ first other second counterpart, relates first other →
    (∀ trials, relates (second trials) (counterpart trials)) →
    relates (both first second) (both other counterpart)
  /-- A search may go to the depth of a moment that it can come to. -/
  descend : ∀ filled moment first other, attempt.Path start filled moment → moment.route ≠ [] →
    relates first other →
    relates (descend moment.depth >>= fun _ => first) (descend moment.depth >>= fun _ => other)

variable {extractor : Extractor} {sentence : Sentence} {leaves : List Phrase} {number : Nat}
  {pattern : Pattern}

/-- A filling takes a run of at least one token, and no more than one token in a slot for words. -/
theorem Filling.taken {phrase grown : Phrase} {status counted : MatchStatus}
    (isLeaf : ∀ leaf ∈ leaves, extractor.IsLeaf sentence leaf)
    (faithful : phrase.Faithful extractor sentence)
    (filling : (extractor.attempt sentence leaves number pattern).Filling stop phrase status grown
      counted) :
    ∃ run : Span, run.first ≤ run.last ∧ (stop.Repeats → run.first = run.last) ∧
      Taken extractor sentence leaves stop run (phrase, status) (grown, counted) := by
  cases filling with
  | word isWord next fits =>
    rename_i slot token position outward
    rcases Extractor.outward_cases extractor stop.side faithful.ordered faithful.inside with
      ⟨other, place, stands, admits, adjoins, outwards, _⟩ | ⟨none, _⟩
    · -- The token next to the phrase is the one that is admitted there.
      cases next.symm.trans outwards
      exact ⟨⟨position, position⟩, Nat.le_refl _, fun _ => rfl,
        taken_takeWord isWord faithful stands admits fits adjoins⟩
    · cases next.symm.trans none
  | model isModel known adjacent other named taken =>
    rename_i slot referenced leaf which
    obtain ⟨listed, beside⟩ := LeafIndex.mem_adjacent_ofList.mp adjacent
    have member := List.mem_of_getElem? listed
    -- A neighbour that does not meet the slot would not have been taken.
    have takes : slot.Takes leaf := by
      by_contra misfit
      rw [takeLeaf?_eq_none named misfit] at taken
      cases taken
    obtain ⟨after, same, run⟩ :
        ∃ after, (extractor.attempt sentence leaves number pattern).takeLeaf? stop slot referenced
            leaf phrase status = some after ∧
          Taken extractor sentence leaves stop leaf.span (phrase, status) after :=
      exists_takeLeaf? rfl isModel known member (isLeaf leaf member) faithful beside takes
    cases same.symm.trans taken
    refine ⟨leaf.span, (isLeaf leaf member).faithful.ordered, fun repeats => ?_, run⟩
    -- Only a slot for words may be filled again.
    obtain ⟨_, word, isWord, _⟩ := repeats
    cases isModel.symm.trans isWord

/-- A step fills the slot of the first stop that is left, and leaves that stop behind or not. -/
theorem Step.taken {moment next : Moment} {index : Nat}
    (isLeaf : ∀ leaf ∈ leaves, extractor.IsLeaf sentence leaf)
    (faithful : moment.phrase.Faithful extractor sentence)
    (step : (extractor.attempt sentence leaves number pattern).Step moment index next) :
    ∃ stop route, ∃ run : Span, moment.route = stop :: route ∧ index = stop.index ∧
      next.depth = moment.depth + 1 ∧ run.first ≤ run.last ∧
      Taken extractor sentence leaves stop run (moment.phrase, moment.status)
        (next.phrase, next.status) ∧
      (next.route = route ∨
        next.route = stop :: route ∧ stop.Repeats ∧ run.first = run.last) := by
  cases step with
  | onward filling =>
    obtain ⟨run, ordered, _, taken⟩ := filling.taken isLeaf faithful
    exact ⟨_, _, run, rfl, rfl, rfl, ordered, taken, .inl rfl⟩
  | again repeats filling =>
    obtain ⟨run, ordered, single, taken⟩ := filling.taken isLeaf faithful
    exact ⟨_, _, run, rfl, rfl, rfl, ordered, taken, .inr ⟨rfl, repeats, single repeats⟩⟩

section Reached

variable {start moment : Moment} {base : Span} {filled : List Nat}
  {relates : Search Findings → Search Findings → Prop} {goOn other : Continue}
  {phrase : Phrase} {status : MatchStatus} {depth : Nat} {trials : Trials}

/-- Filling a slot with neighbours relates two searches if going on does. -/
theorem fillModel_closed {slot : ModelSlot} {referenced : Pattern}
    {candidates : List (Phrase × Nat)} (closed : attempt.Closed start relates)
    (isModel : stop.component = .model slot)
    (known : attempt.registry.byName? slot.pattern = some referenced)
    (each : ∀ filled grown counted deeper tried,
      attempt.Path start filled ⟨route, grown, counted, deeper⟩ →
      relates (goOn grown counted deeper tried) (other grown counted deeper tried))
    (path : attempt.Path start filled ⟨stop :: route, phrase, status, depth⟩)
    (listed : ∀ next ∈ candidates, next ∈ attempt.leaves.adjacent stop.side phrase.span) :
    relates (attempt.fillModel stop slot referenced goOn phrase status depth candidates trials)
      (attempt.fillModel stop slot referenced other phrase status depth candidates trials) := by
  -- A neighbour is passed over in both searches or in none of them.
  induction candidates generalizing trials with
  | nil => exact closed.nothing trials
  | cons first candidates rest =>
    obtain ⟨leaf, which⟩ := first
    obtain ⟨adjacent, later⟩ := List.forall_mem_cons.mp listed
    rw [fillModel_cons, fillModel_cons]
    dsimp only
    split
    · exact rest later
    · -- A trial that is made is one of a neighbour other than the base, and of the right pattern.
      rename_i fresh
      simp only [Bool.or_eq_true, decide_eq_true_eq, not_or, Decidable.not_not] at fresh
      obtain ⟨⟨apart, named⟩, _⟩ := fresh
      split
      · exact rest later
      · rename_i grown counted taken
        have filling : attempt.Filling stop phrase status grown counted :=
          .model isModel known adjacent apart named taken
        exact closed.both _ _ _ _ (each _ _ _ _ _ (path.step (.onward filling)))
          fun tried => rest later

variable (isLeaf : ∀ leaf ∈ leaves, extractor.IsLeaf sentence leaf)
  (begun : Underway extractor sentence pattern base start.route start.phrase start.status)
include isLeaf begun

/-- Along a path the phrase stays faithful, and all that is missing of it is still to come. -/
theorem Path.underway
    (path : (extractor.attempt sentence leaves number pattern).Path start filled moment) :
    Underway extractor sentence pattern base moment.route moment.phrase moment.status := by
  induction path with
  | start => exact begun
  | step _ step before =>
    -- What held before the step makes of it the taking of a run.
    obtain ⟨stop, route, run, left, _, _, ordered, taken, next⟩ := step.taken isLeaf before.faithful
    rw [left] at before
    have after := before.step taken ordered
    rcases next with onward | ⟨again, _⟩
    · rwa [onward]
    · -- The slot may be filled again, so it is still among those to come.
      rw [again]
      exact after.again stop

/-- Filling a slot with words relates two searches if going on does from wherever a path leads. -/
theorem fillWord_closed {slot : WordSlot} {outward : List (Token × Nat)}
    (closed : (extractor.attempt sentence leaves number pattern).Closed start relates)
    (isWord : stop.component = .word slot)
    (each : ∀ filled grown counted deeper tried,
      (extractor.attempt sentence leaves number pattern).Path start filled
        ⟨route, grown, counted, deeper⟩ →
      relates (goOn grown counted deeper tried) (other grown counted deeper tried))
    (path : (extractor.attempt sentence leaves number pattern).Path start filled
      ⟨stop :: route, phrase, status, depth⟩)
    (same : (extractor.surroundings sentence).outward stop.side phrase.span = outward) :
    relates (fillWord stop slot goOn outward phrase status depth trials)
      (fillWord stop slot other outward phrase status depth trials) := by
  -- The induction is on the tokens outwards, since a slot may be filled again by the next one.
  induction outward generalizing filled phrase status depth trials with
  | nil => exact closed.nothing trials
  | cons first outward rest =>
    obtain ⟨token, position⟩ := first
    by_cases fits : slot.matchesToken token
    · rw [fillWord_cons fits, fillWord_cons fits]
      have filling : (extractor.attempt sentence leaves number pattern).Filling stop phrase status
          _ _ := .word isWord same fits
      have here := each _ _ _ _ trials (path.step (.onward filling))
      dsimp only
      split
      · rename_i repeats
        rw [Bool.and_eq_true] at repeats
        have again := path.step (.again ⟨repeats.1, slot, isWord, repeats.2⟩ filling)
        refine closed.both _ _ _ _ here fun tried => ?_
        refine closed.descend _ _ _ _ again (List.cons_ne_nil _ _) (rest again ?_)
        -- The token that is tried next is the one behind the token that has been taken.
        have faithful := (path.underway isLeaf begun).faithful
        rcases Extractor.outward_cases extractor stop.side faithful.ordered faithful.inside with
          ⟨_, _, _, _, _, outwards, _⟩ | ⟨none, _⟩
        · cases outwards.symm.trans same
          rw [span_takeWord]
        · cases none.symm.trans same
      · exact here
    · simp only [fillWord, if_neg fits]
      exact closed.nothing trials

variable (goOn other) in
/-- Filling a slot relates two searches if going on does from wherever a path leads. -/
theorem fill_closed
    (closed : (extractor.attempt sentence leaves number pattern).Closed start relates)
    (each : ∀ filled grown counted deeper tried,
      (extractor.attempt sentence leaves number pattern).Path start filled
        ⟨route, grown, counted, deeper⟩ →
      relates (goOn grown counted deeper tried) (other grown counted deeper tried))
    (path : (extractor.attempt sentence leaves number pattern).Path start filled
      ⟨stop :: route, phrase, status, depth⟩) :
    relates ((extractor.attempt sentence leaves number pattern).fill stop goOn phrase status depth
        trials)
      ((extractor.attempt sentence leaves number pattern).fill stop other phrase status depth
        trials) := by
  refine closed.descend _ _ _ _ path (List.cons_ne_nil _ _) ?_
  split
  · rename_i slot isWord
    exact fillWord_closed isLeaf begun closed isWord each path rfl
  · rename_i slot isModel
    split
    · -- Without a pattern of that name the search ends here.
      exact closed.nothing trials
    · rename_i referenced known
      exact fillModel_closed closed isModel known each path fun _ member => member

/-- A search along a route has what its parts have, if it has it where a path comes to an end. -/
theorem walk_closed (holds : Search Findings → Prop)
    (closed : (extractor.attempt sentence leaves number pattern).Closed start
      fun search _ => holds search)
    (ends : ∀ filled phrase status depth trials,
      (extractor.attempt sentence leaves number pattern).Path start filled
        ⟨[], phrase, status, depth⟩ →
      holds ((extractor.attempt sentence leaves number pattern).walk [] phrase status depth trials))
    (path : (extractor.attempt sentence leaves number pattern).Path start filled
      ⟨route, phrase, status, depth⟩) :
    holds ((extractor.attempt sentence leaves number pattern).walk route phrase status depth
      trials) := by
  -- The induction is on the route, so that whatever follows a slot has the property already.
  induction route generalizing filled phrase status depth trials with
  | nil => exact ends _ _ _ _ trials path
  | cons stop route rest =>
    rw [walk_cons]
    -- Nothing is asked of the search on the other side, so that any one will do.
    exact fill_closed _ (fun _ _ _ trials => pure ⟨[], trials⟩) isLeaf begun closed
      (fun _ _ _ _ _ path => rest path) path

end Reached

end Attempt

end PhraseGrammar
