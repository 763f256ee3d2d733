import PhraseGrammar.Proofs.Budget
import PhraseGrammar.Proofs.HeadSource
import PhraseGrammar.Proofs.WalkEntries

/-! The status of a phrase tells which slots are filled, so that a phrase with all of them is kept. -/

namespace PhraseGrammar

open Search

/-- What a status has come to once some slots of a pattern are filled, if nothing gets lost. -/
structure MatchStatus.Reflects (status : MatchStatus) (pattern : Pattern) (bound : List Nat) :
    Prop where
  /-- What is asked of the words is met. -/
  lexicon : status.lexiconSatisfied = true
  /-- At least as many things are taken as there are slots that are filled. -/
  consumed : bound.toFinset.card ≤ status.consumed
  /-- The head is looked at exactly if there is no slot for it, or such a slot is filled. -/
  checked : status.headChecked = true ↔ pattern.headIndex? = none ∨
    ∃ index ∈ bound, ∃ component, pattern.component? index = some component ∧ component.isHead
  /-- The head matches as soon as it is looked at. -/
  matched : status.headMatched = status.headChecked

variable {extractor : Extractor} {sentence : Sentence} {leaves : List Phrase} {pattern : Pattern}
  {base : Phrase} {number anchor : Nat} {start moment : Moment} {filled : List Nat}

/-- The status that a base starts with reflects that its slot is filled. -/
theorem Extractor.reflects_baseStatus? {slot : ModelSlot} {status : MatchStatus}
    (stands : pattern.component? anchor = some (.model slot))
    (passes : baseStatus? pattern slot base = some status) :
    status.Reflects pattern [anchor] := by
  have only : (∃ index ∈ [anchor], ∃ component, pattern.component? index = some component ∧
      component.isHead) ↔ slot.condition.isHead := by
    simp [stands, Component.isHead, Component.condition]
  unfold baseStatus? at passes
  dsimp only at passes
  split at passes
  · cases passes
  · rename_i reading accepted
    split at passes
    · -- Only here is there a status: a reading has been found, and no more is demanded.
      rename_i none
      cases passes
      refine ⟨Additional.matchesReading_of_isEmpty none reading, by simp, ?_, ?_⟩
      · -- The head is looked at if there is none, or if the base fills a slot for it.
        rw [only]
        cases slot.condition.isHead <;> cases pattern.headIndex? <;>
          simp [MatchStatus.start, MatchStatus.headless, MatchStatus.recordHead]
      · cases slot.condition.isHead <;> cases pattern.headIndex? <;>
          simp [MatchStatus.start, MatchStatus.headless, MatchStatus.recordHead]
    · cases passes

/-- Filling one more slot is reflected in the status, be it the first slot for the head or not. -/
theorem MatchStatus.Reflects.step {stop : Stop} {run : Span} {phrase grown : Phrase}
    {status counted : MatchStatus} {bound : List Nat} (before : status.Reflects pattern bound)
    (stands : pattern.component? stop.index = some stop.component)
    (taken : Taken extractor sentence leaves stop run (phrase, status) (grown, counted)) :
    counted.Reflects pattern (stop.index :: bound) := by
  have more := taken.consumed
  have within := before.consumed
  -- The slot may have been filled before, and counts once then.
  have distinct : (stop.index :: bound).toFinset.card ≤ bound.toFinset.card + 1 := by
    rw [List.toFinset_cons]
    exact Finset.card_insert_le ..
  have either : (∃ index ∈ stop.index :: bound, ∃ component,
        pattern.component? index = some component ∧ component.isHead) ↔
      stop.component.isHead ∨ ∃ index ∈ bound, ∃ component,
        pattern.component? index = some component ∧ component.isHead := by
    simp [stands]
  refine ⟨taken.lexicon before.lexicon, by dsimp only at more; omega, ?_, ?_⟩
  · rw [either, or_left_comm, ← before.checked]
    by_cases first : stop.component.isHead ∧ status.headChecked = false
    · -- The first slot for the head is looked at as it is filled.
      exact iff_of_true (taken.headed first.1 first.2).1 (.inl first.1)
    · -- A further slot for the head changes nothing, as the head has been looked at by then.
      rw [show counted.headChecked = status.headChecked from (taken.unheaded first).2.1]
      cases looked : status.headChecked with
      | true => simp
      | false => simpa [looked] using first
  · by_cases first : stop.component.isHead ∧ status.headChecked = false
    · obtain ⟨looked, matched, _⟩ := taken.headed first.1 first.2
      exact matched.trans looked.symm
    · obtain ⟨_, sameChecked, sameMatched⟩ := taken.unheaded first
      exact sameMatched.trans (before.matched.trans sameChecked.symm)

namespace Attempt

/-- Whether a search finds no phrases but those at which some path comes to its end. -/
def FindsEnds (attempt : Attempt) (start : Moment) (search : Search Findings) : Prop :=
  ∀ findings, search.Yields findings → ∀ phrase ∈ findings.found,
    ∃ filled moment, attempt.Path start filled moment ∧ moment.route = [] ∧ moment.phrase = phrase

/-- Searches find no phrases but those at which a path ends if their parts find no others. -/
theorem closed_findsEnds (attempt : Attempt) (start : Moment) :
    attempt.Closed start fun search _ => attempt.FindsEnds start search where
  nothing _ findings ended phrase member := by
    rw [ended.of_pure] at member
    cases member
  both first _ second _ here later findings ended phrase member := by
    -- What is found is found by the one search or by the other.
    obtain ⟨between, firstEnded, ended⟩ := ended.of_bind
    obtain ⟨further, secondEnded, ended⟩ := ended.of_bind
    rw [ended.of_pure] at member
    rcases List.mem_append.mp member with found | found
    · exact here between firstEnded phrase found
    · exact later _ further secondEnded phrase found
  descend _ _ _ _ _ _ here findings ended := by
    obtain ⟨_, _, ended⟩ := ended.of_bind
    exact here findings ended

variable {span : Span} (isLeaf : ∀ leaf ∈ leaves, extractor.IsLeaf sentence leaf)
  (begun : Underway extractor sentence pattern span start.route start.phrase start.status)
include isLeaf begun

/-- Along a path no stop comes up that was not there at the start. -/
theorem Path.route_subset
    (path : (extractor.attempt sentence leaves number pattern).Path start filled moment) :
    moment.route ⊆ start.route := by
  induction path with
  | start => exact List.Subset.refl _
  | step path step before =>
    have faithful := (path.underway isLeaf begun).faithful
    obtain ⟨stop, route, _, left, _, _, _, _, next⟩ := step.taken isLeaf faithful
    rw [left] at before
    rcases next with onward | ⟨again, _⟩
    · rw [onward]
      exact List.subset_of_cons_subset before
    · rwa [again]

/-- Along a path the status reflects which slots are filled. -/
theorem Path.reflects {bound : List Nat}
    (numbered : start.route ⊆ pattern.route anchor) (reflects : start.status.Reflects pattern bound)
    (path : (extractor.attempt sentence leaves number pattern).Path start filled moment) :
    moment.status.Reflects pattern (filled ++ bound) := by
  induction path with
  | start => exact reflects
  | step path step before =>
    have faithful := (path.underway isLeaf begun).faithful
    obtain ⟨stop, route, _, left, rfl, _, _, taken, _⟩ := step.taken isLeaf faithful
    -- The stop has been on the route from the start, and so it is a slot of the pattern.
    have member : stop ∈ pattern.route anchor := by
      refine numbered (path.route_subset isLeaf begun ?_)
      rw [left]
      exact List.mem_cons_self
    exact before.step (Pattern.component?_of_mem_route member) taken

/-- What can be taken along the rest of a route from where a path leads can be taken from its start. -/
theorem Path.along {runs : List Span} {final : Phrase × MatchStatus}
    (path : (extractor.attempt sentence leaves number pattern).Path start filled moment)
    (rest : Along (Taken extractor sentence leaves) moment.route runs
      (moment.phrase, moment.status) final) :
    ∃ runs, Along (Taken extractor sentence leaves) start.route runs
      (start.phrase, start.status) final := by
  -- The last step of the path comes before what is taken along the rest.
  induction path generalizing runs with
  | start => exact ⟨runs, rest⟩
  | step path step before =>
    have faithful := (path.underway isLeaf begun).faithful
    obtain ⟨stop, route, run, left, _, _, _, taken, next⟩ := step.taken isLeaf faithful
    rw [left] at before
    rcases next with onward | ⟨again, ⟨outermost, slot, isWord, repeated⟩, single⟩
    · -- The run fills the slot, and the rest is taken behind it.
      rw [onward] at rest
      have along : Along (Taken extractor sentence leaves) (stop :: route) (run :: runs) _ final :=
        ⟨_, taken, rest⟩
      exact before along
    · rw [again] at rest
      cases runs with
      | nil => exact absurd rest id
      | cons further runs =>
        -- The token and the further tokens make one run together.
        obtain ⟨first, last⟩ := run
        obtain rfl : first = last := single
        obtain ⟨middle, more, rest⟩ := rest
        have along : Along (Taken extractor sentence leaves) (stop :: route) (_ :: runs) _ final :=
          ⟨middle, taken.trans isWord ⟨outermost, repeated⟩ more, rest⟩
        exact before along

/-- Whatever a search along a route finds is a phrase at which some path comes to its end. -/
theorem walk_findsEnds {trials : Trials} :
    (extractor.attempt sentence leaves number pattern).FindsEnds start
      (start.resume (extractor.attempt sentence leaves number pattern).walk trials) := by
  refine walk_closed isLeaf begun _ (closed_findsEnds _ start) ?_ .start
  -- Where no stop is left the phrase is found as it is.
  intro filled phrase status depth trials path findings ended found member
  rw [walk] at ended
  rw [ended.of_pure] at member
  split at member
  · cases List.mem_singleton.mp member
    exact ⟨filled, _, path, rfl, rfl⟩
  · cases member

end Attempt

namespace Extractor

/-- A base grows into a phrase of a pattern exactly if some path comes to its end. -/
theorem compositeCandidates_ne_nil_iff {found : List Phrase}
    (isLeaf : ∀ leaf ∈ leaves, extractor.IsLeaf sentence leaf) (isBase : leaves[number]? = some base)
    (sets : outset? pattern base = some start)
    (ended : (compositeCandidates extractor.registry (extractor.surroundings sentence)
      (.ofList leaves) base number pattern).Yields found) :
    found ≠ [] ↔ ∃ filled moment,
      (extractor.attempt sentence leaves number pattern).Path start filled moment ∧
        moment.route = [] := by
  have faithful := (isLeaf base (List.mem_of_getElem? isBase)).faithful
  have underway := underway_outset faithful sets
  rw [compositeCandidates_eq, sets] at ended
  obtain ⟨_, _, ended⟩ := ended.of_bind
  obtain ⟨findings, walked, ended⟩ := ended.of_bind
  rw [ended.of_pure]
  constructor
  · -- Whatever is found comes from the end of a path.
    intro some
    obtain ⟨phrase, member⟩ := List.exists_mem_of_ne_nil _ some
    obtain ⟨filled, moment, path, complete, _⟩ :=
      Attempt.walk_findsEnds isLeaf underway findings walked phrase member
    exact ⟨filled, moment, path, complete⟩
  · rintro ⟨filled, moment, path, complete⟩
    -- What the path has taken is a way to fill the route, and the search covers them all.
    have nothing : Along (Taken extractor sentence leaves) moment.route []
        (moment.phrase, moment.status) (moment.phrase, moment.status) := by
      rw [complete]
      rfl
    obtain ⟨runs, along⟩ := path.along isLeaf underway nothing
    have grown := (along_taken underway.faithful along).1
    obtain ⟨anchor, slot, status, _, _, _, rfl⟩ := outset?_eq_some_iff.mp sets
    obtain ⟨_, covers⟩ := walk_explores isLeaf isBase (pattern.pairwise_route anchor) _ _ _ _ []
      _ underway (settled_empty _) walked
    obtain ⟨phrase, member, _⟩ := covers runs _ grown
    exact List.ne_nil_of_mem member

end Extractor

/-- Along every path the status reflects what is filled, so that all that is complete is found. -/
theorem walk_status {patterns : List Pattern} {limit : Nat} {extractor : Extractor}
    (built : Registry.build patterns limit = .ok extractor.registry) {sentence : Sentence}
    {leaves : List Phrase} (found : (extractor.leafPass sentence).Yields leaves) {number : Nat}
    {base : Phrase} {pattern : Pattern} {anchor : Nat} {start : Moment}
    (isBase : leaves[number]? = some base)
    (index : pattern.modelSlotIndex? base.pattern = some anchor)
    (sets : Extractor.outset? pattern base = some start) :
    (∀ filled moment, (extractor.attempt sentence leaves number pattern).Path start filled moment →
      moment.status.Reflects pattern (filled ++ [anchor]) ∧
        (moment.route = [] → moment.status.isComplete pattern.length)) ∧
    (∀ abort trials,
      start.resume ((extractor.attempt sentence leaves number pattern).checkedWalk
          (fun moment => moment.route = [] → moment.status.isComplete pattern.length) abort) trials =
        start.resume (extractor.attempt sentence leaves number pattern).walk trials) ∧
    ∃ candidates, (∀ other, (Extractor.compositeCandidates extractor.registry
        (extractor.surroundings sentence) (.ofList leaves) base number pattern).Yields other ↔
          other = candidates) ∧
      (candidates ≠ [] ↔ ∃ filled moment,
        (extractor.attempt sentence leaves number pattern).Path start filled moment ∧
          moment.route = []) := by
  have isLeaf := Extractor.isLeaf_of_leafPass (Registry.sound_of_build built) found
  have faithful := (isLeaf base (List.mem_of_getElem? isBase)).faithful
  have underway := Extractor.underway_outset faithful sets
  -- With no stop left nothing is awaited any more.
  have complete : ∀ filled moment,
      (extractor.attempt sentence leaves number pattern).Path start filled moment →
      moment.route = [] → moment.status.isComplete pattern.length := by
    intro filled moment path ended
    have awaits := (path.underway isLeaf underway).awaits
    rw [ended] at awaits
    exact awaits.isComplete
  refine ⟨fun filled moment path => ⟨?_, complete filled moment path⟩, fun abort trials => ?_, ?_⟩
  · obtain ⟨_, slot, status, same, stands, passes, rfl⟩ := Extractor.outset?_eq_some_iff.mp sets
    cases index.symm.trans same
    exact path.reflects isLeaf underway (List.Subset.refl _)
      (Extractor.reflects_baseStatus? stands passes)
  · exact Attempt.checkedWalk_eq abort isLeaf underway
      (fun filled moment path => decide_eq_true (complete filled moment path)) .start
  · obtain ⟨candidates, unique⟩ := (extractor.compositeCandidates_priced_any sentence leaves base
      number pattern).exists_yields_iff
    exact ⟨candidates, unique,
      Extractor.compositeCandidates_ne_nil_iff isLeaf isBase sets ((unique _).mpr rfl)⟩

/-- At the end of the path that takes black and big into one slot the status is complete, and something
is found. -/
theorem walk_status_bigBlackCat : ∃ registry leaves base pattern start moment candidates,
    Registry.build nounQualities = .ok registry ∧
      (Extractor.leafPass ⟨registry, {}, .empty⟩ bigBlackCat).Yields leaves ∧
      leaves[0]? = some base ∧ pattern.modelSlotIndex? base.pattern = some 1 ∧
      Extractor.outset? pattern base = some start ∧
      (Extractor.attempt ⟨registry, {}, .empty⟩ bigBlackCat leaves 0 pattern).Path start [0, 0]
        moment ∧
      moment.route = [] ∧ moment.status.Reflects pattern [0, 0, 1] ∧
      moment.status.isComplete pattern.length ∧
      (Extractor.compositeCandidates registry
        (Extractor.surroundings ⟨registry, {}, .empty⟩ bigBlackCat) (.ofList leaves) base 0
        pattern).Yields candidates ∧
      candidates.map Phrase.text = ["black cat", "big black cat"] ∧ candidates ≠ [] := by
  -- The slot is filled with the nearest word, and then again with the one before it.
  obtain ⟨leaves, base, pattern, start, moment, candidates, between, after, found, isBase, listed,
      index, sets, path, ends, ended, texts⟩ :
      ∃ leaves base pattern start moment candidates between after,
        Extractor.leafPass ⟨.assemble nounQualities [0, 1], {}, .empty⟩ bigBlackCat
          (.ofOptions {}) = .ok leaves between ∧ leaves[0]? = some base ∧
        nounQualities[1]? = some pattern ∧ pattern.modelSlotIndex? base.pattern = some 1 ∧
        Extractor.outset? pattern base = some start ∧
        (Extractor.attempt ⟨.assemble nounQualities [0, 1], {}, .empty⟩ bigBlackCat leaves 0
          pattern).Path start [0, 0] moment ∧ moment.route = [] ∧
        Extractor.compositeCandidates (.assemble nounQualities [0, 1])
          (Extractor.surroundings ⟨.assemble nounQualities [0, 1], {}, .empty⟩ bigBlackCat)
          (.ofList leaves) base 0 pattern (.ofOptions {}) = .ok candidates after ∧
        candidates.map Phrase.text = ["black cat", "big black cat"] :=
    ⟨_, _, _, _, _, _, _, _, rfl, rfl, rfl, rfl, rfl,
      .step (.step .start (.again ⟨rfl, _, rfl, rfl⟩ (.word rfl rfl rfl)))
        (.onward (.word rfl rfl rfl)), rfl, rfl, rfl⟩
  have yields : (Extractor.leafPass ⟨.assemble nounQualities [0, 1], {}, .empty⟩
    bigBlackCat).Yields leaves := ⟨_, between, found⟩
  obtain ⟨reflects, _, all, unique, some⟩ := @walk_status _ _
    ⟨.assemble nounQualities [0, 1], {}, .empty⟩ build_nounQualities bigBlackCat leaves yields 0
    base pattern 1 start isBase index sets
  obtain rfl : candidates = all := (unique candidates).mp ⟨_, after, ended⟩
  obtain ⟨reflected, complete⟩ := reflects [0, 0] moment path
  exact ⟨_, leaves, base, pattern, start, moment, candidates, build_nounQualities, yields, isBase,
    index, sets, path, ends, reflected, complete ends, ⟨_, after, ended⟩, texts,
    some.mpr ⟨[0, 0], moment, path, ends⟩⟩

end PhraseGrammar
