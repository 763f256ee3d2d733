import PhraseGrammar.Proofs.Budget
import PhraseGrammar.Proofs.HeadSource
import PhraseGrammar.Proofs.WalkEntries

/-! A search goes no deeper than there are tokens, since it takes one for each depth it goes down. -/

namespace PhraseGrammar

namespace Search

variable {α β : Type} {depth : Nat}

/-- Whether a search comes to an end, and goes no deeper than some depth until then. -/
def EndsWithin (search : Search α) (depth : Nat) : Prop :=
  ∃ result steps deepest, Costs search result steps deepest ∧ deepest ≤ depth

namespace EndsWithin

/-- A result that is there already needs no depth. -/
theorem ofPure (result : α) : (pure result : Search α).EndsWithin depth :=
  ⟨result, 0, 0, costs_pure result, Nat.zero_le depth⟩

/-- A step needs no depth. -/
theorem ofStep : step.EndsWithin depth :=
  ⟨(), 1, 0, costs_step, Nat.zero_le depth⟩

/-- Going to a depth needs that depth. -/
theorem ofEnter {deeper : Nat} (near : deeper ≤ depth) : (enter deeper).EndsWithin depth :=
  ⟨(), 0, deeper, costs_enter deeper, near⟩

/-- A search that keeps to a depth keeps to every greater one. -/
theorem mono {search : Search α} {deeper : Nat} (ends : search.EndsWithin depth)
    (near : depth ≤ deeper) : search.EndsWithin deeper := by
  obtain ⟨result, steps, deepest, costs, within⟩ := ends
  exact ⟨result, steps, deepest, costs, Nat.le_trans within near⟩

/-- Two searches one after the other need the depth that both of them keep to. -/
theorem bind {first : Search α} {second : α → Search β} (before : first.EndsWithin depth)
    (after : ∀ between, Yields first between → (second between).EndsWithin depth) :
    (first >>= second).EndsWithin depth := by
  obtain ⟨between, steps, deepest, costs, near⟩ := before
  obtain ⟨result, more, deeper, further, also⟩ := after between (costs.yields_iff.mpr rfl)
  exact ⟨result, steps + more, max deepest deeper, costs.bind further, Nat.max_le.mpr ⟨near, also⟩⟩

/-- A search for every item keeps to a depth if the search for each of them does. -/
theorem gather {search : α → Search (List β)} {items : List α}
    (each : ∀ item ∈ items, (search item).EndsWithin depth) :
    (Search.gather search items).EndsWithin depth := by
  -- The items are searched one after the other, each within the depth.
  induction items with
  | nil =>
    rw [gather_nil]
    exact ofPure []
  | cons item items rest =>
    obtain ⟨here, later⟩ := List.forall_mem_cons.mp each
    rw [gather_cons]
    exact here.bind fun _ _ => (rest later).bind fun _ _ => ofPure _

/-- A search for the first item with results keeps to a depth if that for each of them does. -/
theorem firstFound {search : α → Search (List β)} {items : List α}
    (each : ∀ item ∈ items, (search item).EndsWithin depth) :
    (Search.firstFound search items).EndsWithin depth := by
  induction items with
  | nil => exact ofPure []
  | cons item items rest =>
    obtain ⟨here, later⟩ := List.forall_mem_cons.mp each
    rw [Search.firstFound]
    refine here.bind fun found _ => ?_
    -- The items behind the first one with results are not searched.
    split
    · exact rest later
    · exact ofPure found

/-- A search that may go to a depth and goes no deeper is not cut off for its depth. -/
theorem not_depthExceeded {search : Search α} {budget after : Budget} {limit : Nat}
    (ends : search.EndsWithin depth) (enough : depth ≤ budget.maxDepth) :
    search budget ≠ .error (.depthExceeded limit) after := by
  obtain ⟨result, steps, deepest, costs, near⟩ := ends
  intro cut
  -- The abort names its cause: a depth that the search does not go to.
  have deep : budget.maxDepth < deepest := (costs.of_error cut).2.2
  omega

end EndsWithin

end Search

open Search

namespace Phrase

variable {extractor : Extractor} {sentence : Sentence} {phrase : Phrase}

/-- A faithful phrase has as many tokens as its span has positions. -/
theorem Faithful.length_eq (faithful : phrase.Faithful extractor sentence) :
    phrase.length = phrase.span.length := by
  rw [length, ← TokenRow.length_toList, ← tokens, faithful.tokens_eq,
    Sentence.length_slice faithful.ordered faithful.inside]

/-- A faithful phrase has at least one token, and no more than its sentence. -/
theorem Faithful.length_bounds (faithful : phrase.Faithful extractor sentence) :
    0 < phrase.length ∧ phrase.length ≤ sentence.length := by
  have ordered := faithful.ordered
  have inside := faithful.inside
  rw [faithful.length_eq, Span.length]
  omega

/-- Filling the last slot with words needs no depth. -/
theorem growLast_endsWithin (side : Side) (slot : WordSlot) (phrase : Phrase)
    (outward : List (Token × Nat)) : (growLast side slot phrase outward).EndsWithin 0 := by
  -- The induction is on the tokens, since a slot that repeats goes on with those that are left.
  induction outward generalizing phrase with
  | nil =>
    rw [growLast]
    exact EndsWithin.ofStep.bind fun _ _ => .ofPure []
  | cons next outward rest =>
    rw [growLast]
    refine EndsWithin.ofStep.bind fun _ _ => ?_
    split
    · -- The token is taken, and that is all unless the slot repeats.
      split
      · exact (rest _).bind fun _ _ => .ofPure _
      · exact .ofPure _
    · exact .ofPure []

/-- Filling slots with words needs no depth. -/
theorem grow_endsWithin (side : Side) (slots : List WordSlot) (phrase : Phrase)
    (outward : List (Token × Nat)) : (grow side phrase slots outward).EndsWithin 0 := by
  fun_induction grow side phrase slots outward with
  | case1 => exact .ofPure []
  | case2 phrase slot outward => exact growLast_endsWithin side slot phrase outward
  | case3 phrase slot next slots outward rest =>
    -- A slot with others behind it takes one token, if there is one that meets it.
    refine EndsWithin.ofStep.bind fun _ _ => ?_
    split
    · exact .ofPure []
    · split
      · exact rest _ _ _
      · exact .ofPure []

end Phrase

/-- The phrases that have their head at a token are found without any depth. -/
theorem Surroundings.leafCandidates_endsWithin (around : Surroundings) (token : Token)
    (position : Nat) (pattern : Pattern) :
    (around.leafCandidates token position pattern).EndsWithin 0 := by
  unfold leafCandidates
  split
  · split
    · refine EndsWithin.ofStep.bind fun _ _ => ?_
      unfold growBoth
      split
      · exact .ofPure _
      · -- Both sides are filled with words only, the right one from the end of the left one.
        refine (Phrase.grow_endsWithin ..).bind fun _ _ => ?_
        exact (Phrase.grow_endsWithin ..).bind fun _ _ => .ofPure _
    · exact .ofPure []
  · exact .ofPure []

/-- The pass for phrases of words needs no depth. -/
theorem Extractor.leafPass_endsWithin (extractor : Extractor) (sentence : Sentence) :
    (extractor.leafPass sentence).EndsWithin 0 := by
  unfold leafPass
  refine EndsWithin.bind (.gather fun next _ => .gather fun pattern _ => ?_) fun _ _ => .ofPure _
  exact Surroundings.leafCandidates_endsWithin _ next.1 next.2 pattern

/-- Whether as many tokens have been taken since a base as the depth says. -/
abbrev Moment.PaidFor (base : Phrase) (sentence : Sentence) (moment : Moment) : Prop :=
  base.length + moment.depth ≤ moment.phrase.length + 1 ∧
    moment.depth ≤ sentence.length - base.length + 1

namespace Attempt

variable {extractor : Extractor} {sentence : Sentence} {leaves : List Phrase} {number : Nat}
  {pattern : Pattern} {start moment next : Moment} {base : Span} {filled : List Nat} {index : Nat}

/-- A step goes one deeper, and takes at least one token. -/
theorem Step.length_lt (isLeaf : ∀ leaf ∈ leaves, extractor.IsLeaf sentence leaf)
    (faithful : moment.phrase.Faithful extractor sentence)
    (step : (extractor.attempt sentence leaves number pattern).Step moment index next) :
    next.depth = moment.depth + 1 ∧ moment.phrase.length < next.phrase.length := by
  obtain ⟨stop, route, run, _, _, deeper, ordered, taken, _⟩ := step.taken isLeaf faithful
  refine ⟨deeper, ?_⟩
  have first := faithful.ordered
  have beside := taken.beside
  rw [faithful.length_eq, taken.faithful.length_eq, taken.span_eq]
  -- The run lies beside the phrase, so that all of its positions are new ones.
  cases side : stop.side <;>
    simp only [side, Span.Beside, Span.stretch, Span.reach, Span.length] at beside ⊢ <;> omega

/-- Searches keep to a depth if their parts do, and no path leads beyond it. -/
theorem closed_endsWithin {attempt : Attempt} {bound : Nat}
    (bounded : ∀ filled moment, attempt.Path start filled moment → moment.depth ≤ bound) :
    attempt.Closed start fun search _ => search.EndsWithin bound where
  nothing _ := .ofPure _
  both _ _ _ _ here later := here.bind fun _ _ => (later _).bind fun _ _ => .ofPure _
  descend filled moment _ _ path _ here := by
    -- The depth that is gone to is that of the moment.
    have descended : (descend moment.depth).EndsWithin bound :=
      EndsWithin.ofStep.bind fun _ _ => .ofEnter (bounded filled moment path)
    exact descended.bind fun _ _ => here

variable (isLeaf : ∀ leaf ∈ leaves, extractor.IsLeaf sentence leaf)
  (begun : Underway extractor sentence pattern base start.route start.phrase start.status)
include isLeaf begun

/-- Along a path at least one token is taken for each depth. -/
theorem Path.length_le
    (path : (extractor.attempt sentence leaves number pattern).Path start filled moment) :
    start.phrase.length + moment.depth ≤ moment.phrase.length + start.depth := by
  induction path with
  | start => exact Nat.le_refl _
  | step path step before =>
    -- The phrase gains at least as much as the depth does.
    obtain ⟨deeper, longer⟩ := step.length_lt isLeaf (path.underway isLeaf begun).faithful
    omega

/-- What bounds the depth along all paths bounds the number of steps that can follow a path. -/
theorem Path.acc {bound : Nat} (room : Nat)
    (bounded : ∀ filled moment,
      (extractor.attempt sentence leaves number pattern).Path start filled moment →
      moment.depth ≤ bound)
    (path : (extractor.attempt sentence leaves number pattern).Path start filled moment)
    (left : bound < moment.depth + room) :
    Acc (fun next moment => ∃ index,
      (extractor.attempt sentence leaves number pattern).Step moment index next) moment := by
  -- The induction is on the depths that are left, one of which each step uses up.
  induction room generalizing filled moment with
  | zero =>
    have near := bounded filled moment path
    omega
  | succ room rest =>
    refine .intro _ fun next stepped => ?_
    obtain ⟨index, step⟩ := stepped
    have deeper := (step.length_lt isLeaf (path.underway isLeaf begun).faithful).1
    exact rest (path.step step) (by omega)

/-- What bounds the depth along all paths bounds the depth that the search goes to. -/
theorem walk_endsWithin {bound : Nat} {trials : Trials}
    (bounded : ∀ filled moment,
      (extractor.attempt sentence leaves number pattern).Path start filled moment →
      moment.depth ≤ bound) :
    (start.resume (extractor.attempt sentence leaves number pattern).walk trials).EndsWithin
      bound :=
  -- Where a path comes to an end, nothing is searched any more.
  walk_closed isLeaf begun (fun search => search.EndsWithin bound) (closed_endsWithin bounded)
    (fun _ _ _ _ _ _ => .ofPure _) .start

end Attempt

namespace Extractor

variable {extractor : Extractor} {sentence : Sentence} {leaves : List Phrase} {number : Nat}
  {pattern : Pattern} {base : Phrase} {start : Moment}

/-- From where a search sets out, every depth is paid for by the tokens that have been taken. -/
theorem paidFor_of_path {filled : List Nat} {moment : Moment}
    (isLeaf : ∀ leaf ∈ leaves, extractor.IsLeaf sentence leaf) (isBase : base ∈ leaves)
    (sets : outset? pattern base = some start)
    (path : (extractor.attempt sentence leaves number pattern).Path start filled moment) :
    moment.PaidFor base sentence := by
  have underway := underway_outset (isLeaf base isBase).faithful sets
  have longer := path.length_le isLeaf underway
  have within := (path.underway isLeaf underway).faithful.length_bounds.2
  obtain ⟨anchor, slot, status, _, _, _, rfl⟩ := outset?_eq_some_iff.mp sets
  -- The search sets out at the first depth with the tokens of the base.
  have tokens : (seed pattern slot base).length = base.length := rfl
  dsimp only at longer
  rw [Moment.PaidFor]
  omega

/-- The pass for phrases of phrases goes no deeper than there are tokens. -/
theorem compositePass_endsWithin (isLeaf : ∀ leaf ∈ leaves, extractor.IsLeaf sentence leaf) :
    (extractor.compositePass sentence leaves).EndsWithin sentence.length := by
  unfold compositePass
  refine EndsWithin.bind (.gather fun next listed => .firstFound fun pattern _ => ?_)
    fun _ _ => .ofPure _
  have member := List.mem_of_getElem? (List.mem_zipIdx_iff_getElem?.mp listed)
  rw [compositeCandidates_eq]
  split
  · exact .ofPure []
  · rename_i start sets
    have faithful := (isLeaf next.1 member).faithful
    have walked : (start.resume (extractor.attempt sentence leaves next.2 pattern).walk
        ∅).EndsWithin sentence.length := by
      refine Attempt.walk_endsWithin isLeaf (underway_outset faithful sets)
        fun filled moment path => ?_
      -- The base has a token at least, which leaves one depth less than there are tokens.
      have paid := (paidFor_of_path isLeaf member sets path).2
      have bounds := faithful.length_bounds
      omega
    exact EndsWithin.ofStep.bind fun _ _ => walked.bind fun findings _ => .ofPure _

/-- Both passes together go no deeper than there are tokens. -/
theorem search_endsWithin (sound : extractor.registry.Sound) :
    (extractor.search sentence).EndsWithin sentence.length := by
  have leafPass := (extractor.leafPass_endsWithin sentence).mono (Nat.zero_le sentence.length)
  refine leafPass.bind fun simple found => ?_
  exact (compositePass_endsWithin (isLeaf_of_leafPass sound found)).bind fun _ _ => .ofPure _

end Extractor

/-- Every depth that a search goes down to is paid for with a token, so that the search ends. -/
theorem extract_depth {patterns : List Pattern} {limit : Nat} {extractor : Extractor}
    (built : Registry.build patterns limit = .ok extractor.registry) (sentence : Sentence) :
    (∀ budget bound after,
      extractor.leafPass sentence budget ≠ .error (.depthExceeded bound) after) ∧
    (∀ leaves, (extractor.leafPass sentence).Yields leaves →
      ∀ (number : Nat) base pattern start, leaves[number]? = some base →
        Extractor.outset? pattern base = some start →
        (∀ filled moment,
          (extractor.attempt sentence leaves number pattern).Path start filled moment →
          moment.PaidFor base sentence) ∧
        (∀ abort trials,
          start.resume ((extractor.attempt sentence leaves number pattern).checkedWalk
              (fun moment => moment.PaidFor base sentence) abort) trials =
            start.resume (extractor.attempt sentence leaves number pattern).walk trials) ∧
        Acc (fun next moment => ∃ index,
          (extractor.attempt sentence leaves number pattern).Step moment index next) start) ∧
    (sentence.length ≤ extractor.options.maxDepth →
      ∀ bound, extractor.extract sentence ≠ .error (.depthExceeded bound)) ∧
    ∃ extraction steps, ∀ budget : Budget, budget.steps + steps ≤ budget.maxSteps →
      sentence.length ≤ budget.maxDepth →
      extractor.search sentence budget = .ok extraction (budget.spend steps) := by
  have sound := Registry.sound_of_build built
  have ends : (extractor.search sentence).EndsWithin sentence.length :=
    Extractor.search_endsWithin sound
  refine ⟨fun budget bound after => ?_, fun leaves found number base pattern start isBase sets => ?_,
    fun enough bound cut => ?_, ?_⟩
  · exact (extractor.leafPass_endsWithin sentence).not_depthExceeded (Nat.zero_le _)
  · have isLeaf := Extractor.isLeaf_of_leafPass sound found
    have member := List.mem_of_getElem? isBase
    have underway := Extractor.underway_outset (isLeaf base member).faithful sets
    have paid : ∀ filled moment,
        (extractor.attempt sentence leaves number pattern).Path start filled moment →
        moment.PaidFor base sentence :=
      fun filled moment path => Extractor.paidFor_of_path isLeaf member sets path
    -- What is paid for along all paths may be checked at every entry, and bounds every path.
    refine ⟨paid, fun abort trials => ?_, ?_⟩
    · exact Attempt.checkedWalk_eq abort isLeaf underway
        (fun filled moment path => decide_eq_true (paid filled moment path)) .start
    · exact Attempt.Path.acc isLeaf underway (sentence.length + 2)
        (fun filled moment path => (paid filled moment path).2) .start (by omega)
  · obtain ⟨after, ran⟩ := Extractor.search_of_extract cut
    exact ends.not_depthExceeded enough ran
  · obtain ⟨extraction, steps, deepest, costs, near⟩ := ends
    refine ⟨extraction, steps, fun budget few deep => ?_⟩
    exact costs.ends budget ⟨.inr few, Nat.le_trans near deep⟩

/-- Big and black are paid for as they fill one slot, so that three words need no more than a depth of
three. -/
theorem extract_depth_bigBlackCat : ∃ registry leaves base pattern start moment,
    Registry.build nounQualities = .ok registry ∧
      (Extractor.leafPass ⟨registry, { maxDepth := 3 }, .empty⟩ bigBlackCat).Yields leaves ∧
      leaves[0]? = some base ∧ pattern ∈ registry.compositePatterns ∧
      Extractor.outset? pattern base = some start ∧
      (Extractor.attempt ⟨registry, { maxDepth := 3 }, .empty⟩ bigBlackCat leaves 0 pattern).Path
        start [0, 0] moment ∧
      moment.depth = 3 ∧ moment.PaidFor base bigBlackCat ∧
      ∀ bound, Extractor.extract ⟨registry, { maxDepth := 3 }, .empty⟩ bigBlackCat ≠
        .error (.depthExceeded bound) := by
  -- The slot is filled with the nearest word, and then again with the one before it.
  obtain ⟨leaves, base, pattern, start, moment, after, found, isBase, listed, sets, path, deep⟩ :
      ∃ leaves base pattern start moment after,
        Extractor.leafPass ⟨.assemble nounQualities [0, 1], { maxDepth := 3 }, .empty⟩ bigBlackCat
          (.ofOptions {}) = .ok leaves after ∧ leaves[0]? = some base ∧
        (Registry.assemble nounQualities [0, 1]).compositePatterns = [pattern] ∧
        Extractor.outset? pattern base = some start ∧
        (Extractor.attempt ⟨.assemble nounQualities [0, 1], { maxDepth := 3 }, .empty⟩ bigBlackCat
          leaves 0 pattern).Path start [0, 0] moment ∧ moment.depth = 3 :=
    ⟨_, _, _, _, _, _, rfl, rfl, rfl, rfl,
      .step (.step .start (.again ⟨rfl, _, rfl, rfl⟩ (.word rfl rfl rfl)))
        (.onward (.word rfl rfl rfl)), rfl⟩
  have yields : (Extractor.leafPass ⟨.assemble nounQualities [0, 1], { maxDepth := 3 }, .empty⟩
    bigBlackCat).Yields leaves := ⟨_, after, found⟩
  obtain ⟨_, paths, enough, _⟩ := @extract_depth _ _
    ⟨.assemble nounQualities [0, 1], { maxDepth := 3 }, .empty⟩ build_nounQualities bigBlackCat
  obtain ⟨paid, _⟩ := paths leaves yields 0 base pattern start isBase sets
  refine ⟨_, leaves, base, pattern, start, moment, build_nounQualities, yields, isBase, ?_, sets,
    path, deep, paid [0, 0] moment path, enough (by decide)⟩
  rw [listed]
  exact List.mem_singleton_self pattern

end PhraseGrammar
