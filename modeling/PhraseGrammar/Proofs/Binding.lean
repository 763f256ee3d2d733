import Mathlib.Data.List.Induction
import PhraseGrammar.CompositePass
import PhraseGrammar.Proofs.LeafGrowth

/-! What it means for the slots of a composite pattern to be filled, apart from any search. -/

namespace PhraseGrammar

/-- Whether a phrase of words meets a slot for a phrase, each demand by some reading of a token. -/
structure ModelSlot.Takes (slot : ModelSlot) (leaf : Phrase) : Prop where
  /-- The phrase is one of the pattern that the slot names. -/
  named : leaf.pattern = slot.pattern
  /-- Some reading has the wanted attributes. -/
  tagged : ∃ token ∈ leaf.tokens, ∃ reading ∈ token.readings,
    slot.condition.matchesAttributes reading
  /-- Some reading, maybe another one, meets the demands beyond the attributes. -/
  worded : ∃ token ∈ leaf.tokens, ∃ reading ∈ token.readings,
    slot.condition.additional.matchesReading reading

/-- Whether a run of positions fills a slot, which may be the first or the last of its pattern. -/
def Extractor.Fills (extractor : Extractor) (sentence : Sentence) (leaves : List Phrase)
    (component : Component) (outermost : Prop) (run : Span) : Prop :=
  match component with
  | .word slot =>
    run.first ≤ run.last ∧
      (∀ position, run.first ≤ position → position ≤ run.last →
        extractor.eligible sentence (.word slot) position) ∧
      -- Only a slot at an end of the pattern takes more than one token.
      (run.first = run.last ∨ outermost ∧ slot.condition.isRepeated)
  | .model slot => ∃ leaf ∈ leaves, leaf.span = run ∧ slot.Takes leaf

/-- Whether runs, one for each slot of a row, lead step by step from a start to an end. -/
def Along {α σ : Type} (step : α → Span → σ → σ → Prop) : List α → List Span → σ → σ → Prop
  | [], [], start, final => start = final
  | slot :: slots, run :: runs, start, final =>
    ∃ next, step slot run start next ∧ Along step slots runs next final
  -- No slot lacks a run, and no run is left over.
  | _, _, _, _ => False

/-- Whether runs fill slots one after the other, without a gap, from one position up to another. -/
def Tiles {α : Type} (fills : α → Span → Prop) : List α → List Span → Nat → Nat → Prop :=
  Along fun slot run start next => fills slot run ∧ run.first = start ∧ next = run.last + 1

/-- Whether a phrase of words can be the first one to be taken into a pattern, at a slot of it. -/
def Admissible (base : Phrase) (pattern : Pattern) (anchor : Nat) : Prop :=
  pattern.modelSlotIndex? base.pattern = some anchor ∧
    ∃ slot, pattern.component? anchor = some (.model slot) ∧
      (∃ token ∈ base.tokens, ∃ reading ∈ token.readings,
        slot.condition.matchesAttributes reading) ∧
      -- The slot must demand nothing else.
      slot.condition.additional.isEmpty

/-- Whether a run fills a numbered slot of a pattern, one slot of which is for the base. -/
def Extractor.FillsAt (extractor : Extractor) (sentence : Sentence) (leaves : List Phrase)
    (base : Phrase) (pattern : Pattern) (anchor : Nat) (numbered : Component × Nat)
    (run : Span) : Prop :=
  if numbered.2 = anchor then run = base.span
  else extractor.Fills sentence leaves numbered.1
    (numbered.2 = 0 ∨ numbered.2 + 1 = pattern.length) run

/-- Whether runs fill all slots of a pattern over a span, one of them with the base. -/
def Extractor.Binding (extractor : Extractor) (sentence : Sentence) (leaves : List Phrase)
    (base : Phrase) (pattern : Pattern) (anchor : Nat) (runs : List Span) (span : Span) : Prop :=
  Tiles (extractor.FillsAt sentence leaves base pattern anchor) pattern.components.zipIdx runs
    span.first (span.last + 1)

/-- Whether a phrase of words can be made a phrase of a pattern that stands at a span. -/
def Extractor.Binds (extractor : Extractor) (sentence : Sentence) (leaves : List Phrase)
    (base : Phrase) (pattern : Pattern) (span : Span) : Prop :=
  ∃ anchor runs, Admissible base pattern anchor ∧
    extractor.Binding sentence leaves base pattern anchor runs span

/-- Whether runs fill the slots of a route one after the other, each beside all that was taken. -/
def Grown (fills : Stop → Span → Prop) : List Stop → List Span → Span → Span → Prop :=
  Along fun stop run span next => fills stop run ∧ run.Beside span stop.side ∧
    next = span.stretch stop.side (run.reach stop.side)

section Along

variable {α σ : Type} {step other : α → Span → σ → σ → Prop} {before after slots : List α}
  {start final : σ} {runs : List Span}

/-- Two rows are passed if one of them is and then the other. -/
theorem along_append :
    Along step (before ++ after) runs start final ↔
      ∃ first second middle, runs = first ++ second ∧ Along step before first start middle ∧
        Along step after second middle final := by
  -- The runs are split where the first row ends, which takes as many of them as it has slots.
  constructor
  · intro along
    induction before generalizing start runs with
    | nil => exact ⟨[], runs, start, rfl, rfl, along⟩
    | cons slot before rest =>
      cases runs with
      | nil => exact absurd along id
      | cons run runs =>
        obtain ⟨next, stepped, along⟩ := along
        obtain ⟨first, second, middle, rfl, left, right⟩ := rest along
        exact ⟨run :: first, second, middle, rfl, ⟨next, stepped, left⟩, right⟩
  · rintro ⟨first, second, middle, rfl, left, right⟩
    induction before generalizing start first with
    | nil =>
      cases first with
      | nil =>
        cases left
        exact right
      | cons run first => exact absurd left id
    | cons slot before rest =>
      cases first with
      | nil => exact absurd left id
      | cons run first =>
        obtain ⟨next, stepped, left⟩ := left
        exact ⟨next, stepped, rest first left⟩

/-- A single slot is passed with a single run. -/
theorem along_single {slot : α} :
    Along step [slot] runs start final ↔ ∃ run, runs = [run] ∧ step slot run start final := by
  match runs with
  | [] => simp [Along]
  | [run] => simp [Along]
  | run :: next :: runs => simp [Along]

/-- A row is passed with as many runs as it has slots. -/
theorem along_length (along : Along step slots runs start final) : runs.length = slots.length := by
  induction slots generalizing runs start with
  | nil =>
    cases runs with
    | nil => rfl
    | cons run runs => exact absurd along id
  | cons slot slots rest =>
    cases runs with
    | nil => exact absurd along id
    | cons run runs =>
      obtain ⟨next, _, along⟩ := along
      rw [List.length_cons, List.length_cons, rest along]

/-- What a step does only matters for the slots of the row. -/
theorem along_congr
    (agree : ∀ slot ∈ slots, ∀ run start next,
      step slot run start next ↔ other slot run start next) :
    Along step slots runs start final ↔ Along other slots runs start final := by
  -- The first slot is one of the row, and so are those after it.
  induction slots generalizing runs start with
  | nil => cases runs <;> exact Iff.rfl
  | cons slot slots rest =>
    obtain ⟨here, later⟩ := List.forall_mem_cons.mp agree
    cases runs with
    | nil => exact Iff.rfl
    | cons run runs => simp only [Along, here, rest later]

end Along

/-- The runs for all slots in their order, given that of the base and those of the route around it. -/
def runsAround (anchor : Nat) (base : Span) (runs : List Span) : List Span :=
  -- A route passes the slots before the one to start with from the last to the first.
  (runs.take anchor).reverse ++ base :: runs.drop anchor

namespace Grown

variable {fills : Stop → Span → Prop} {span final : Span} {runs : List Span}
  {slots : List (Component × Nat)} {stop : Component × Nat → Stop}

/-- To the right, runs fill a route outwards exactly if they tile what lies behind the span. -/
theorem right_iff (right : ∀ slot, (stop slot).side = .right) :
    Grown fills (slots.map stop) runs span final ↔
      final.first = span.first ∧
        Tiles (fun slot => fills (stop slot)) slots runs (span.last + 1) (final.last + 1) := by
  -- The last position of the span is where the next run has to start.
  induction slots generalizing runs span with
  | nil =>
    cases runs with
    | nil =>
      obtain ⟨first, last⟩ := span
      obtain ⟨finalFirst, finalLast⟩ := final
      simp [Grown, Tiles, Along, eq_comm]
    | cons run runs => simp [Grown, Tiles, Along]
  | cons slot slots rest =>
    cases runs with
    | nil => simp [Grown, Tiles, Along]
    | cons run runs =>
      constructor
      · rintro ⟨next, ⟨filled, beside, rfl⟩, grown⟩
        rw [right] at beside grown
        obtain ⟨same, tiles⟩ := rest.mp grown
        exact ⟨same, run.last + 1, ⟨filled, beside.symm, rfl⟩, tiles⟩
      · rintro ⟨same, next, ⟨filled, begins, rfl⟩, tiles⟩
        refine ⟨_, ⟨filled, ?_, rfl⟩, ?_⟩
        · rw [right]
          exact begins.symm
        · rw [right]
          exact rest.mpr ⟨same, tiles⟩

/-- To the left, runs fill a route outwards exactly if they tile what lies before the span. -/
theorem left_iff (left : ∀ slot, (stop slot).side = .left) :
    Grown fills (slots.reverse.map stop) runs span final ↔
      final.last = span.last ∧
        Tiles (fun slot => fills (stop slot)) slots runs.reverse final.first span.first := by
  -- The last slot of the row is the first one on the way outwards.
  induction slots using List.reverseRecOn generalizing runs span with
  | nil =>
    cases runs with
    | nil =>
      obtain ⟨first, last⟩ := span
      obtain ⟨finalFirst, finalLast⟩ := final
      simp [Grown, Tiles, Along, eq_comm, and_comm]
    | cons run runs =>
      cases reversed : (run :: runs).reverse with
      | nil => simp at reversed
      | cons other others => simp [Grown, Tiles, Along]
  | append_singleton slots slot rest =>
    rw [List.reverse_append, List.reverse_singleton, List.singleton_append, List.map_cons, Tiles,
      along_append]
    cases runs with
    | nil =>
      -- Without a run neither way of filling the last slot can be right.
      simp [Grown, Along, along_single]
    | cons run runs =>
      constructor
      · rintro ⟨next, ⟨filled, beside, rfl⟩, grown⟩
        rw [left] at beside grown
        obtain ⟨same, tiles⟩ := rest.mp grown
        exact ⟨same, runs.reverse, [run], run.first, List.reverse_cons, tiles,
          along_single.mpr ⟨run, rfl, filled, rfl, beside.symm⟩⟩
      · rintro ⟨same, first, second, middle, split, tiles, lastOne⟩
        obtain ⟨other, rfl, filled, rfl, ends⟩ := along_single.mp lastOne
        rw [List.reverse_cons] at split
        obtain ⟨rfl, same'⟩ := List.append_inj' split rfl
        obtain rfl := List.singleton_inj.mp same'
        refine ⟨_, ⟨filled, ?_, rfl⟩, ?_⟩
        · rw [left]
          exact ends.symm
        · rw [left]
          exact rest.mpr ⟨same, tiles⟩

end Grown

namespace Pattern

variable {extractor : Extractor} {sentence : Sentence} {leaves : List Phrase} {base : Phrase}
  {pattern : Pattern} {anchor : Nat}

/-- The stop for a numbered slot of a pattern on a side of the slot to start with. -/
def stop (pattern : Pattern) (side : Side) (numbered : Component × Nat) : Stop :=
  ⟨side, numbered.2, numbered.1, numbered.2 = side.boundary pattern.length⟩

/-- The slots of a pattern are those before one of them, that one, and those after it. -/
theorem zipIdx_split (inside : anchor < pattern.length) :
    pattern.components.zipIdx = pattern.components.zipIdx.take anchor ++
      (pattern.components[anchor], anchor) :: pattern.components.zipIdx.drop (anchor + 1) := by
  have bound : anchor < pattern.components.zipIdx.length := by
    rwa [List.length_zipIdx]
  -- The slot that stands at a number has this number.
  have same : pattern.components.zipIdx[anchor] = (pattern.components[anchor], anchor) := by
    rw [List.getElem_zipIdx, Nat.zero_add]
    rfl
  rw [← same, ← List.drop_eq_getElem_cons bound, List.take_append_drop]

/-- The slots before one of them are those with smaller numbers. -/
theorem lt_of_mem_take {numbered : Component × Nat}
    (member : numbered ∈ pattern.components.zipIdx.take anchor) : numbered.2 < anchor := by
  -- As many slots are taken as there are smaller numbers.
  rw [take_zipIdx] at member
  have bound := List.snd_lt_of_mem_zipIdx member
  rw [List.length_take] at bound
  omega

/-- The slots after one of them are those with greater numbers. -/
theorem lt_of_mem_drop {numbered : Component × Nat}
    (member : numbered ∈ pattern.components.zipIdx.drop (anchor + 1)) :
    anchor < numbered.2 ∧ numbered.2 < pattern.length := by
  have bound := List.snd_lt_of_mem_zipIdx (List.mem_of_mem_drop member)
  -- The numbers of what is left start behind the one to start with.
  rw [drop_zipIdx] at member
  have least := List.le_snd_of_mem_zipIdx member
  rw [length]
  omega

/-- A slot may be filled again at a stop exactly if it is the first or the last one. -/
theorem outermost_stop_left {numbered : Component × Nat}
    (member : numbered ∈ pattern.components.zipIdx.take anchor) (inside : anchor < pattern.length) :
    (pattern.stop .left numbered).outermost ↔
      numbered.2 = 0 ∨ numbered.2 + 1 = pattern.length := by
  have before := lt_of_mem_take member
  -- The last slot is not among those before another one.
  show decide (numbered.2 = 0) = true ↔ _
  rw [decide_eq_true_eq]
  omega

/-- Behind the slot to start with, only the last slot may be filled again. -/
theorem outermost_stop_right {numbered : Component × Nat}
    (member : numbered ∈ pattern.components.zipIdx.drop (anchor + 1)) :
    (pattern.stop .right numbered).outermost ↔
      numbered.2 = 0 ∨ numbered.2 + 1 = pattern.length := by
  have after := lt_of_mem_drop member
  -- The first slot is not among those after another one.
  show decide (numbered.2 = pattern.length - 1) = true ↔ _
  rw [decide_eq_true_eq]
  omega

/-- The route around a slot passes every other slot once. -/
theorem pairwise_route (pattern : Pattern) (anchor : Nat) :
    (pattern.route anchor).Pairwise fun stop other => stop.index ≠ other.index := by
  -- Slots are numbered by their places, so no number is there twice.
  have apart : pattern.components.zipIdx.Pairwise fun a b => a.2 ≠ b.2 :=
    (pairwise_lt_zipIdx _).imp Nat.ne_of_lt
  refine List.pairwise_append.mpr ⟨?_, ?_, fun left member right other => ?_⟩
  · rw [List.pairwise_map, List.pairwise_reverse]
    exact (apart.sublist (List.take_sublist ..)).imp Ne.symm
  · rw [List.pairwise_map]
    exact apart.sublist (List.drop_sublist ..)
  · -- The slot to start with lies between those on its two sides.
    obtain ⟨first, isFirst, rfl⟩ := List.mem_map.mp member
    obtain ⟨second, isSecond, rfl⟩ := List.mem_map.mp other
    have before := lt_of_mem_take (List.mem_reverse.mp isFirst)
    have after := (lt_of_mem_drop isSecond).1
    show first.2 ≠ second.2
    omega

/-- A pattern has one slot more than the route around one of them. -/
theorem length_route (inside : anchor < pattern.length) :
    (pattern.route anchor).length + 1 = pattern.length := by
  have slots : pattern.components.length = pattern.length := rfl
  simp only [route, List.length_append, List.length_map, List.length_reverse, List.length_take,
    List.length_drop, List.length_zipIdx]
  omega

/-- Every slot but the one to start with has its stop on the route. -/
theorem exists_mem_route (inside : anchor < pattern.length) {numbered : Component × Nat}
    (member : numbered ∈ pattern.components.zipIdx) (apart : numbered.2 ≠ anchor) :
    ∃ stop ∈ pattern.route anchor, stop.component = numbered.1 := by
  -- The slots before are passed on the way to the left, the others to the right.
  rw [zipIdx_split inside, List.mem_append, List.mem_cons] at member
  rcases member with before | rfl | after
  · refine ⟨pattern.stop .left numbered, List.mem_append_left _ (List.mem_map_of_mem ?_), rfl⟩
    exact List.mem_reverse.mpr before
  · exact absurd rfl apart
  · exact ⟨pattern.stop .right numbered, List.mem_append_right _ (List.mem_map_of_mem after), rfl⟩

/-- A stop on a route is one for the slot that has its number. -/
theorem component?_of_mem_route {stop : Stop} (member : stop ∈ pattern.route anchor) :
    pattern.component? stop.index = some stop.component := by
  have numbered {slot : Component × Nat} (listed : slot ∈ pattern.components.zipIdx) :
      pattern.component? slot.2 = some slot.1 := List.mem_zipIdx_iff_getElem?.mp listed
  -- The slots are numbered before they are split up for the two sides.
  rcases List.mem_append.mp member with left | right
  · obtain ⟨slot, listed, rfl⟩ := List.mem_map.mp left
    exact numbered (List.mem_of_mem_take (List.mem_reverse.mp listed))
  · obtain ⟨slot, listed, rfl⟩ := List.mem_map.mp right
    exact numbered (List.mem_of_mem_drop listed)

/-- The slot for the base is filled by the span of the base and by nothing else. -/
theorem fillsAt_anchor {component : Component} {run : Span} :
    extractor.FillsAt sentence leaves base pattern anchor (component, anchor) run ↔
      run = base.span := by
  rw [Extractor.FillsAt, if_pos rfl]

/-- A slot apart from the one for the base is filled as at its stop. -/
theorem fillsAt_iff {numbered : Component × Nat} {side : Side} {run : Span}
    (apart : numbered.2 ≠ anchor)
    (outermost : (pattern.stop side numbered).outermost ↔
      numbered.2 = 0 ∨ numbered.2 + 1 = pattern.length) :
    extractor.Fills sentence leaves numbered.1 (pattern.stop side numbered).outermost run ↔
      extractor.FillsAt sentence leaves base pattern anchor numbered run := by
  rw [Extractor.FillsAt, if_neg apart, propext outermost]

/-- As many slots lie before a slot as its number says. -/
theorem length_take_zipIdx (inside : anchor < pattern.length) :
    (pattern.components.zipIdx.take anchor).length = anchor :=
  List.length_take_of_le (by rw [List.length_zipIdx]; exact Nat.le_of_lt inside)

/-- The stops before a slot come first on the route around it, the nearest one of them in front. -/
theorem getElem?_route_left {place : Nat} (inside : anchor < pattern.length)
    (near : place < anchor) :
    (pattern.route anchor)[place]? = (pattern.component? (anchor - 1 - place)).map fun component =>
      pattern.stop .left (component, anchor - 1 - place) := by
  have before := length_take_zipIdx inside
  show (_ ++ _)[place]? = _
  rw [List.getElem?_append_left (by rw [List.length_map, List.length_reverse, before]; exact near),
    List.getElem?_map, List.getElem?_reverse (by rw [before]; exact near), before,
    List.getElem?_take_of_lt (by omega), List.getElem?_zipIdx, Nat.zero_add, Option.map_map]
  rfl

/-- The stops behind a slot come last on the route around it, in the order of their slots. -/
theorem getElem?_route_right {place : Nat} (inside : anchor < pattern.length)
    (far : anchor ≤ place) :
    (pattern.route anchor)[place]? = (pattern.component? (place + 1)).map fun component =>
      pattern.stop .right (component, place + 1) := by
  have before := length_take_zipIdx inside
  have number : anchor + 1 + (place - anchor) = place + 1 := by omega
  show (_ ++ _)[place]? = _
  rw [List.getElem?_append_right (by rw [List.length_map, List.length_reverse, before]; exact far),
    List.length_map, List.length_reverse, before, List.getElem?_map, List.getElem?_drop, number,
    List.getElem?_zipIdx, Nat.zero_add, Option.map_map]
  rfl

/-- The run for a slot on the route is at the number of the slot among those for all slots. -/
theorem getElem?_runsAround {base : Span} {runs : List Span} {place : Nat} {stop : Stop}
    (inside : anchor < pattern.length) (all : runs.length = (pattern.route anchor).length)
    (stands : (pattern.route anchor)[place]? = some stop) :
    (runsAround anchor base runs)[stop.index]? = runs[place]? := by
  have length := length_route inside
  have before : (runs.take anchor).length = anchor := List.length_take_of_le (by omega)
  rcases Nat.lt_or_ge place anchor with near | far
  · -- To the left the runs are listed from the base outwards, and the slots towards it.
    rw [getElem?_route_left inside near, Option.map_eq_some_iff] at stands
    obtain ⟨component, _, rfl⟩ := stands
    show (runsAround anchor base runs)[anchor - 1 - place]? = runs[place]?
    rw [runsAround, List.getElem?_append_left (by rw [List.length_reverse, before]; omega),
      List.getElem?_reverse (by rw [before]; omega), before, List.getElem?_take_of_lt (by omega)]
    congr 1
    omega
  · rw [getElem?_route_right inside far, Option.map_eq_some_iff] at stands
    obtain ⟨component, _, rfl⟩ := stands
    have behind : place + 1 - anchor = place - anchor + 1 := by omega
    show (runsAround anchor base runs)[place + 1]? = runs[place]?
    rw [runsAround, List.getElem?_append_right (by rw [List.length_reverse, before]; omega),
      List.length_reverse, before, behind, List.getElem?_cons_succ, List.getElem?_drop]
    congr 1
    omega

/-- The run for the slot to start with is the base. -/
theorem getElem?_runsAround_anchor {base : Span} {runs : List Span}
    (inside : anchor < pattern.length) (all : runs.length = (pattern.route anchor).length) :
    (runsAround anchor base runs)[anchor]? = some base := by
  have length := length_route inside
  have before : (runs.take anchor).length = anchor := List.length_take_of_le (by omega)
  rw [runsAround, List.getElem?_append_right (Nat.le_of_eq (by rw [List.length_reverse, before])),
    List.length_reverse, before, Nat.sub_self, List.getElem?_cons_zero]

/-- Tiling the slots before the base is the same at their stops as at their numbers. -/
theorem tiles_before_iff {runs : List Span} {start stop : Nat} (inside : anchor < pattern.length) :
    Tiles (fun slot => extractor.Fills sentence leaves slot.1 (pattern.stop .left slot).outermost)
        (pattern.components.zipIdx.take anchor) runs start stop ↔
      Tiles (extractor.FillsAt sentence leaves base pattern anchor)
        (pattern.components.zipIdx.take anchor) runs start stop := by
  refine along_congr fun slot member run _ _ => and_congr_left' ?_
  exact fillsAt_iff (Nat.ne_of_lt (lt_of_mem_take member)) (outermost_stop_left member inside)

/-- Tiling the slots behind the base is the same at their stops as at their numbers. -/
theorem tiles_behind_iff {runs : List Span} {start stop : Nat} :
    Tiles (fun slot => extractor.Fills sentence leaves slot.1 (pattern.stop .right slot).outermost)
        (pattern.components.zipIdx.drop (anchor + 1)) runs start stop ↔
      Tiles (extractor.FillsAt sentence leaves base pattern anchor)
        (pattern.components.zipIdx.drop (anchor + 1)) runs start stop := by
  refine along_congr fun slot member run _ _ => and_congr_left' ?_
  exact fillsAt_iff (Nat.ne_of_gt (lt_of_mem_drop member).1) (outermost_stop_right member)

/-- What has grown along the route around a slot fills all slots, that one with the base. -/
theorem binding_runsAround (inside : anchor < pattern.length) {runs : List Span} {span : Span}
    (grown : Grown (fun stop => extractor.Fills sentence leaves stop.component stop.outermost)
      (pattern.route anchor) runs base.span span) :
    extractor.Binding sentence leaves base pattern anchor (runsAround anchor base.span runs)
      span := by
  -- The runs to the left come nearest first, and the base stands between the two sides.
  obtain ⟨lefts, rights, middle, rfl, left, right⟩ := along_append.mp grown
  have before : lefts.length = anchor := by
    rw [along_length left, List.length_map, List.length_reverse, length_take_zipIdx inside]
  obtain ⟨last, leftTiles⟩ := (Grown.left_iff fun _ => rfl).mp left
  obtain ⟨first, rightTiles⟩ := (Grown.right_iff fun _ => rfl).mp right
  rw [last] at rightTiles
  rw [← first] at leftTiles
  rw [runsAround, List.take_left' before, List.drop_left' before]
  unfold Extractor.Binding
  rw [zipIdx_split inside]
  exact along_append.mpr ⟨_, _, base.span.first, rfl, (tiles_before_iff inside).mp leftTiles, _,
    ⟨fillsAt_anchor.mpr rfl, rfl, rfl⟩, tiles_behind_iff.mp rightTiles⟩

/-- Growing along the route around a slot is filling all slots, that one with the base. -/
theorem grown_route_iff (inside : anchor < pattern.length) {span : Span} :
    (∃ runs, Grown (fun stop => extractor.Fills sentence leaves stop.component stop.outermost)
        (pattern.route anchor) runs base.span span) ↔
      ∃ runs, extractor.Binding sentence leaves base pattern anchor runs span := by
  constructor
  · rintro ⟨runs, grown⟩
    exact ⟨_, binding_runsAround inside grown⟩
  · unfold Extractor.Binding
    rw [zipIdx_split inside]
    rintro ⟨runs, tiles⟩
    obtain ⟨lefts, others, middle, rfl, leftTiles, tiles⟩ := along_append.mp tiles
    cases others with
    | nil => exact absurd tiles id
    | cons run rights =>
      -- The run for the slot to start with is the base, at which the route starts.
      obtain ⟨_, ⟨isBase, rfl, rfl⟩, rightTiles⟩ := tiles
      obtain rfl := fillsAt_anchor.mp isBase
      refine ⟨lefts.reverse ++ rights,
        along_append.mpr ⟨_, _, ⟨span.first, base.span.last⟩, rfl, ?_, ?_⟩⟩
      · refine (Grown.left_iff fun _ => rfl).mpr ⟨rfl, ?_⟩
        rw [List.reverse_reverse]
        exact (tiles_before_iff inside).mpr leftTiles
      · exact (Grown.right_iff fun _ => rfl).mpr ⟨rfl, tiles_behind_iff.mpr rightTiles⟩

end Pattern

end PhraseGrammar
