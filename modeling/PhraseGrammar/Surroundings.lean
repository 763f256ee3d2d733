import PhraseGrammar.Span

/-! What lies around each place of a sentence, as far as the tokens there can take part in phrases. -/

namespace PhraseGrammar

/-- For each place of a list, its end included, the items from there up to the first refused one. -/
def runs {α : Type} (items : List (α × Bool)) : List (List α) :=
  items.foldr
    (fun item later => (if item.2 then item.1 :: later.headD [] else []) :: later) [[]]

/-- The runs of a list are those of its tail behind the one at its front. -/
theorem runs_cons {α : Type} (item : α × Bool) (items : List (α × Bool)) :
    runs (item :: items) =
      (if item.2 then item.1 :: (runs items).headD [] else []) :: runs items :=
  rfl

/-- A list has one place more than items. -/
theorem length_runs {α : Type} (items : List (α × Bool)) :
    (runs items).length = items.length + 1 := by
  induction items with
  | nil => rfl
  | cons item items rest => rw [runs_cons, List.length_cons, List.length_cons, rest]

/-- The run at the front of a list is what stands before its first refused item. -/
theorem headD_runs {α : Type} (items : List (α × Bool)) :
    (runs items).headD [] = (items.takeWhile (·.2)).map (·.1) := by
  induction items with
  | nil => rfl
  | cons item items rest =>
    rw [runs_cons, List.headD_cons, List.takeWhile_cons, rest]
    split <;> rfl

/-- The run at a place is what stands between it and the next refused item. -/
theorem getElem?_runs {α : Type} (items : List (α × Bool)) {place : Nat}
    (inside : place ≤ items.length) :
    (runs items)[place]? = some (((items.drop place).takeWhile (·.2)).map (·.1)) := by
  induction items generalizing place with
  | nil =>
    obtain rfl : place = 0 := Nat.le_zero.mp inside
    rfl
  | cons item items rest =>
    cases place with
    | zero =>
      rw [List.drop_zero, ← headD_runs, runs_cons, List.getElem?_cons_zero, List.headD_cons]
    | succ place =>
      rw [runs_cons, List.getElem?_cons_succ, List.drop_succ_cons,
        rest (Nat.le_of_succ_le_succ inside)]

/-- Each item with whether it is admitted. -/
def flagged {α : Type} (admits : α → Bool) (items : List α) : List (α × Bool) :=
  items.map fun item => (item, admits item)

/-- The items before the first refused one are the admitted ones at the front. -/
theorem map_takeWhile_flagged {α : Type} (admits : α → Bool) (items : List α) :
    ((flagged admits items).takeWhile (·.2)).map (·.1) = items.takeWhile admits := by
  rw [flagged, List.takeWhile_map, List.map_map]
  exact List.map_id _

/-- Items are numbered in increasing order. -/
theorem pairwise_lt_zipIdx {α : Type} (items : List α) :
    items.zipIdx.Pairwise fun item other => item.2 < other.2 := by
  refine List.pairwise_map.mp ?_
  rw [List.zipIdx_map_snd]
  exact List.pairwise_lt_range'

/-- The items from a place on keep their numbers. -/
theorem drop_zipIdx {α : Type} (items : List α) (place start : Nat) :
    (items.zipIdx start).drop place = (items.drop place).zipIdx (start + place) := by
  induction items generalizing place start with
  | nil => rw [List.zipIdx_nil, List.drop_nil, List.drop_nil, List.zipIdx_nil]
  | cons item items rest =>
    cases place with
    | zero => rw [List.drop_zero, List.drop_zero, Nat.add_zero]
    | succ place =>
      rw [List.zipIdx_cons, List.drop_succ_cons, List.drop_succ_cons, rest, Nat.add_assoc,
        Nat.add_comm 1 place]

/-- The items before a place keep their numbers. -/
theorem take_zipIdx {α : Type} (items : List α) (place start : Nat) :
    (items.zipIdx start).take place = (items.take place).zipIdx start := by
  induction items generalizing place start with
  | nil => rw [List.zipIdx_nil, List.take_nil, List.take_nil, List.zipIdx_nil]
  | cons item items rest =>
    cases place with
    | zero => rw [List.take_zero, List.take_zero, List.zipIdx_nil]
    | succ place =>
      rw [List.zipIdx_cons, List.take_succ_cons, List.take_succ_cons, List.zipIdx_cons, rest]

/-- A sentence with its tokens by position and the runs of admitted ones around each of them. -/
structure Surroundings where
  /-- The sentence. -/
  sentence : Sentence
  /-- The tokens by position. -/
  tokens : Array Token
  /-- For each position the admitted tokens before it with their positions, the nearest first. -/
  before : Array (List (Token × Nat))
  /-- For each position the admitted tokens from it on with their positions. -/
  after : Array (List (Token × Nat))

namespace Surroundings

/-- The surroundings in a sentence of whose tokens some are admitted. -/
def ofSentence (admits : Token → Bool) (sentence : Sentence) : Surroundings :=
  let items := flagged (fun item => admits item.1) sentence.tokens.zipIdx
  { sentence
    tokens := sentence.tokens.toArray
    before := (runs items.reverse).reverse.toArray
    after := (runs items).toArray }

/-- The admitted tokens with their positions. -/
def admitted (surroundings : Surroundings) : List (Token × Nat) :=
  surroundings.after.toList.filterMap List.head?

/-- The admitted tokens next to a span on one side with their positions, the nearest first. -/
def outward (surroundings : Surroundings) (side : Side) (span : Span) : List (Token × Nat) :=
  match side with
  | .left => surroundings.before[span.first]?.getD []
  | .right => surroundings.after[span.last + 1]?.getD []

/-- What lies next to a span are the tokens outwards of it up to the first refused one. -/
theorem outward_ofSentence (admits : Token → Bool) (sentence : Sentence) (side : Side) (span : Span)
    (first : span.first ≤ sentence.length) (last : span.last < sentence.length) :
    (ofSentence admits sentence).outward side span =
      (sentence.outward side span).takeWhile fun next => admits next.1 := by
  unfold Sentence.length at first last
  have size : (flagged (fun item : Token × Nat => admits item.1) sentence.tokens.zipIdx).length =
      sentence.tokens.length := by
    rw [flagged, List.length_map, List.length_zipIdx]
  cases side with
  | left =>
    have inside : sentence.tokens.length + 1 - 1 - span.first ≤
        (flagged (fun item : Token × Nat => admits item.1) sentence.tokens.zipIdx).reverse.length := by
      rw [List.length_reverse, size]
      omega
    have rest : sentence.tokens.length - (sentence.tokens.length + 1 - 1 - span.first) =
        span.first := by
      omega
    rw [outward, ofSentence, List.getElem?_toArray, List.getElem?_reverse, length_runs,
      List.length_reverse, size, getElem?_runs _ inside, Option.getD_some, List.drop_reverse, size,
      rest, flagged, ← List.map_take, ← List.map_reverse, ← flagged, map_takeWhile_flagged,
      take_zipIdx, Sentence.outward]
    rw [length_runs, List.length_reverse, size]
    exact Nat.lt_succ_of_le first
  | right =>
    have inside : span.last + 1 ≤
        (flagged (fun item : Token × Nat => admits item.1) sentence.tokens.zipIdx).length := by
      rw [size]
      exact last
    rw [outward, ofSentence, List.getElem?_toArray, getElem?_runs _ inside, Option.getD_some,
      flagged, ← List.map_drop, ← flagged, map_takeWhile_flagged, drop_zipIdx, Nat.zero_add,
      Sentence.outward]

end Surroundings

end PhraseGrammar
