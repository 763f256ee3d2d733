import PhraseGrammar.Proofs.Occurrence

/-! Going outwards from a span meets its neighbouring positions one after the other. -/

namespace PhraseGrammar

/-- The positions outside a span on one side, the nearest first. -/
def Sentence.beyond (sentence : Sentence) (side : Side) (span : Span) : List Nat :=
  match side with
  | .left => (List.range span.first).reverse
  | .right => List.range' (span.last + 1) (sentence.length - (span.last + 1))

namespace Side

variable {side : Side} {span : Span} {length : Nat}

/-- Nothing is next to a span that reaches the start of the text, or its end. -/
theorem nextPosition?_eq_none_iff :
    side.nextPosition? span length = none ↔
      match side with
      | .left => span.first = 0
      | .right => length ≤ span.last + 1 := by
  cases side with
  | left => simp [nextPosition?]
  | right => simp [nextPosition?]

/-- The position next to a span is the one beside it, which on the right has to be in the text. -/
theorem nextPosition?_eq_some_iff {position : Nat} :
    side.nextPosition? span length = some position ↔
      Span.Beside ⟨position, position⟩ span side ∧ (side = .right → position < length) := by
  cases side with
  | left =>
    simp only [nextPosition?, Option.ite_none_left_eq_some, Option.some.injEq, Span.Beside]
    simp only [reduceCtorEq, false_implies, and_true]
    omega
  | right =>
    simp only [nextPosition?, Option.ite_none_right_eq_some, Option.some.injEq, Span.Beside]
    simp only [true_implies]
    omega

end Side

namespace Sentence

variable {sentence : Sentence} {side : Side} {span : Span}

/-- A span with no position next to it has none beyond it. -/
theorem beyond_none (edge : side.nextPosition? span sentence.length = none) :
    sentence.beyond side span = [] := by
  have edge := Side.nextPosition?_eq_none_iff.mp edge
  -- The span reaches the start of the sentence, or its end.
  cases side with
  | left =>
    have start : span.first = 0 := edge
    simp [beyond, start]
  | right =>
    have stop : sentence.length ≤ span.last + 1 := edge
    have none : sentence.length - (span.last + 1) = 0 := by omega
    simp [beyond, none]

/-- Beyond a span lies the position next to it, and then what lies beyond that position. -/
theorem beyond_some {position : Nat}
    (next : side.nextPosition? span sentence.length = some position) :
    sentence.beyond side span =
      position :: sentence.beyond side (span.stretch side position) := by
  obtain ⟨beside, within⟩ := Side.nextPosition?_eq_some_iff.mp next
  cases side with
  | left =>
    -- The positions before the span are counted from the start, so the nearest is the last one.
    have first : position + 1 = span.first := beside
    rw [beyond, ← first, List.range_succ, List.reverse_append, List.reverse_singleton,
      List.singleton_append]
    rfl
  | right =>
    have last : span.last + 1 = position := beside
    have inside : position < sentence.length := within rfl
    have rest : sentence.length - position = sentence.length - (position + 1) + 1 := by omega
    rw [beyond, last, rest, List.range'_succ]
    rfl

/-- The first position beyond a span is the one that lies beside it. -/
theorem head?_beyond {position : Nat} (beside : Span.Beside ⟨position, position⟩ span side)
    (inside : position < sentence.length) :
    (sentence.beyond side span).head? = some position := by
  -- A position beside the span is the next one, as it lies in the sentence.
  have next : side.nextPosition? span sentence.length = some position :=
    Side.nextPosition?_eq_some_iff.mpr ⟨beside, fun _ => inside⟩
  rw [beyond_some next, List.head?_cons]

/-- With no position next to a span there is no token outwards of it. -/
theorem outward_none (edge : side.nextPosition? span sentence.length = none) :
    sentence.outward side span = [] := by
  have edge := Side.nextPosition?_eq_none_iff.mp edge
  cases side with
  | left =>
    have start : span.first = 0 := edge
    simp [outward, start]
  | right =>
    have stop : sentence.tokens.length ≤ span.last + 1 := edge
    rw [outward, List.drop_eq_nil_of_le stop, List.zipIdx_nil]

/-- Outwards of a span stands the token next to it, and then what stands outwards of that token. -/
theorem outward_some {position : Nat} (first : span.first ≤ sentence.length)
    (next : side.nextPosition? span sentence.length = some position) :
    ∃ token, sentence.tokens[position]? = some token ∧
      sentence.outward side span =
        (token, position) :: sentence.outward side (span.stretch side position) := by
  obtain ⟨beside, within⟩ := Side.nextPosition?_eq_some_iff.mp next
  cases side with
  | left =>
    have same : position + 1 = span.first := beside
    have inside : position < sentence.tokens.length := by
      unfold length at first
      omega
    refine ⟨sentence.tokens[position], List.getElem?_eq_getElem inside, ?_⟩
    -- The tokens before the span end with the one next to it, under its own position.
    rw [outward, ← same, List.take_succ_eq_append_getElem inside, List.zipIdx_append,
      List.reverse_append, List.length_take, Nat.min_eq_left (Nat.le_of_lt inside), Nat.zero_add]
    rfl
  | right =>
    have same : span.last + 1 = position := beside
    have inside : position < sentence.tokens.length := within rfl
    refine ⟨sentence.tokens[position], List.getElem?_eq_getElem inside, ?_⟩
    rw [outward, same, List.drop_eq_getElem_cons inside, List.zipIdx_cons]
    rfl

end Sentence

/-- A run of admitted items is a part of the items. -/
theorem sublist_of_mem_runs {α : Type} {items : List (α × Bool)} {run : List α}
    (member : run ∈ runs items) : run.Sublist (items.map (·.1)) := by
  -- The run at the front starts with the first item, and the others are those of the tail.
  induction items with
  | nil =>
    obtain rfl : run = [] := by simpa [runs] using member
    exact List.Sublist.refl _
  | cons item items rest =>
    rw [runs_cons, List.mem_cons] at member
    rw [List.map_cons]
    rcases member with rfl | later
    · split
      · rw [headD_runs]
        exact ((List.takeWhile_sublist _).map _).cons_cons _
      · exact List.nil_sublist _
    · exact (rest later).cons _

namespace Surroundings

variable {admits : Token → Bool} {sentence : Sentence} {side : Side} {span : Span}

/-- The tokens outwards of a span are some of the tokens of the sentence, maybe from right to left. -/
theorem outward_sublist (admits : Token → Bool) (sentence : Sentence) (side : Side) (span : Span) :
    ((ofSentence admits sentence).outward side span).Sublist (match side with
      | .left => sentence.tokens.zipIdx.reverse
      | .right => sentence.tokens.zipIdx) := by
  -- Where the span lies outside the sentence, there is no run to be looked up.
  have found : ∀ (places : List (List (Token × Nat))) (place : Nat) (tokens : List (Token × Nat)),
      (∀ run ∈ places, run.Sublist tokens) → (places[place]?.getD []).Sublist tokens := by
    intro places place tokens each
    cases there : places[place]? with
    | none => exact List.nil_sublist _
    | some run => exact each run (List.mem_of_getElem? there)
  have stripped (items : List (Token × Nat)) :
      (flagged (fun item => admits item.1) items).map (·.1) = items := by
    rw [flagged, List.map_map]
    exact List.map_id _
  cases side with
  | left =>
    rw [outward, ofSentence, List.getElem?_toArray]
    refine found _ _ _ fun run member => ?_
    have part := sublist_of_mem_runs (List.mem_reverse.mp member)
    rwa [List.map_reverse, stripped] at part
  | right =>
    rw [outward, ofSentence, List.getElem?_toArray]
    refine found _ _ _ fun run member => ?_
    have part := sublist_of_mem_runs member
    rwa [stripped] at part

/-- There are no more tokens outwards of a span than there are in the sentence. -/
theorem length_outward_le_length :
    ((ofSentence admits sentence).outward side span).length ≤ sentence.length := by
  have part := (outward_sublist admits sentence side span).length_le
  cases side <;> simpa [Sentence.length] using part

/-- Every token that is met outwards of a span stands in the sentence. -/
theorem lt_of_mem_outward {next : Token × Nat}
    (met : next ∈ (ofSentence admits sentence).outward side span) :
    next.2 < sentence.length := by
  have listed : next ∈ sentence.tokens.zipIdx := by
    have part := (outward_sublist admits sentence side span).subset met
    cases side with
    | left => exact List.mem_reverse.mp part
    | right => exact part
  exact (List.getElem?_eq_some_iff.mp (List.mk_mem_zipIdx_iff_getElem?.mp listed)).1

end Surroundings

namespace Extractor

variable {extractor : Extractor} {sentence : Sentence} {side : Side} {span : Span}

/-- Whether the token at a position can take part in phrases and meets a slot for a word. -/
def eligible (extractor : Extractor) (sentence : Sentence) (component : Component)
    (position : Nat) : Bool :=
  match component, sentence.tokens[position]? with
  | .word slot, some token => extractor.admits token && slot.matchesToken token
  | _, _ => false

/-- The token at an eligible position can take part in phrases and meets the slot. -/
theorem eligible_word_iff {slot : WordSlot} {position : Nat} :
    extractor.eligible sentence (.word slot) position ↔
      ∃ token, sentence.tokens[position]? = some token ∧ extractor.admits token ∧
        slot.matchesToken token := by
  unfold eligible
  cases sentence.tokens[position]? <;> simp

/-- At a position with an admitted token, what counts is whether the token meets the slot. -/
theorem eligible_word_eq {slot : WordSlot} {position : Nat} {token : Token}
    (found : sentence.tokens[position]? = some token) (admits : extractor.admits token) :
    extractor.eligible sentence (.word slot) position = slot.matchesToken token := by
  simp [eligible, found, admits]

variable (extractor side) in
/-- Outwards of a span stands an admitted token, or nothing next to the span can take part. -/
theorem outward_cases (first : span.first ≤ span.last) (last : span.last < sentence.length) :
    (∃ token position, sentence.tokens[position]? = some token ∧ extractor.admits token ∧
        Span.Beside ⟨position, position⟩ span side ∧
        (extractor.surroundings sentence).outward side span =
          (token, position) ::
            (extractor.surroundings sentence).outward side (span.stretch side position) ∧
        sentence.beyond side span =
          position :: sentence.beyond side (span.stretch side position)) ∨
      ((extractor.surroundings sentence).outward side span = [] ∧
        ∀ component, ∀ position ∈ (sentence.beyond side span).head?,
          extractor.eligible sentence component position = false) := by
  have inside : span.first ≤ sentence.length := by omega
  rw [surroundings, Surroundings.outward_ofSentence _ _ _ _ inside last]
  -- What stands outwards is told by the position next to the span.
  cases next : side.nextPosition? span sentence.length with
  | none =>
    right
    rw [Sentence.outward_none next, Sentence.beyond_none next]
    exact ⟨rfl, by simp⟩
  | some position =>
    obtain ⟨token, found, outward⟩ := Sentence.outward_some inside next
    rw [outward, Sentence.beyond_some next]
    by_cases admits : extractor.admits token = true
    · left
      have beside := (Side.nextPosition?_eq_some_iff.mp next).1
      refine ⟨token, position, found, admits, beside, ?_, rfl⟩
      -- The span still lies in the sentence once it is stretched by one position.
      have stretched : (span.stretch side position).first ≤ sentence.length ∧
          (span.stretch side position).last < sentence.length := by
        have place := (List.getElem?_eq_some_iff.mp found).1
        cases side with
        | left => exact ⟨Nat.le_of_lt place, last⟩
        | right => exact ⟨inside, place⟩
      rw [List.takeWhile_cons_of_pos (by exact admits),
        Surroundings.outward_ofSentence _ _ _ _ stretched.1 stretched.2]
    · right
      -- A token that cannot take part hides all that stands behind it.
      rw [List.takeWhile_cons_of_neg (by exact admits)]
      refine ⟨rfl, fun component place member => ?_⟩
      obtain rfl : position = place := by simpa using member
      cases component with
      | word slot => simp [eligible, found, admits]
      | model slot => rfl

end Extractor

end PhraseGrammar
