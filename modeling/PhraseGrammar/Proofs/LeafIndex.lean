import Mathlib.Data.List.Basic
import PhraseGrammar.LeafIndex
import PhraseGrammar.Proofs.Occurrence

/-! The index of phrases finds what a scan over all of them would find. -/

namespace PhraseGrammar

/-- Whether one span lies beside another is a comparison of two positions. -/
instance (run span : Span) (side : Side) : Decidable (run.Beside span side) :=
  match side with
  | .left => inferInstanceAs (Decidable (run.last + 1 = span.first))
  | .right => inferInstanceAs (Decidable (span.last + 1 = run.first))

namespace LeafIndex

/-- A map filled from the end of a list has the items with each key in the order of the list. -/
theorem getD_foldr_insert (key : Phrase × Nat → Nat) (numbered : List (Phrase × Nat))
    (position : Nat) :
    (numbered.foldr (fun next (byKey : Std.HashMap Nat (List (Phrase × Nat))) =>
        byKey.insert (key next) (next :: byKey.getD (key next) [])) ∅).getD position [] =
      numbered.filter fun next => key next = position := by
  -- The list is gone through from its end, so the first item is put in last.
  induction numbered with
  | nil => simp
  | cons next numbered rest =>
    simp only [List.foldr_cons, Std.HashMap.getD_insert, beq_iff_eq]
    by_cases here : key next = position
    · -- The item is put in front of what stands under its own key.
      subst here
      simp [rest]
    · simp [here, rest]

/-- Under each first position stand the phrases that start there, in order. -/
theorem getD_byFirst (numbered : List (Phrase × Nat)) (position : Nat) :
    (numbered.foldr add empty).byFirst.getD position [] =
      numbered.filter fun next => next.1.span.first = position := by
  rw [← getD_foldr_insert fun next => next.1.span.first]
  congr 1
  -- Each of the two maps is filled without a look at the other one.
  induction numbered with
  | nil => rfl
  | cons next numbered rest => simp only [List.foldr_cons, add, rest]

/-- Under each last position stand the phrases that end there, in order. -/
theorem getD_byLast (numbered : List (Phrase × Nat)) (position : Nat) :
    (numbered.foldr add empty).byLast.getD position [] =
      numbered.filter fun next => next.1.span.last = position := by
  rw [← getD_foldr_insert fun next => next.1.span.last]
  congr 1
  -- The map by last position is filled apart from the other one, too.
  induction numbered with
  | nil => rfl
  | cons next numbered rest => simp only [List.foldr_cons, add, rest]

/-- The phrases that touch a span on a side are those beside it, each with its number, in order. -/
theorem adjacent_ofList (phrases : List Phrase) (side : Side) (span : Span) :
    (ofList phrases).adjacent side span =
      phrases.zipIdx.filter fun next => next.1.span.Beside span side := by
  cases side with
  | left =>
    -- Nothing ends before the first position of a sentence.
    by_cases edge : span.first = 0
    · simp [adjacent, edge, Span.Beside]
    · rw [adjacent, if_neg edge, ofList, getD_byLast]
      refine List.filter_congr fun next _ => decide_eq_decide.mpr ?_
      show next.1.span.last = span.first - 1 ↔ next.1.span.last + 1 = span.first
      omega
  | right =>
    -- To the right no edge has to be asked for, as no phrase starts beyond it.
    rw [adjacent, ofList, getD_byFirst]
    refine List.filter_congr fun next _ => decide_eq_decide.mpr ?_
    show next.1.span.first = span.last + 1 ↔ span.last + 1 = next.1.span.first
    omega

/-- A phrase touches a span exactly if the list has it under its number, and beside the span. -/
theorem mem_adjacent_ofList {phrases : List Phrase} {side : Side} {span : Span} {phrase : Phrase}
    {number : Nat} :
    (phrase, number) ∈ (ofList phrases).adjacent side span ↔
      phrases[number]? = some phrase ∧ phrase.span.Beside span side := by
  rw [adjacent_ofList, List.mem_filter, List.mk_mem_zipIdx_iff_getElem?, decide_eq_true_eq]

end LeafIndex

end PhraseGrammar
