import Mathlib.Data.List.Forall2
import Mathlib.Data.List.Induction
import PhraseGrammar.BoundaryReduction

/-! Which phrases stay in the reduction is a matter of where they stand and of their order. -/

namespace PhraseGrammar.Phrase

/-- The ends of the phrases with a start. -/
def endsAt (phrases : List Phrase) (start : Nat) : List Nat :=
  (phrases.filter fun phrase => phrase.span.first = start).map fun phrase => phrase.span.last

/-- An end is listed if some phrase with the start has it. -/
theorem mem_endsAt {phrases : List Phrase} {start last : Nat} :
    last ∈ endsAt phrases start ↔
      ∃ phrase ∈ phrases, phrase.span.first = start ∧ phrase.span.last = last := by
  simp [endsAt, and_assoc]

/-- Of the end that is known for a start and of those of further phrases the greatest is kept. -/
theorem getElem?_foldl_addEnd (phrases : List Phrase) (ends : Std.HashMap Nat Nat) (start : Nat) :
    (phrases.foldl addEnd ends)[start]? = (ends[start]?.toList ++ endsAt phrases start).max? := by
  induction phrases generalizing ends with
  | nil => cases known : ends[start]? <;> simp [endsAt, known]
  | cons next phrases rest =>
    rw [List.foldl_cons, rest, addEnd, Std.HashMap.getElem?_insert,
      Std.HashMap.getD_eq_getD_getElem?]
    by_cases here : next.span.first = start
    · subst here
      rw [if_pos (beq_self_eq_true _), endsAt, endsAt, List.filter_cons_of_pos (by simp)]
      -- The end of the phrase is compared with the one that is known, if there is any.
      cases ends[next.span.first]? with
      | none =>
        rw [Option.getD_none, Nat.max_self]
        rfl
      | some last => rfl
    · rw [if_neg (by simpa using here), endsAt, endsAt, List.filter_cons_of_neg (by simpa using here)]

/-- For each start the greatest end of the phrases there is known. -/
theorem getElem?_greatestEnds (phrases : List Phrase) (start : Nat) :
    (greatestEnds phrases)[start]? = (endsAt phrases start).max? := by
  rw [greatestEnds, getElem?_foldl_addEnd, Std.HashMap.getElem?_empty]
  rfl

/-- The end of a phrase is the greatest one if no phrase with its start ends later. -/
theorem getElem?_greatestEnds_iff {phrases : List Phrase} {phrase : Phrase}
    (member : phrase ∈ phrases) :
    (greatestEnds phrases)[phrase.span.first]? = some phrase.span.last ↔
      ∀ other ∈ phrases, other.span.first = phrase.span.first →
        other.span.last ≤ phrase.span.last := by
  rw [getElem?_greatestEnds, List.max?_eq_some_iff]
  constructor
  · rintro ⟨_, greatest⟩ other listed same
    exact greatest _ (mem_endsAt.mpr ⟨other, listed, same, rfl⟩)
  · intro greatest
    refine ⟨mem_endsAt.mpr ⟨phrase, member, rfl, rfl⟩, fun last listed => ?_⟩
    obtain ⟨other, isOther, same, rfl⟩ := mem_endsAt.mp listed
    exact greatest other isOther same

/-- Some phrase with the start of another one ends no earlier than all that start there. -/
theorem exists_longest {phrases : List Phrase} {phrase : Phrase} (member : phrase ∈ phrases) :
    ∃ longest ∈ phrases, longest.span.first = phrase.span.first ∧
      ∀ other ∈ phrases, other.span.first = longest.span.first →
        other.span.last ≤ longest.span.last := by
  obtain ⟨last, greatest⟩ := Option.isSome_iff_exists.mp
    (List.isSome_max?_of_mem (mem_endsAt.mpr ⟨phrase, member, rfl, rfl⟩))
  obtain ⟨listed, bound⟩ := List.max?_eq_some_iff.mp greatest
  obtain ⟨longest, isListed, start, rfl⟩ := mem_endsAt.mp listed
  refine ⟨longest, isListed, start, fun other isOther same => ?_⟩
  exact bound _ (mem_endsAt.mpr ⟨other, isOther, same.trans start, rfl⟩)

/-- A phrase that comes after others is numbered behind them. -/
theorem zipIdx_concat (phrases : List Phrase) (next : Phrase) :
    (phrases ++ [next]).zipIdx = phrases.zipIdx ++ [(next, phrases.length)] := by
  rw [List.zipIdx_append, Nat.zero_add]
  rfl

section SecondPass

variable {ends : Std.HashMap Nat Nat} {phrases : List Phrase}

/-- Of the spans with greatest ends those of the phrases that were gone through are kept. -/
theorem mem_spans_foldl_add {span : Span} (greatest : ends[span.first]? = some span.last) :
    span ∈ (phrases.foldl (Kept.add ends) {}).spans ↔ span ∈ phrases.map Phrase.span := by
  -- Each phrase meets what has been kept of those before it, so the induction is at the end.
  induction phrases using List.reverseRecOn with
  | nil => simp
  | append_singleton phrases next rest =>
    rw [List.foldl_append, List.foldl_cons, List.foldl_nil, Kept.add, List.map_append,
      List.mem_append, ← rest, List.map_singleton, List.mem_singleton]
    split
    · rw [Std.HashSet.mem_insert, beq_iff_eq, or_comm, eq_comm]
    · rename_i stays
      refine ⟨.inl, ?_⟩
      rintro (kept | rfl)
      · exact kept
      · simpa [greatest] using stays

/-- Whether a numbered phrase has the greatest end with its start, and no phrase before it its span. -/
def Stays (ends : Std.HashMap Nat Nat) (phrases : List Phrase) (next : Phrase × Nat) : Prop :=
  ends[next.1.span.first]? = some next.1.span.last ∧
    next.1.span ∉ (phrases.take next.2).map Phrase.span

instance (next : Phrase × Nat) : Decidable (Stays ends phrases next) :=
  inferInstanceAs (Decidable (_ ∧ _))

/-- Whether a phrase stays does not depend on the phrases behind it. -/
theorem stays_concat_iff {next : Phrase} {earlier : Phrase × Nat}
    (member : earlier ∈ phrases.zipIdx) :
    Stays ends (phrases ++ [next]) earlier ↔ Stays ends phrases earlier := by
  have before : earlier.2 ≤ phrases.length := Nat.le_of_lt (List.snd_lt_of_mem_zipIdx member)
  rw [Stays, Stays, List.take_append_of_le_length before]

/-- The phrase behind others is kept if it stays where it stands. -/
theorem phrases_add_foldl_add (next : Phrase) :
    (Kept.add ends (phrases.foldl (Kept.add ends) {}) next).phrases.toList =
      (phrases.foldl (Kept.add ends) {}).phrases.toList ++
        if Stays ends (phrases ++ [next]) (next, phrases.length) then [next] else [] := by
  have stays : (ends[next.span.first]? = some next.span.last &&
      !(phrases.foldl (Kept.add ends) {}).spans.contains next.span) =
        decide (Stays ends (phrases ++ [next]) (next, phrases.length)) := by
    rw [Bool.eq_iff_iff, Bool.and_eq_true, decide_eq_true_eq, decide_eq_true_eq,
      Bool.not_eq_true', ← Bool.not_eq_true, Std.HashSet.contains_iff_mem, Stays, List.take_left]
    exact and_congr_right fun greatest => not_congr (mem_spans_foldl_add greatest)
  rw [Kept.add, stays]
  by_cases kept : Stays ends (phrases ++ [next]) (next, phrases.length)
  · rw [if_pos (decide_eq_true kept), if_pos kept, Array.toList_push]
  · rw [if_neg (by simpa using kept), if_neg kept, List.append_nil]

/-- The second pass keeps the phrases that stay where they stand. -/
theorem phrases_foldl_add :
    (phrases.foldl (Kept.add ends) {}).phrases.toList =
      (phrases.zipIdx.filter (Stays ends phrases ·)).map (·.1) := by
  induction phrases using List.reverseRecOn with
  | nil => rfl
  | append_singleton phrases next rest =>
    -- What was kept stays, since nothing that comes behind it counts.
    have before : (phrases.zipIdx.filter (Stays ends (phrases ++ [next]) ·)) =
        phrases.zipIdx.filter (Stays ends phrases ·) :=
      List.filter_congr fun _ member => decide_eq_decide.mpr (stays_concat_iff member)
    rw [List.foldl_append, List.foldl_cons, List.foldl_nil, phrases_add_foldl_add, zipIdx_concat,
      List.filter_append, before, List.map_append, rest]
    congr 1
    by_cases stays : Stays ends (phrases ++ [next]) (next, phrases.length)
    · rw [if_pos stays, List.filter_cons_of_pos (by exact decide_eq_true stays)]
      rfl
    · rw [if_neg stays, List.filter_cons_of_neg (by simpa using stays)]
      rfl

end SecondPass

/-- Whether no other numbered phrase with the start of one ends later, or there and before it. -/
def outlasts (numbered : List (Phrase × Nat)) (next : Phrase × Nat) : Bool :=
  numbered.all fun other => other.1.span.first = next.1.span.first →
    other.1.span.last ≤ next.1.span.last ∧
      (other.1.span.last = next.1.span.last → next.2 ≤ other.2)

/-- A numbered phrase outlasts phrases if it does so wherever another one stands. -/
theorem outlasts_zipIdx_iff {phrases : List Phrase} {next : Phrase × Nat} :
    outlasts phrases.zipIdx next ↔ ∀ (place : Nat) (other : Phrase), phrases[place]? = some other →
      other.span.first = next.1.span.first → other.span.last ≤ next.1.span.last ∧
        (other.span.last = next.1.span.last → next.2 ≤ place) := by
  rw [outlasts, List.all_eq_true]
  constructor
  · intro all place other stands
    exact of_decide_eq_true (all (other, place) (List.mk_mem_zipIdx_iff_getElem?.mpr stands))
  · rintro all ⟨other, place⟩ member
    exact decide_eq_true (all place other (List.mk_mem_zipIdx_iff_getElem?.mp member))

/-- Among the phrases with greatest ends, those that stay are the ones that outlast the others. -/
theorem stays_greatestEnds_iff {phrases : List Phrase} {next : Phrase × Nat}
    (member : next ∈ phrases.zipIdx) :
    Stays (greatestEnds phrases) phrases next ↔ outlasts phrases.zipIdx next := by
  have listed : next.1 ∈ phrases := List.fst_mem_of_mem_zipIdx member
  rw [Stays, getElem?_greatestEnds_iff listed, outlasts_zipIdx_iff]
  constructor
  · rintro ⟨longest, fresh⟩ place other stands start
    refine ⟨longest other (List.mem_of_getElem? stands) start, fun last => ?_⟩
    -- A phrase of the same span does not stand before.
    by_contra before
    refine fresh (List.mem_map.mpr ⟨other, List.mem_of_getElem? (i := place) ?_, ?_⟩)
    · rw [List.getElem?_take_of_lt (Nat.lt_of_not_le before), stands]
    · exact congrArg₂ Span.mk start last
  · intro all
    constructor
    · intro other isOther start
      obtain ⟨place, stands⟩ := List.mem_iff_getElem?.mp isOther
      exact (all place other stands start).1
    · intro met
      obtain ⟨other, before, same⟩ := List.mem_map.mp met
      obtain ⟨place, stands⟩ := List.mem_iff_getElem?.mp before
      rw [List.getElem?_take] at stands
      split at stands
      · rename_i earlier
        have behind := (all place other stands (congrArg Span.first same)).2
          (congrArg Span.last same)
        exact absurd earlier (Nat.not_lt.mpr behind)
      · cases stands

/-- The reduction keeps the phrases that outlast the others with their starts. -/
theorem reduceBoundaries_eq (phrases : List Phrase) :
    reduceBoundaries phrases = (phrases.zipIdx.filter (outlasts phrases.zipIdx)).map (·.1) := by
  rw [reduceBoundaries, phrases_foldl_add]
  refine congrArg _ (List.filter_congr fun next member => ?_)
  rw [Bool.eq_iff_iff, decide_eq_true_eq, stays_greatestEnds_iff member]

/-- The reduction keeps some of the phrases, in their order. -/
theorem reduceBoundaries_sublist (phrases : List Phrase) :
    (reduceBoundaries phrases).Sublist phrases := by
  -- Phrases are numbered, filtered and stripped of their numbers again.
  have kept : ((phrases.zipIdx.filter (outlasts phrases.zipIdx)).map Prod.fst).Sublist
      (phrases.zipIdx.map Prod.fst) := List.filter_sublist.map Prod.fst
  rwa [List.zipIdx_map_fst, ← reduceBoundaries_eq] at kept

/-- To outlast some phrases and others is to outlast them all. -/
theorem outlasts_append (numbered others : List (Phrase × Nat)) (next : Phrase × Nat) :
    outlasts (numbered ++ others) next = (outlasts numbered next && outlasts others next) :=
  List.all_append

/-- A phrase outlasts all phrases with other starts. -/
theorem outlasts_of_apart {numbered : List (Phrase × Nat)} {next : Phrase × Nat}
    (apart : ∀ other ∈ numbered, other.1.span.first ≠ next.1.span.first) :
    outlasts numbered next :=
  List.all_eq_true.mpr fun other member => decide_eq_true fun same =>
    absurd same (apart other member)

/-- Whether what is kept of some phrases corresponds to what is kept of others. -/
structure Kept.Alike (related : Phrase → Phrase → Prop) (kept other : Kept) : Prop where
  /-- The phrases correspond one by one. -/
  phrases : List.Forall₂ related kept.phrases.toList other.phrases.toList
  /-- They are kept for the same spans. -/
  spans : kept.spans = other.spans

section Reduction

variable {related : Phrase → Phrase → Prop} {phrases others : List Phrase}
  (spans : ∀ phrase other, related phrase other → phrase.span = other.span)
include spans

/-- Of phrases that correspond both are kept or none is. -/
theorem Kept.Alike.add {kept other : Kept} (alike : kept.Alike related other)
    (ends : Std.HashMap Nat Nat) {phrase counterpart : Phrase} (both : related phrase counterpart) :
    (kept.add ends phrase).Alike related (other.add ends counterpart) := by
  rw [Kept.add, Kept.add, spans _ _ both, alike.spans]
  split
  · refine ⟨?_, rfl⟩
    rw [Array.toList_push, Array.toList_push]
    exact List.rel_append alike.phrases (.cons both .nil)
  · exact alike

variable (each : List.Forall₂ related phrases others)
include each

/-- Phrases that stand in the same places have the same greatest ends. -/
theorem greatestEnds_congr : greatestEnds phrases = greatestEnds others := by
  have step : ∀ ⦃ends known : Std.HashMap Nat Nat⦄, ends = known →
      ∀ ⦃phrase counterpart⦄, related phrase counterpart →
        addEnd ends phrase = addEnd known counterpart := by
    rintro ends _ rfl phrase counterpart both
    rw [addEnd, addEnd, spans phrase counterpart both]
  exact List.rel_foldl step rfl each

/-- Phrases that stand in the same places one by one are reduced alike. -/
theorem rel_reduceBoundaries :
    List.Forall₂ related (reduceBoundaries phrases) (reduceBoundaries others) := by
  have step : ∀ ⦃kept other⦄, Kept.Alike related kept other →
      ∀ ⦃phrase counterpart⦄, related phrase counterpart →
        (kept.add (greatestEnds others) phrase).Alike related
          (other.add (greatestEnds others) counterpart) :=
    fun _ _ alike _ _ both => alike.add spans _ both
  rw [reduceBoundaries, reduceBoundaries, greatestEnds_congr spans each]
  exact (List.rel_foldl step ⟨.nil, rfl⟩ each).phrases

end Reduction

end PhraseGrammar.Phrase
