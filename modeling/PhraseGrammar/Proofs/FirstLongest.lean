import Mathlib.Data.List.Basic
import Mathlib.Data.Nat.Find
import PhraseGrammar.Proofs.BoundaryReduction
import PhraseGrammar.Proofs.Extraction

/-! The reduction keeps the first of the longest phrases with each start, and no other phrase. -/

namespace PhraseGrammar.Phrase

/-- Whether the phrase at an index is the first one among the longest with its start. -/
structure FirstLongest (phrases : List Phrase) (index : Nat) (phrase : Phrase) : Prop where
  /-- The phrase stands at the index. -/
  stands : phrases[index]? = some phrase
  /-- No phrase with the same start ends later. -/
  longest : ∀ (place : Nat) (other : Phrase), phrases[place]? = some other →
    other.span.first = phrase.span.first → other.span.last ≤ phrase.span.last
  /-- A phrase with the same start that ends there as well does not stand before it. -/
  first : ∀ (place : Nat) (other : Phrase), phrases[place]? = some other →
    other.span.first = phrase.span.first → other.span.last = phrase.span.last → index ≤ place

/-- What is kept of some kept phrases and one more that comes after them. -/
def keepWith (kept : List Phrase) (next : Phrase) : List Phrase :=
  -- A phrase goes if the new one outlasts it, and the new one goes if some phrase lasts as long.
  kept.filter (fun phrase =>
      next.span.first = phrase.span.first → next.span.last ≤ phrase.span.last) ++
    if ∃ phrase ∈ kept,
        phrase.span.first = next.span.first ∧ next.span.last ≤ phrase.span.last then []
    else [next]

variable {phrases : List Phrase} {phrase other next : Phrase} {index place : Nat}

/-- With each start one phrase is the first of the longest. -/
theorem exists_firstLongest (member : phrase ∈ phrases) :
    ∃ longest place, longest.span.first = phrase.span.first ∧
      FirstLongest phrases place longest := by
  obtain ⟨longest, listed, start, bound⟩ := exists_longest member
  -- Several phrases may have the span of the longest one, so the first place of that span counts.
  have stands : ∃ place : Nat, phrases[place]?.map span = some longest.span := by
    obtain ⟨place, there⟩ := List.mem_iff_getElem?.mp listed
    exact ⟨place, congrArg (Option.map span) there⟩
  obtain ⟨kept, there, same⟩ := Option.map_eq_some_iff.mp (Nat.find_spec stands)
  refine ⟨kept, Nat.find stands, same ▸ start, there, fun _ other isOther starts => ?_,
    fun place other isOther starts ends => Nat.find_min' stands ?_⟩
  · rw [same] at starts ⊢
    exact bound other (List.mem_of_getElem? isOther) starts
  · rw [isOther, Option.map_some, ← same]
    exact congrArg some (congrArg₂ Span.mk starts ends)

/-- Of the phrases with one start only one is the first of the longest. -/
theorem FirstLongest.unique (here : FirstLongest phrases index phrase)
    (there : FirstLongest phrases place other) (same : other.span.first = phrase.span.first) :
    index = place := by
  have bound := here.longest place other there.stands same
  have boundToo := there.longest index phrase here.stands same.symm
  exact Nat.le_antisymm (here.first place other there.stands same (by omega))
    (there.first index phrase here.stands same.symm (by omega))

/-- A numbered phrase outlasts the others exactly if it is the first of the longest. -/
theorem outlasts_iff (stands : phrases[index]? = some phrase) :
    outlasts phrases.zipIdx (phrase, index) ↔ FirstLongest phrases index phrase := by
  rw [outlasts_zipIdx_iff]
  constructor
  · intro all
    exact ⟨stands, fun place other there start => (all place other there start).1,
      fun place other there start => (all place other there start).2⟩
  · intro isFirst place other there start
    exact ⟨isFirst.longest place other there start, isFirst.first place other there start⟩

/-- The reduction keeps the phrases at the indices of the first longest ones, in their order. -/
theorem exists_indices_reduceBoundaries (phrases : List Phrase) :
    ∃ indices : List Nat, indices.Pairwise (· < ·) ∧
      reduceBoundaries phrases = indices.filterMap (phrases[·]?) ∧
      ∀ index, index ∈ indices ↔ ∃ phrase, FirstLongest phrases index phrase := by
  refine ⟨(phrases.zipIdx.filter (outlasts phrases.zipIdx)).map Prod.snd, ?_, ?_, fun index => ?_⟩
  · exact List.pairwise_map.mpr ((pairwise_lt_zipIdx phrases).sublist List.filter_sublist)
  · -- At each index there stands the phrase that is numbered with it.
    rw [reduceBoundaries_eq, List.filterMap_map, ← List.filterMap_eq_map]
    refine List.filterMap_congr fun next member => ?_
    exact (List.mem_zipIdx_iff_getElem?.mp (List.mem_filter.mp member).1).symm
  · rw [List.mem_map]
    constructor
    · rintro ⟨⟨phrase, _⟩, member, rfl⟩
      obtain ⟨listed, kept⟩ := List.mem_filter.mp member
      have stands := List.mk_mem_zipIdx_iff_getElem?.mp listed
      exact ⟨phrase, (outlasts_iff stands).mp kept⟩
    · rintro ⟨phrase, isFirst⟩
      have listed := List.mk_mem_zipIdx_iff_getElem?.mpr isFirst.stands
      have kept := (outlasts_iff isFirst.stands).mpr isFirst
      exact ⟨(phrase, index), List.mem_filter.mpr ⟨listed, kept⟩, rfl⟩

/-- A phrase is kept exactly if it is the first of the longest ones at some index. -/
theorem mem_reduceBoundaries_iff :
    phrase ∈ reduceBoundaries phrases ↔ ∃ index, FirstLongest phrases index phrase := by
  obtain ⟨indices, _, same, exactly⟩ := exists_indices_reduceBoundaries phrases
  rw [same, List.mem_filterMap]
  constructor
  · rintro ⟨index, member, stands⟩
    obtain ⟨other, isFirst⟩ := (exactly index).mp member
    cases isFirst.stands.symm.trans stands
    exact ⟨index, isFirst⟩
  · rintro ⟨index, isFirst⟩
    exact ⟨index, (exactly index).mpr ⟨phrase, isFirst⟩, isFirst.stands⟩

/-- No two phrases that are kept have the same start. -/
theorem pairwise_reduceBoundaries (phrases : List Phrase) :
    (reduceBoundaries phrases).Pairwise fun kept other => kept.span.first ≠ other.span.first := by
  obtain ⟨indices, ordered, same, exactly⟩ := exists_indices_reduceBoundaries phrases
  rw [same, List.pairwise_filterMap]
  refine ordered.imp_of_mem fun {index place} member memberToo before => ?_
  intro kept stands other standsToo start
  obtain ⟨_, isFirst⟩ := (exactly index).mp member
  obtain ⟨_, isFirstToo⟩ := (exactly place).mp memberToo
  cases isFirst.stands.symm.trans stands
  cases isFirstToo.stands.symm.trans standsToo
  exact absurd (isFirst.unique isFirstToo start.symm) (Nat.ne_of_lt before)

/-- Every phrase has a kept one with its start that ends no earlier. -/
theorem exists_survivor (member : phrase ∈ phrases) :
    ∃ survivor ∈ reduceBoundaries phrases,
      survivor.span.first = phrase.span.first ∧ phrase.span.last ≤ survivor.span.last := by
  obtain ⟨index, stands⟩ := List.mem_iff_getElem?.mp member
  obtain ⟨longest, place, start, isFirst⟩ := exists_firstLongest member
  exact ⟨longest, mem_reduceBoundaries_iff.mpr ⟨place, isFirst⟩, start,
    isFirst.longest index phrase stands start.symm⟩

/-- Of the phrases with the start of one of them, a single one is kept. -/
theorem filter_reduceBoundaries (member : phrase ∈ phrases) :
    ∃ index longest, FirstLongest phrases index longest ∧
      (reduceBoundaries phrases).filter (fun kept => kept.span.first = phrase.span.first) =
        [longest] := by
  obtain ⟨longest, isKept, start, _⟩ := exists_survivor member
  obtain ⟨index, isFirst⟩ := mem_reduceBoundaries_iff.mp isKept
  obtain ⟨before, after, split⟩ := List.append_of_mem isKept
  have apart := pairwise_reduceBoundaries phrases
  rw [split] at apart
  obtain ⟨_, behind, ahead⟩ := List.pairwise_append.mp apart
  -- The phrases before the kept one and those behind it have other starts.
  have noneBefore : before.filter (fun kept => kept.span.first = phrase.span.first) = [] := by
    refine List.filter_eq_nil_iff.mpr fun kept listed same => ?_
    exact ahead kept listed longest List.mem_cons_self ((of_decide_eq_true same).trans start.symm)
  have noneAfter : after.filter (fun kept => kept.span.first = phrase.span.first) = [] := by
    refine List.filter_eq_nil_iff.mpr fun kept listed same => ?_
    exact (List.pairwise_cons.mp behind).1 kept listed (start.trans (of_decide_eq_true same).symm)
  refine ⟨index, longest, isFirst, ?_⟩
  rw [split, List.filter_append, noneBefore,
    List.filter_cons_of_pos (by exact decide_eq_true start),
    noneAfter, List.nil_append]

/-- Phrases that all have starts of their own are kept as they are. -/
theorem reduceBoundaries_eq_self
    (apart : phrases.Pairwise fun phrase other => phrase.span.first ≠ other.span.first) :
    reduceBoundaries phrases = phrases := by
  have distinct : (phrases.map fun phrase => phrase.span.first).Nodup :=
    List.pairwise_map.mpr apart
  have kept : ∀ next ∈ phrases.zipIdx, outlasts phrases.zipIdx next := by
    rintro ⟨phrase, index⟩ member
    have stands := List.mk_mem_zipIdx_iff_getElem?.mp member
    have inside := (List.getElem?_eq_some_iff.mp stands).1
    -- A phrase with the same start is the phrase itself.
    have alone (place : Nat) (other : Phrase) (there : phrases[place]? = some other)
        (same : other.span.first = phrase.span.first) : index = place := by
      refine (List.getElem?_inj (by rwa [List.length_map]) distinct).mp ?_
      rw [List.getElem?_map, List.getElem?_map, stands, there, Option.map_some, Option.map_some,
        same]
    refine (outlasts_iff stands).mpr ⟨stands, fun place other there same => ?_,
      fun place other there same _ => Nat.le_of_eq (alone place other there same)⟩
    obtain rfl := alone place other there same
    cases stands.symm.trans there
    exact Nat.le_refl _
  rw [reduceBoundaries_eq, List.filter_eq_self.mpr kept, List.zipIdx_map_fst]

/-- To reduce what has been reduced changes nothing. -/
theorem reduceBoundaries_idem (phrases : List Phrase) :
    reduceBoundaries (reduceBoundaries phrases) = reduceBoundaries phrases :=
  reduceBoundaries_eq_self (pairwise_reduceBoundaries phrases)

/-- A phrase stays the first of the longest if the one that comes after all does not outlast it. -/
theorem firstLongest_concat_iff (inside : index < phrases.length) :
    FirstLongest (phrases ++ [next]) index phrase ↔ FirstLongest phrases index phrase ∧
      (next.span.first = phrase.span.first → next.span.last ≤ phrase.span.last) := by
  constructor
  · intro isFirst
    have earlier {place : Nat} {other : Phrase} (there : phrases[place]? = some other) :
        (phrases ++ [next])[place]? = some other := by
      rw [List.getElem?_append_left (List.getElem?_eq_some_iff.mp there).1, there]
    refine ⟨⟨?_, fun place other there => isFirst.longest place other (earlier there),
      fun place other there => isFirst.first place other (earlier there)⟩,
      isFirst.longest phrases.length next List.getElem?_concat_length⟩
    rw [← List.getElem?_append_left inside, isFirst.stands]
  · rintro ⟨isFirst, lasting⟩
    -- What stands at a place was there before, or it is the phrase that has come last.
    have cases (place : Nat) (other : Phrase) (there : (phrases ++ [next])[place]? = some other) :
        phrases[place]? = some other ∨ place = phrases.length ∧ other = next := by
      rw [List.getElem?_append] at there
      split at there
      · exact .inl there
      · have zero : place - phrases.length = 0 := by
          have bound := (List.getElem?_eq_some_iff.mp there).1
          rw [List.length_singleton] at bound
          omega
        rw [zero] at there
        cases there
        exact .inr ⟨by omega, rfl⟩
    refine ⟨?_, fun place other there same => ?_, fun place other there same ends => ?_⟩
    · rw [List.getElem?_append_left inside, isFirst.stands]
    · rcases cases place other there with before | ⟨_, rfl⟩
      · exact isFirst.longest place other before same
      · exact lasting same
    · rcases cases place other there with before | ⟨rfl, _⟩
      · exact isFirst.first place other before same ends
      · exact Nat.le_of_lt inside

/-- The phrase that comes last is the first of the longest if no other one with its start lasts as
long. -/
theorem firstLongest_last_iff :
    FirstLongest (phrases ++ [next]) phrases.length next ↔
      ∀ phrase ∈ phrases, phrase.span.first = next.span.first →
        phrase.span.last < next.span.last := by
  constructor
  · intro isFirst phrase member start
    obtain ⟨place, stands⟩ := List.mem_iff_getElem?.mp member
    have inside := (List.getElem?_eq_some_iff.mp stands).1
    have there : (phrases ++ [next])[place]? = some phrase := by
      rw [List.getElem?_append_left inside, stands]
    have bound := isFirst.longest place phrase there start
    -- Were the ends equal, the phrase that comes last would not be the first one.
    have other : phrase.span.last ≠ next.span.last := fun same =>
      absurd (isFirst.first place phrase there start same) (Nat.not_le_of_lt inside)
    omega
  · intro outlasts
    refine ⟨List.getElem?_concat_length, fun place other there same => ?_,
      fun place other there same ends => ?_⟩
    · rcases List.mem_append.mp (List.mem_of_getElem? there) with before | last
      · exact Nat.le_of_lt (outlasts other before same)
      · cases List.mem_singleton.mp last
        exact Nat.le_refl _
    · by_contra before
      rw [Nat.not_le] at before
      rw [List.getElem?_append_left before] at there
      exact absurd ends (Nat.ne_of_lt (outlasts other (List.mem_of_getElem? there) same))

/-- Of phrases with one more after them, what is kept follows from what was kept of the others. -/
theorem reduceBoundaries_concat (phrases : List Phrase) (next : Phrase) :
    reduceBoundaries (phrases ++ [next]) = keepWith (reduceBoundaries phrases) next := by
  rw [reduceBoundaries_eq (phrases ++ [next]), zipIdx_concat, List.filter_append, List.map_append,
    ← zipIdx_concat, keepWith]
  congr 1
  · -- Of the phrases that were there, those stay kept that are not outlasted.
    rw [reduceBoundaries_eq, List.filter_map, List.filter_filter]
    refine congrArg _ (List.filter_congr fun ⟨phrase, index⟩ member => ?_)
    have stands := List.mk_mem_zipIdx_iff_getElem?.mp member
    have inside := (List.getElem?_eq_some_iff.mp stands).1
    have there : (phrases ++ [next])[index]? = some phrase := by
      rw [List.getElem?_append_left inside, stands]
    rw [Bool.eq_iff_iff, Bool.and_eq_true, outlasts_iff there, outlasts_iff stands,
      firstLongest_concat_iff inside, Function.comp_apply, decide_eq_true_eq, and_comm]
  · -- Whether some phrase lasts as long can be told from those that are kept.
    have kept : (∃ phrase ∈ reduceBoundaries phrases, phrase.span.first = next.span.first ∧
        next.span.last ≤ phrase.span.last) ↔
          ¬outlasts (phrases ++ [next]).zipIdx (next, phrases.length) := by
      rw [outlasts_iff List.getElem?_concat_length, firstLongest_last_iff]
      simp only [not_forall, Nat.not_lt, exists_prop]
      constructor
      · rintro ⟨phrase, member, start, lasting⟩
        exact ⟨phrase, (reduceBoundaries_sublist phrases).subset member, start, lasting⟩
      · rintro ⟨phrase, member, start, lasting⟩
        obtain ⟨survivor, isKept, same, bound⟩ := exists_survivor member
        exact ⟨survivor, isKept, same.trans start, Nat.le_trans lasting bound⟩
    by_cases outlasted : outlasts (phrases ++ [next]).zipIdx (next, phrases.length) = true
    · rw [List.filter_cons_of_pos outlasted, if_neg fun some => kept.mp some outlasted]
      rfl
    · rw [List.filter_cons_of_neg outlasted, if_pos (kept.mpr outlasted)]
      rfl

/-- What is kept of further phrases after others follows from what was kept of the others. -/
theorem reduceBoundaries_append_eq_foldl (phrases others : List Phrase) :
    reduceBoundaries (phrases ++ others) = others.foldl keepWith (reduceBoundaries phrases) := by
  induction others using List.reverseRecOn with
  | nil => rw [List.append_nil, List.foldl_nil]
  | append_singleton others next rest =>
    rw [← List.append_assoc, reduceBoundaries_concat, rest, List.foldl_append, List.foldl_cons,
      List.foldl_nil]

/-- Phrases can be reduced before others come after them. -/
theorem reduceBoundaries_append (phrases others : List Phrase) :
    reduceBoundaries (phrases ++ others) =
      reduceBoundaries (reduceBoundaries phrases ++ others) := by
  rw [reduceBoundaries_append_eq_foldl, reduceBoundaries_append_eq_foldl, reduceBoundaries_idem]

/-- The reduction keeps the first of the longest phrases with each start, and nothing else. -/
theorem reduceBoundaries_keeps_firstLongest (phrases : List Phrase) :
    (reduceBoundaries phrases).Sublist phrases ∧
    (∃ indices : List Nat, indices.Pairwise (· < ·) ∧
      reduceBoundaries phrases = indices.filterMap (phrases[·]?) ∧
      ∀ index, index ∈ indices ↔ ∃ phrase, FirstLongest phrases index phrase) ∧
    (∀ phrase ∈ phrases, ∃ index longest, FirstLongest phrases index longest ∧
      (reduceBoundaries phrases).filter (fun kept => kept.span.first = phrase.span.first) =
        [longest]) ∧
    reduceBoundaries (reduceBoundaries phrases) = reduceBoundaries phrases ∧
    ((reduceBoundaries phrases).Pairwise fun kept other => kept.span.first ≠ other.span.first) ∧
    (∀ phrase ∈ phrases, ∃ survivor ∈ reduceBoundaries phrases,
      survivor.span.first = phrase.span.first ∧ phrase.span.last ≤ survivor.span.last) ∧
    ∀ others : List Phrase, reduceBoundaries (phrases ++ others) =
      reduceBoundaries (reduceBoundaries phrases ++ others) :=
  ⟨reduceBoundaries_sublist phrases, exists_indices_reduceBoundaries phrases,
    fun _ => filter_reduceBoundaries, reduceBoundaries_idem phrases,
    pairwise_reduceBoundaries phrases, fun _ => exists_survivor, reduceBoundaries_append phrases⟩

/-- Two phrases of the same span are as long as each other, and the first of them is kept. -/
theorem reduceBoundaries_keeps_firstLongest_sameSpan :
    let phrase (pattern : String) (first last : Nat) : Phrase :=
      ⟨⟨first, last⟩, .single ⟨"cat", []⟩, pattern, 1, 1, none⟩
    let phrases := [phrase "noun" 0 1, phrase "noun" 1 2, phrase "described noun" 0 2,
      phrase "noun" 0 2]
    (phrase "noun" 0 1) ∈ phrases ∧
      (reduceBoundaries phrases).map (fun kept => (kept.pattern, kept.span)) =
        [("noun", ⟨1, 2⟩), ("described noun", ⟨0, 2⟩)] ∧
      ∃ survivor ∈ reduceBoundaries phrases,
        survivor.span.first = 0 ∧ 1 ≤ survivor.span.last := by
  intro phrase phrases
  have member : phrase "noun" 0 1 ∈ phrases := List.mem_cons_self
  obtain ⟨_, _, _, _, _, survives, _⟩ := reduceBoundaries_keeps_firstLongest phrases
  have kept : reduceBoundaries phrases = phrases.foldl keepWith (reduceBoundaries []) :=
    reduceBoundaries_append_eq_foldl [] phrases
  exact ⟨member, by rw [kept]; rfl, survives _ member⟩

end PhraseGrammar.Phrase
