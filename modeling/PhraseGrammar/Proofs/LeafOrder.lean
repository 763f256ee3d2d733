import PhraseGrammar.Proofs.HeadSource
import PhraseGrammar.Proofs.RegistryView

/-! Phrases of words are listed by head and by pattern, and those of one head and pattern grow. -/

namespace PhraseGrammar

/-- Whether a span has all the positions of another one, and more. -/
def Span.Exceeds (outer inner : Span) : Prop :=
  outer.first ≤ inner.first ∧ inner.last ≤ outer.last ∧ outer ≠ inner

/-- Whether a position lies further out on a side than another one. -/
def Side.Passes (side : Side) (far near : Nat) : Prop :=
  match side with
  | .left => far < near
  | .right => near < far

namespace Span

variable {side : Side} {span inner middle outer : Span}

/-- A span that has more than one that has more than a third has more than the third. -/
theorem Exceeds.trans (far : outer.Exceeds middle) (near : middle.Exceeds inner) :
    outer.Exceeds inner := by
  obtain ⟨firstFar, lastFar, differs⟩ := far
  obtain ⟨firstNear, lastNear, _⟩ := near
  refine ⟨firstFar.trans firstNear, lastNear.trans lastFar, ?_⟩
  rintro rfl
  -- The span in the middle would lie between two that are the same.
  refine differs ?_
  have firsts : outer.first = middle.first := Nat.le_antisymm firstFar firstNear
  have lasts : outer.last = middle.last := Nat.le_antisymm lastNear lastFar
  cases outer
  cases middle
  simp_all

/-- A span has more once it is stretched to a position further out. -/
theorem exceeds_stretch {position : Nat} (passes : side.Passes position (span.reach side)) :
    (span.stretch side position).Exceeds span := by
  cases side with
  | left =>
    have passes : position < span.first := passes
    refine ⟨Nat.le_of_lt passes, Nat.le_refl _, fun same => ?_⟩
    exact absurd (congrArg Span.first same) (Nat.ne_of_lt passes)
  | right =>
    have passes : span.last < position := passes
    refine ⟨Nat.le_refl _, Nat.le_of_lt passes, fun same => ?_⟩
    exact absurd (congrArg Span.last same) (Nat.ne_of_gt passes)

/-- Stretched to positions one further out than the other, a span has more each time. -/
theorem pairwise_stretch {positions : List Nat}
    (further : positions.Pairwise fun near far => side.Passes far near) :
    (positions.map (span.stretch side)).Pairwise fun inner outer => outer.Exceeds inner := by
  refine List.pairwise_map.mpr (further.imp fun {near far} passes => ?_)
  rw [← stretch_stretch span side near far]
  exact exceeds_stretch (by rwa [reach_stretch])

end Span

namespace Sentence

variable {sentence : Sentence} {side : Side} {span : Span}

/-- The positions beyond a span come one further out than the other. -/
theorem pairwise_beyond (sentence : Sentence) (side : Side) (span : Span) :
    (sentence.beyond side span).Pairwise fun near far => side.Passes far near := by
  cases side with
  | left => exact List.pairwise_reverse.mpr List.pairwise_lt_range
  | right => exact List.pairwise_lt_range'

/-- They all come further out than the span itself. -/
theorem passes_of_mem_beyond {position : Nat} (member : position ∈ sentence.beyond side span) :
    side.Passes position (span.reach side) := by
  cases side with
  | left => exact List.mem_range.mp (List.mem_reverse.mp member)
  | right => exact (List.mem_range'_1.mp member).1

/-- The tokens at a span are those at one that it has more than, with some before or behind them. -/
theorem slice_of_exceeds {inner outer : Span} (exceeds : outer.Exceeds inner)
    (ordered : inner.first ≤ inner.last) (inside : outer.last < sentence.length) :
    ∃ before after, sentence.slice outer = before ++ sentence.slice inner ++ after ∧
      before ++ after ≠ [] := by
  obtain ⟨first, last, differs⟩ := exceeds
  refine ⟨(sentence.tokens.drop outer.first).take (inner.first - outer.first),
    (sentence.tokens.drop (inner.last + 1)).take (outer.last - inner.last), ?_, fun empty => ?_⟩
  · have parts : outer.last + 1 - outer.first = (inner.first - outer.first) +
        ((inner.last + 1 - inner.first) + (outer.last - inner.last)) := by
      omega
    have start : outer.first + (inner.first - outer.first) = inner.first := by omega
    have stop : inner.first + (inner.last + 1 - inner.first) = inner.last + 1 := by omega
    rw [slice, parts, List.take_add, List.take_add, List.drop_drop, start, List.drop_drop, stop,
      List.append_assoc]
    rfl
  · -- With nothing before and nothing behind, the spans would start and end together.
    have none := congrArg List.length empty
    unfold length at inside
    simp only [List.length_append, List.length_take, List.length_drop, List.length_nil] at none
    have firsts : outer.first = inner.first := by omega
    have lasts : outer.last = inner.last := by omega
    cases outer
    cases inner
    simp_all

end Sentence

/-- Words measure less than they do with others before or behind them. -/
theorem measure_intercalate_lt {measure : String → Nat}
    (append : ∀ first second, measure (first ++ second) = measure first + measure second)
    (space : measure " " = 1) {before words after : List String} (some : words ≠ [])
    (more : before ++ after ≠ []) :
    measure (" ".intercalate words) < measure (" ".intercalate (before ++ words ++ after)) := by
  -- Between words and others there is one more space.
  have joined {first second : List String} (one : first ≠ []) (other : second ≠ []) :
      measure (" ".intercalate (first ++ second)) =
        measure (" ".intercalate first) + 1 + measure (" ".intercalate second) := by
    rw [String.intercalate_append_of_ne_nil one other, append, append, space]
  by_cases ahead : before = []
  · rw [ahead, List.nil_append] at more ⊢
    rw [joined some more]
    omega
  · rw [List.append_assoc, joined ahead (List.append_ne_nil_of_left_ne_nil some after)]
    by_cases behind : after = []
    · rw [behind, List.append_nil]
      omega
    · rw [joined some behind]
      omega

/-- The phrases of a list that a pattern has with their head at a position. -/
def Phrase.headedAt (phrases : List Phrase) (position : Nat) (pattern : String) : List Phrase :=
  phrases.filter fun phrase => phrase.head = some position ∧ phrase.pattern = pattern

/-- Whether a phrase has all the positions of another one, and more, and a longer text. -/
structure Phrase.Outgrows (later earlier : Phrase) : Prop where
  /-- It has all the positions of the other one, and more. -/
  exceeds : later.span.Exceeds earlier.span
  /-- Its text has more characters. -/
  length_lt : earlier.text.length < later.text.length
  /-- Its text takes more bytes. -/
  utf8ByteSize_lt : earlier.text.utf8ByteSize < later.text.utf8ByteSize

namespace Phrase

variable {extractor : Extractor} {sentence : Sentence} {earlier later : Phrase}

/-- A piece of a sentence with more positions than another one has a longer text. -/
theorem Faithful.outgrows (faithful : earlier.Faithful extractor sentence)
    (faithfulToo : later.Faithful extractor sentence) (exceeds : later.span.Exceeds earlier.span) :
    later.Outgrows earlier := by
  obtain ⟨before, after, split, more⟩ :=
    Sentence.slice_of_exceeds exceeds faithful.ordered faithfulToo.inside
  rw [← faithful.tokens_eq, ← faithfulToo.tokens_eq] at split
  have longer {measure : String → Nat}
      (append : ∀ first second, measure (first ++ second) = measure first + measure second)
      (space : measure " " = 1) : measure earlier.text < measure later.text := by
    show measure (" ".intercalate (earlier.tokens.map Token.text)) <
      measure (" ".intercalate (later.tokens.map Token.text))
    rw [split, List.map_append, List.map_append]
    refine measure_intercalate_lt append space ?_ (by simpa using more)
    exact mt List.map_eq_nil_iff.mp earlier.row.toList_ne_nil
  exact ⟨exceeds, longer String.length_append rfl,
    longer (fun _ _ => String.utf8ByteSize_append) rfl⟩

/-- A phrase that outgrows another one reads differently. -/
theorem Outgrows.differs (outgrows : later.Outgrows earlier) : earlier.Differs later :=
  fun same => absurd (congrArg String.length same) (Nat.ne_of_lt outgrows.length_lt)

/-- Among phrases of which each reads differently from the one before it none is dropped. -/
theorem dropEchoesAfter_some {phrase : Phrase} {phrases : List Phrase}
    (differ : (phrase :: phrases).IsChain Differs) :
    dropEchoesAfter (some phrase) phrases = phrases := by
  induction phrases generalizing phrase with
  | nil => rfl
  | cons next phrases rest =>
    obtain ⟨differs, differ⟩ := List.isChain_cons_cons.mp differ
    rw [dropEchoesAfter_cons, Option.any_some,
      if_neg (mt (TokenRow.readsLike_iff ..).mp differs), rest differ]

/-- Whatever comes before such phrases, at most the first one is dropped. -/
theorem dropEchoesAfter_eq_or (previous : Option Phrase) {phrases : List Phrase}
    (differ : phrases.IsChain Differs) :
    dropEchoesAfter previous phrases = phrases ∨
      dropEchoesAfter previous phrases = phrases.tail := by
  cases phrases with
  | nil => exact .inl rfl
  | cons phrase phrases =>
    rw [dropEchoesAfter_cons, dropEchoesAfter_some differ]
    split
    · exact .inr rfl
    · exact .inl rfl

/-- Of such phrases of one pattern and head at most the first is dropped among others. -/
theorem headedAt_dropEchoes {first block second : List Phrase} {position : Nat} {pattern : String}
    (here : ∀ phrase ∈ block, phrase.head = some position ∧ phrase.pattern = pattern)
    (elsewhere : ∀ phrase ∈ first ++ second,
      ¬(phrase.head = some position ∧ phrase.pattern = pattern))
    (differ : block.IsChain Differs) :
    headedAt (dropEchoes (first ++ block ++ second)) position pattern = block ∨
      headedAt (dropEchoes (first ++ block ++ second)) position pattern = block.tail := by
  have none (previous : Option Phrase) {phrases : List Phrase} (part : phrases ⊆ first ++ second) :
      headedAt (dropEchoesAfter previous phrases) position pattern = [] := by
    refine List.filter_eq_nil_iff.mpr fun phrase stays => ?_
    rw [decide_eq_true_eq]
    exact elsewhere phrase (part ((dropEchoesAfter_sublist previous phrases).subset stays))
  have all (previous : Option Phrase) :
      headedAt (dropEchoesAfter previous block) position pattern =
        dropEchoesAfter previous block := by
    refine List.filter_eq_self.mpr fun phrase stays => ?_
    rw [decide_eq_true_eq]
    exact here phrase ((dropEchoesAfter_sublist previous block).subset stays)
  -- What stays of the others is passed over, and all that stays of the block is taken.
  have kept : headedAt (dropEchoes (first ++ block ++ second)) position pattern =
      dropEchoesAfter first.getLast? block := by
    rw [dropEchoes, dropEchoesAfter_append, dropEchoesAfter_append, Option.or_none, headedAt,
      List.filter_append, List.filter_append, ← headedAt, ← headedAt, ← headedAt,
      none _ (List.subset_append_left ..), all, none _ (List.subset_append_right ..),
      List.nil_append, List.append_nil]
  rw [kept]
  exact dropEchoesAfter_eq_or _ differ

end Phrase

namespace Extractor

variable {extractor : Extractor} {sentence : Sentence} {pattern : Pattern}

variable (extractor sentence) in
/-- Slots reach some of the positions, in their order. -/
theorem reaches_sublist (slots : List Component) (positions : List Nat) :
    (extractor.reaches sentence slots positions).Sublist positions := by
  -- All that is reached lies behind the positions for the slots before the last one.
  unfold reaches
  split
  · rename_i last position further _ rest
    split
    · refine List.Sublist.trans ?_ (rest ▸ List.drop_sublist (slots.length - 1) positions)
      refine List.Sublist.cons_cons position ?_
      split
      · exact List.takeWhile_sublist _
      · exact List.nil_sublist _
    · exact List.nil_sublist _
  · exact List.nil_sublist _

variable (extractor sentence) in
/-- The spans of a pattern are those that the head and the longest one to the left stretch to. -/
theorem leafSpans_eq {pattern : Pattern} (several : pattern.length ≠ 1) (head position : Nat) :
    ∃ first, (extractor.reaches sentence (pattern.slotsBeyond .left head)
        (sentence.beyond .left ⟨position, position⟩)).getLast?.getD position = first ∧
      extractor.leafSpans sentence pattern head position =
        (extractor.reaches sentence (pattern.slotsBeyond .left head)
          (sentence.beyond .left ⟨position, position⟩)).map
            (Span.stretch ⟨position, position⟩ .left) ++
        (extractor.reaches sentence (pattern.slotsBeyond .right head)
          (sentence.beyond .right ⟨position, position⟩)).map
            (Span.stretch ⟨first, position⟩ .right) :=
  ⟨_, rfl, if_neg several⟩

/-- The spans of a pattern around a head have more positions each time. -/
theorem pairwise_leafSpans (pattern : Pattern) (head position : Nat) :
    (extractor.leafSpans sentence pattern head position).Pairwise
      fun inner outer => outer.Exceeds inner := by
  by_cases several : pattern.length = 1
  · rw [leafSpans, if_pos several]
    exact List.pairwise_singleton _ _
  have ends (side : Side) := extractor.reaches_sublist sentence
    (pattern.slotsBeyond side head) (sentence.beyond side ⟨position, position⟩)
  have further (side : Side) := (sentence.pairwise_beyond side ⟨position, position⟩).sublist
    (ends side)
  obtain ⟨first, last, same⟩ := leafSpans_eq extractor sentence several head position
  rw [same]
  refine List.pairwise_append.mpr ⟨Span.pairwise_stretch (further .left),
    Span.pairwise_stretch (further .right), fun inner left outer right => ?_⟩
  obtain ⟨near, nearListed, rfl⟩ := List.mem_map.mp left
  obtain ⟨far, farListed, rfl⟩ := List.mem_map.mp right
  have passes : position < far := Sentence.passes_of_mem_beyond ((ends .right).subset farListed)
  have grown : (Span.stretch ⟨first, position⟩ .right far).Exceeds ⟨first, position⟩ :=
    Span.exceeds_stretch passes
  -- The right side grows from the last position to the left, which none of those passes.
  obtain ⟨init, final, split⟩ :=
    (List.eq_nil_or_concat _).resolve_left (List.ne_nil_of_mem nearListed)
  have further := further .left
  rw [split, List.concat_eq_append] at last nearListed further
  rw [List.getLast?_append, List.getLast?_singleton, Option.some_or, Option.getD_some] at last
  subst last
  rcases List.mem_append.mp nearListed with earlier | same
  · have passes := (List.pairwise_append.mp further).2.2 near earlier final List.mem_cons_self
    have longest : (Span.stretch ⟨near, position⟩ .left final).Exceeds ⟨near, position⟩ :=
      Span.exceeds_stretch passes
    exact grown.trans longest
  · obtain rfl := List.mem_singleton.mp same
    exact grown

/-- What a pattern shows around a position has the position for its head. -/
theorem of_mem_leafOccurrences {position : Nat} {occurrence : Occurrence}
    (member : occurrence ∈ extractor.leafOccurrences sentence position pattern) :
    occurrence.head = some position ∧ occurrence.pattern = pattern.name := by
  unfold leafOccurrences at member
  split at member
  · split at member
    · obtain ⟨span, _, rfl⟩ := List.mem_map.mp member
      exact ⟨rfl, rfl⟩
    · cases member
  · cases member

variable (extractor sentence) in
/-- What a pattern shows around a position has more positions each time. -/
theorem pairwise_leafOccurrences (position : Nat) (pattern : Pattern) :
    (extractor.leafOccurrences sentence position pattern).Pairwise
      fun earlier later => later.span.Exceeds earlier.span := by
  unfold leafOccurrences
  split
  · split
    · exact List.pairwise_map.mpr (pairwise_leafSpans pattern _ position)
    · exact List.Pairwise.nil
  · exact List.Pairwise.nil

end Extractor

/-- Whether an occurrence of a pattern of words may be listed before another one. -/
structure Occurrence.Precedes (registry : Registry) (earlier later : Occurrence) : Prop where
  /-- Its head is not behind the other one. -/
  head_le : ∀ head ∈ earlier.head, ∀ headToo ∈ later.head, head ≤ headToo
  /-- With one head its pattern has not been registered later. -/
  id_le : earlier.head = later.head → ∀ id ∈ registry.idOf? earlier.pattern,
    ∀ idToo ∈ registry.idOf? later.pattern, id ≤ idToo
  /-- With one head and one pattern the other one has more positions. -/
  exceeds : earlier.head = later.head → earlier.pattern = later.pattern →
    later.span.Exceeds earlier.span

namespace Occurrence

variable {registry : Registry} {earlier later : Occurrence} {head headToo : Nat}

/-- An occurrence precedes those with a later head. -/
theorem precedes_of_lt (here : earlier.head = some head) (there : later.head = some headToo)
    (before : head < headToo) : Precedes registry earlier later := by
  have differ : earlier.head ≠ later.head := by
    rw [here, there]
    exact fun same => absurd (Option.some.inj same) (Nat.ne_of_lt before)
  refine ⟨?_, fun same => absurd same differ, fun same => absurd same differ⟩
  simpa [here, there] using Nat.le_of_lt before

/-- It precedes one with the same head that comes behind it by pattern or by span. -/
theorem precedes_of_eq (here : earlier.head = some head) (there : later.head = some head)
    (ids : ∀ id ∈ registry.idOf? earlier.pattern, ∀ idToo ∈ registry.idOf? later.pattern,
      id ≤ idToo)
    (exceeds : earlier.pattern = later.pattern → later.span.Exceeds earlier.span) :
    Precedes registry earlier later :=
  ⟨by simp [here, there], fun _ => ids, fun _ => exceeds⟩

end Occurrence

namespace Registry

variable {patterns : List Pattern} {limit : Nat} {registry : Registry}

/-- A pattern has its index for its number. -/
theorem idOf?_name (built : build patterns limit = .ok registry) {id : Nat}
    (inside : id < patterns.length) : registry.idOf? patterns[id].name = some id :=
  (idOf?_iff built).mpr ⟨patterns[id], List.getElem?_eq_getElem inside, rfl⟩

/-- The patterns of words are listed by their numbers. -/
theorem pairwise_leafPatterns (built : build patterns limit = .ok registry) :
    registry.leafPatterns.Pairwise fun earlier later => ∀ id ∈ registry.idOf? earlier.name,
      ∀ idToo ∈ registry.idOf? later.name, id < idToo := by
  rw [leafPatterns, patterns_of_build built]
  refine List.Pairwise.filter _ (List.pairwise_iff_getElem.mpr ?_)
  intro place later inside insideToo before id found idToo foundToo
  rw [idOf?_name built inside] at found
  rw [idOf?_name built insideToo] at foundToo
  cases found
  cases foundToo
  exact before

/-- Every pattern of words has a number. -/
theorem exists_id_of_leafPatterns (built : build patterns limit = .ok registry) {pattern : Pattern}
    (member : pattern ∈ registry.leafPatterns) : ∃ id, registry.idOf? pattern.name = some id := by
  have listed := (List.mem_filter.mp member).1
  rw [patterns_of_build built] at listed
  obtain ⟨id, inside, rfl⟩ := List.getElem_of_mem listed
  exact ⟨id, idOf?_name built inside⟩

end Registry

/-- What one item gives stands together, and all else comes from other items. -/
theorem exists_flatMap_split {α β : Type} {items : List α} {item : α} (once : items.Nodup)
    (member : item ∈ items) (results : α → List β) :
    ∃ before after, items.flatMap results = before ++ results item ++ after ∧
      ∀ result ∈ before ++ after, ∃ other ∈ items, other ≠ item ∧ result ∈ results other := by
  obtain ⟨first, rest, rfl⟩ := List.append_of_mem member
  rw [List.nodup_middle, List.nodup_cons] at once
  refine ⟨first.flatMap results, rest.flatMap results, by simp, fun result listed => ?_⟩
  rw [← List.flatMap_append] at listed
  obtain ⟨other, inside, found⟩ := List.mem_flatMap.mp listed
  refine ⟨other, ?_, fun same => once.1 (same ▸ inside), found⟩
  exact ((List.sublist_cons_self item rest).append_left first).subset inside

namespace Extractor

variable {patterns : List Pattern} {limit : Nat} {registry : Registry} {options : MatchOptions}
  {stopWords : StopWords} {sentence : Sentence}

variable (options stopWords sentence) in
/-- Occurrences of patterns of words are listed by head, by pattern and by how far they reach. -/
theorem pairwise_leafReading (built : Registry.build patterns limit = .ok registry) :
    (leafReading ⟨registry, options, stopWords⟩ sentence).Pairwise
      (Occurrence.Precedes registry) := by
  refine List.pairwise_flatMap.mpr ⟨fun position _ => List.pairwise_flatMap.mpr ⟨?_, ?_⟩, ?_⟩
  · -- With one head and one pattern the spans grow.
    intro pattern _
    refine (pairwise_leafOccurrences _ _ position pattern).imp_of_mem ?_
    intro earlier later first second exceeds
    obtain ⟨head, named⟩ := of_mem_leafOccurrences first
    obtain ⟨headToo, namedToo⟩ := of_mem_leafOccurrences second
    refine Occurrence.precedes_of_eq head headToo ?_ fun _ => exceeds
    rw [named, namedToo]
    intro id found idToo foundToo
    exact Nat.le_of_eq (Option.mem_unique found foundToo)
  · -- With one head the patterns are gone through by their numbers.
    refine (Registry.pairwise_leafPatterns built).imp_of_mem ?_
    intro pattern other member _ before earlier first later second
    obtain ⟨head, named⟩ := of_mem_leafOccurrences first
    obtain ⟨headToo, namedToo⟩ := of_mem_leafOccurrences second
    refine Occurrence.precedes_of_eq head headToo ?_ fun same => ?_
    · rw [named, namedToo]
      exact fun id found idToo foundToo => Nat.le_of_lt (before id found idToo foundToo)
    · rw [named, namedToo] at same
      obtain ⟨id, found⟩ := Registry.exists_id_of_leafPatterns built member
      exact absurd (before id found id (same ▸ found)) (Nat.lt_irrefl id)
  · -- The heads are gone through from left to right.
    refine List.pairwise_lt_range.imp ?_
    intro position positionToo before earlier first later second
    obtain ⟨_, _, first⟩ := List.mem_flatMap.mp first
    obtain ⟨_, _, second⟩ := List.mem_flatMap.mp second
    exact Occurrence.precedes_of_lt (of_mem_leafOccurrences first).1
      (of_mem_leafOccurrences second).1 before

variable (options stopWords) in
/-- What one pattern shows around one position stands together, and all else is apart from it. -/
theorem exists_leafReading_split (sound : registry.Sound) {pattern : Pattern}
    (member : pattern ∈ registry.leafPatterns) {position : Nat}
    (inside : position < sentence.length) :
    ∃ before after, leafReading ⟨registry, options, stopWords⟩ sentence = before ++
        leafOccurrences ⟨registry, options, stopWords⟩ sentence position pattern ++ after ∧
      ∀ occurrence ∈ before ++ after,
        ¬(occurrence.head = some position ∧ occurrence.pattern = pattern.name) := by
  have names : (registry.leafPatterns.map Pattern.name).Nodup :=
    sound.named.nodup.sublist (List.filter_sublist.map _)
  -- The position is met once, and there the pattern is met once.
  obtain ⟨before, after, whole, elsewhere⟩ := exists_flatMap_split List.nodup_range
    (List.mem_range.mpr inside) fun position => registry.leafPatterns.flatMap
      (leafOccurrences ⟨registry, options, stopWords⟩ sentence position)
  obtain ⟨beforeHere, afterHere, here, otherwise⟩ := exists_flatMap_split names.of_map member
    (leafOccurrences ⟨registry, options, stopWords⟩ sentence position)
  refine ⟨before ++ beforeHere, afterHere ++ after, ?_, ?_⟩
  · rw [leafReading, whole, here]
    simp only [List.append_assoc]
  · rintro occurrence listed ⟨head, named⟩
    have either : occurrence ∈ before ++ after ∨ occurrence ∈ beforeHere ++ afterHere := by
      simp only [List.mem_append] at listed ⊢
      tauto
    rcases either with there | there
    · obtain ⟨other, _, differs, listed⟩ := elsewhere occurrence there
      obtain ⟨_, _, listed⟩ := List.mem_flatMap.mp listed
      rw [(of_mem_leafOccurrences listed).1] at head
      exact differs (Option.some.inj head)
    · obtain ⟨other, registered, differs, listed⟩ := otherwise occurrence there
      rw [(of_mem_leafOccurrences listed).2] at named
      exact differs (List.inj_on_of_nodup_map names registered member named)

/-- Of what a pattern shows around a position at most the first is dropped. -/
theorem headedAt_leafPass (sound : registry.Sound) {leaves : List Phrase}
    (ended : (leafPass ⟨registry, options, stopWords⟩ sentence).Yields leaves) {pattern : Pattern}
    (member : pattern ∈ registry.leafPatterns) {position : Nat}
    (inside : position < sentence.length) :
    (Phrase.headedAt leaves position pattern.name).map Phrase.occurrence =
        leafOccurrences ⟨registry, options, stopWords⟩ sentence position pattern ∨
      (Phrase.headedAt leaves position pattern.name).map Phrase.occurrence =
        (leafOccurrences ⟨registry, options, stopWords⟩ sentence position pattern).tail := by
  obtain ⟨candidates, rfl, shown, faithful⟩ := leafPass_candidates sound ended
  obtain ⟨before, after, split, elsewhere⟩ :=
    exists_leafReading_split options stopWords sound member inside
  rw [split] at shown
  obtain ⟨front, second, rfl, shownFront, rfl⟩ := List.map_eq_append_iff.mp shown
  obtain ⟨first, block, rfl, rfl, here⟩ := List.map_eq_append_iff.mp shownFront
  rw [← List.map_append] at elsewhere
  have showsHere (phrase : Phrase) (listed : phrase ∈ block) :
      phrase.head = some position ∧ phrase.pattern = pattern.name := by
    have shows : phrase.occurrence ∈ block.map Phrase.occurrence := List.mem_map_of_mem listed
    rw [here] at shows
    exact of_mem_leafOccurrences shows
  -- The candidates of the pattern at the position differ in text, as each outgrows those before.
  have exceeds := pairwise_leafOccurrences ⟨registry, options, stopWords⟩ sentence position pattern
  rw [← here] at exceeds
  have differ : block.Pairwise Phrase.Differs := by
    refine (List.pairwise_map.mp exceeds).imp_of_mem fun earlier later exceeds => ?_
    refine Phrase.Outgrows.differs ?_
    exact (faithful _ (by simp [earlier])).outgrows (faithful _ (by simp [later])) exceeds
  rw [← here, ← List.map_tail]
  exact (Phrase.headedAt_dropEchoes showsHere
    (fun phrase listed => elsewhere _ (List.mem_map_of_mem listed)) differ.isChain).imp
    (congrArg _) (congrArg _)

/-- An eligible position lies in the sentence. -/
theorem lt_of_eligible {extractor : Extractor} {component : Component} {position : Nat}
    (fits : extractor.eligible sentence component position) : position < sentence.length := by
  unfold eligible at fits
  split at fits
  · rename_i stands
    exact (List.getElem?_eq_some_iff.mp stands).1
  · cases fits

/-- Whether a pattern has its head at a position, and its outermost slot on a side can be filled at
a first position and again at further ones, with the slots before it filled in between. -/
def Refills (extractor : Extractor) (sentence : Sentence) (pattern : Pattern) (position : Nat)
    (side : Side) (first : Nat) (further : List Nat) : Prop :=
  ∃ head atHead inner last near rest,
    pattern.headIndex? = some head ∧ pattern.component? head = some atHead ∧
    extractor.eligible sentence atHead position ∧
    pattern.slotsBeyond side head = inner ++ [last] ∧ last.condition.isRepeated ∧
    sentence.beyond side ⟨position, position⟩ = near ++ first :: (further ++ rest) ∧
    List.Forall₂ (fun slot place => extractor.eligible sentence slot place) inner near ∧
    ∀ place ∈ first :: further, extractor.eligible sentence last place

/-- Slots the last of which repeats reach all positions at which that one can be filled. -/
theorem sublist_reaches {extractor : Extractor} {inner : List Component} {last : Component}
    {near places : List Nat} (rest : List Nat) (repeats : last.condition.isRepeated)
    (filled : List.Forall₂ (fun slot place => extractor.eligible sentence slot place) inner near)
    (again : ∀ place ∈ places, extractor.eligible sentence last place) :
    places.Sublist (extractor.reaches sentence (inner ++ [last]) (near ++ (places ++ rest))) := by
  -- The slots before the last one are filled one by one.
  induction filled with
  | nil =>
    rw [List.nil_append, List.nil_append, reaches_repeated repeats,
      List.takeWhile_append_of_pos again]
    exact List.sublist_append_left ..
  | @cons slot place inner near eligible _ later =>
    obtain ⟨next, slots, split⟩ : ∃ next slots, inner ++ [last] = next :: slots :=
      List.exists_cons_of_ne_nil (by simp)
    rw [List.cons_append, List.cons_append, split, reaches_cons, if_pos eligible, ← split]
    exact later

/-- Where a pattern can be filled again and again, what it shows ends at all these positions. -/
theorem Refills.sublist {extractor : Extractor} {pattern : Pattern} {position first : Nat}
    {side : Side} {further : List Nat}
    (refills : extractor.Refills sentence pattern position side first further) :
    (first :: further).Sublist ((extractor.leafOccurrences sentence position pattern).map
      fun occurrence => occurrence.span.reach side) := by
  obtain ⟨head, atHead, inner, last, near, rest, index, slot, eligible, slots, repeats, beyond,
    filled, again⟩ := refills
  have reached := sublist_reaches rest repeats filled again
  rw [List.cons_append, ← slots, ← beyond] at reached
  -- There is a slot beside the head.
  have several : pattern.length ≠ 1 := by
    have inside : head < pattern.length := (List.getElem?_eq_some_iff.mp slot).1
    have count := congrArg List.length slots
    unfold Pattern.length at inside ⊢
    cases side <;> simp [Pattern.slotsBeyond] at count <;> omega
  obtain ⟨longest, _, spans⟩ := leafSpans_eq extractor sentence several head position
  simp only [leafOccurrences, index, Option.bind_some, slot, if_pos eligible, spans]
  refine reached.trans ?_
  cases side with
  | left => simp [Sentence.occurrence, Function.comp_def, Span.reach, Span.stretch]
  | right => simp [Sentence.occurrence, Function.comp_def, Span.reach, Span.stretch]

/-- Whether phrases are listed as those of patterns of words are that are found in a sentence. -/
structure ListsLeaves (extractor : Extractor) (sentence : Sentence) (leaves : List Phrase) :
    Prop where
  /-- Every phrase has a head in the sentence and a registered pattern of words. -/
  placed : ∀ leaf ∈ leaves, ∃ head < sentence.length, leaf.head = some head ∧
    ∃ pattern ∈ extractor.registry.leafPatterns, leaf.pattern = pattern.name ∧
      ∃ id, extractor.registry.idOf? leaf.pattern = some id
  /-- Heads never go back. -/
  head_le : leaves.Pairwise fun earlier later =>
    ∀ head ∈ earlier.head, ∀ headToo ∈ later.head, head ≤ headToo
  /-- With one head the numbers of the patterns never go back. -/
  id_le : leaves.Pairwise fun earlier later => earlier.head = later.head →
    ∀ id ∈ extractor.registry.idOf? earlier.pattern,
      ∀ idToo ∈ extractor.registry.idOf? later.pattern, id ≤ idToo
  /-- With one head and one pattern each phrase outgrows those before it. -/
  outgrows : leaves.Pairwise fun earlier later => earlier.head = later.head →
    earlier.pattern = later.pattern → later.Outgrows earlier
  /-- No two phrases have the head, the pattern and the span in common. -/
  distinct : leaves.Pairwise fun earlier later =>
    ¬(earlier.head = later.head ∧ earlier.pattern = later.pattern ∧ earlier.span = later.span)
  /-- Each phrase reads differently from the one before it. -/
  differ : leaves.IsChain Phrase.Differs
  /-- Of what grows out of a head at most the first phrase is missing. -/
  complete : ∀ position token pattern found, sentence.tokens[position]? = some token →
    extractor.admits token → pattern ∈ extractor.registry.leafPatterns →
    ((extractor.surroundings sentence).leafCandidates token position pattern).Yields found →
    (Phrase.headedAt leaves position pattern.name).map Phrase.occurrence =
        found.map Phrase.occurrence ∨
      (Phrase.headedAt leaves position pattern.name).map Phrase.occurrence =
        found.tail.map Phrase.occurrence
  /-- Where the outermost slot of a pattern is filled again, all further positions are reached. -/
  refilled : ∀ position pattern side first further, pattern ∈ extractor.registry.leafPatterns →
    extractor.Refills sentence pattern position side first further →
    further.Sublist ((Phrase.headedAt leaves position pattern.name).map
      fun leaf => leaf.span.reach side)

/-- The pass lists phrases by head, by pattern and by how far they reach. -/
theorem listsLeaves_of_leafPass (built : Registry.build patterns limit = .ok registry)
    {leaves : List Phrase}
    (ended : (leafPass ⟨registry, options, stopWords⟩ sentence).Yields leaves) :
    ListsLeaves ⟨registry, options, stopWords⟩ sentence leaves := by
  have sound := Registry.sound_of_build built
  obtain ⟨candidates, same, shown, faithful⟩ := leafPass_candidates sound ended
  have part : leaves.Sublist candidates := same ▸ Phrase.dropEchoes_sublist candidates
  have precedes := pairwise_leafReading options stopWords sentence built
  rw [← shown] at precedes
  have ordered := (List.pairwise_map.mp precedes).sublist part
  have outgrows : leaves.Pairwise fun earlier later => earlier.head = later.head →
      earlier.pattern = later.pattern → later.Outgrows earlier :=
    ordered.imp_of_mem fun earlier later precedes head pattern =>
      (faithful _ (part.subset earlier)).outgrows (faithful _ (part.subset later))
        (precedes.exceeds head pattern)
  refine ⟨fun leaf member => ?_, ordered.imp fun precedes => precedes.head_le,
    ordered.imp fun precedes => precedes.id_le, outgrows, outgrows.imp ?_, ?_, ?_, ?_⟩
  · obtain ⟨pattern, registered, named, head, _, _, headed, _, stands, _⟩ :=
      headed_of_leafPass sound ended member
    refine ⟨head, (List.getElem?_eq_some_iff.mp stands).1, headed, pattern, registered, named, ?_⟩
    rw [named]
    exact Registry.exists_id_of_leafPatterns built registered
  · rintro earlier later grows ⟨head, pattern, span⟩
    exact (grows head pattern).exceeds.2.2 span.symm
  · rw [same, Phrase.dropEchoes_eq]
    exact List.isChain_destutter Phrase.Differs candidates
  · intro position token pattern found stands admits member foundEnded
    have leaf := (List.mem_filter.mp member).2
    rw [List.map_tail, (Surroundings.leafCandidates_reading leaf stands admits foundEnded).1]
    exact headedAt_leafPass sound ended member (List.getElem?_eq_some_iff.mp stands).1
  · intro position pattern side first further member refills
    have inside : position < sentence.length := by
      obtain ⟨_, _, _, _, _, _, _, _, eligible, _⟩ := refills
      exact lt_of_eligible eligible
    have reached := refills.sublist
    have further : ((Phrase.headedAt leaves position pattern.name).map
        fun leaf => leaf.span.reach side) = ((Phrase.headedAt leaves position pattern.name).map
          Phrase.occurrence).map fun occurrence => occurrence.span.reach side := by
      rw [List.map_map]
      rfl
    rw [further]
    rcases headedAt_leafPass sound ended member inside with all | rest
    · rw [all]
      exact (List.sublist_cons_self _ _).trans reached
    · rw [rest, List.map_tail]
      exact reached.tail

end Extractor

/-- The phrases of words in a sentence are listed by head, by pattern and by how far they reach. -/
theorem extract_listsLeaves {patterns : List Pattern} {limit : Nat} {registry : Registry}
    (built : Registry.build patterns limit = .ok registry) {options : MatchOptions}
    {stopWords : StopWords} {sentence : Sentence} {extraction : Extraction}
    (ended : Extractor.extract ⟨registry, options, stopWords⟩ sentence = .ok extraction) :
    Extractor.ListsLeaves ⟨registry, options, stopWords⟩ sentence extraction.simple := by
  obtain ⟨simple, complex, found, _, rfl⟩ := Extractor.yields_of_extract ended
  exact Extractor.listsLeaves_of_leafPass built found

/-- A grammar of nouns after any number of adjectives. -/
def qualifiedNouns : List Pattern :=
  [⟨"qualified noun", [.word { pos := .adjective, condition := Condition.repeated {} },
    .word { pos := .noun, condition := .ofRole .head }]⟩]

/-- The cat is black, and then it is big, too. -/
theorem extract_listsLeaves_bigBlackCat : ∃ registry pattern extraction,
    Registry.build qualifiedNouns = .ok registry ∧
      Extractor.extract ⟨registry, {}, .empty⟩ bigBlackCat = .ok extraction ∧
      extraction.simple.map Phrase.text = ["black cat", "big black cat"] ∧
      pattern ∈ registry.leafPatterns ∧
      Extractor.Refills ⟨registry, {}, .empty⟩ bigBlackCat pattern 2 .left 1 [0] ∧
      Extractor.ListsLeaves ⟨registry, {}, .empty⟩ bigBlackCat extraction.simple := by
  have built : Registry.build qualifiedNouns = .ok (.assemble qualifiedNouns [0]) :=
    Registry.build_of_flat (Registry.checkNames_eq_none_iff.mp rfl) (by decide) (by decide)
  obtain ⟨extraction, ended, texts⟩ : ∃ extraction,
      Extractor.extract ⟨.assemble qualifiedNouns [0], {}, .empty⟩ bigBlackCat = .ok extraction ∧
        extraction.simple.map Phrase.text = ["black cat", "big black cat"] := ⟨_, rfl, rfl⟩
  refine ⟨_, _, extraction, built, ended, texts, List.mem_cons_self, ?_,
    extract_listsLeaves built ended⟩
  -- No slot lies between the head and the adjectives.
  exact ⟨1, _, [], _, [], [], rfl, rfl, rfl, rfl, rfl, rfl, .nil, by decide⟩

end PhraseGrammar
