import PhraseGrammar.Proofs.Agreement
import PhraseGrammar.Proofs.LeafPass

/-! In a longer sentence, a part between refused tokens has the phrases of words that it has alone. -/

namespace PhraseGrammar

open Search

/-- The span some positions further on. -/
def Span.shift (offset : Nat) (span : Span) : Span :=
  ⟨span.first + offset, span.last + offset⟩

/-- The phrase some positions further on. -/
def Phrase.shift (offset : Nat) (phrase : Phrase) : Phrase :=
  { phrase with
    span := phrase.span.shift offset
    head := phrase.head.map (· + offset) }

/-- A numbered item under a number some places further on. -/
def renumber {α : Type} (offset : Nat) (next : α × Nat) : α × Nat :=
  (next.1, next.2 + offset)

/-- Moving an item on by nothing leaves it where it is. -/
theorem renumber_zero {α : Type} (next : α × Nat) : renumber 0 next = next :=
  rfl

/-- Items that are numbered from further on are those numbered from before, further on. -/
theorem zipIdx_add {α : Type} (items : List α) (start offset : Nat) :
    items.zipIdx (start + offset) = (items.zipIdx start).map (renumber offset) := by
  rw [Nat.add_comm, ← List.map_snd_add_zipIdx_eq_zipIdx]
  rfl

/-- How a part stands in a whole sentence: between tokens next to it that are refused, or none. -/
structure Embeds (admits : Token → Bool) (part whole : Sentence) (offset : Nat) : Prop where
  /-- The document is the same. -/
  document_eq : whole.document = part.document
  /-- The sentence has the same number. -/
  id_eq : whole.id = part.id
  /-- The part stands behind as many tokens as the offset says. -/
  tokens_eq : ∃ before after, whole.tokens = before ++ part.tokens ++ after ∧
    before.length = offset ∧ (∀ token ∈ before.getLast?, admits token = false) ∧
    ∀ token ∈ after.head?, admits token = false

variable {extractor : Extractor} {admits : Token → Bool} {part whole : Sentence}
  {offset length position : Nat} {phrase : Phrase} {span : Span} {side : Side} {token : Token}

namespace Phrase

/-- A phrase that takes a token further on is the phrase that takes it, further on. -/
@[simp]
theorem shift_push :
    (phrase.push side position token).shift offset =
      (phrase.shift offset).push side (position + offset) token := by
  cases side <;> rfl

/-- A phrase that takes over a neighbour further on is the phrase that takes it over, further on. -/
@[simp]
theorem shift_absorb {other : Phrase} :
    (phrase.absorb side other).shift offset =
      (phrase.shift offset).absorb side (other.shift offset) := by
  cases side <;> rfl

/-- A phrase further on has its span further on. -/
@[simp]
theorem span_shift : (phrase.shift offset).span = phrase.span.shift offset :=
  rfl

/-- Moving a phrase on by nothing leaves it where it is. -/
@[simp]
theorem shift_zero : phrase.shift 0 = phrase := by
  cases phrase with
  | mk span row pattern document sentence head => cases head <;> rfl

/-- Moving phrases on by nothing leaves them where they are. -/
@[simp]
theorem map_shift_zero (phrases : List Phrase) : phrases.map (shift 0) = phrases := by
  rw [List.map_congr_left fun phrase _ => shift_zero, List.map_id']

/-- A phrase further on has the same pattern. -/
@[simp]
theorem pattern_shift : (phrase.shift offset).pattern = phrase.pattern :=
  rfl

end Phrase

/-- Behind what is taken, a first item that is refused ends the taking. -/
theorem takeWhile_append_refused {α : Type} {test : α → Bool} {items rest : List α}
    (refused : ∀ item ∈ rest.head?, test item = false) :
    (items ++ rest).takeWhile test = items.takeWhile test := by
  have none : rest.takeWhile test = [] := by
    cases rest with
    | nil => rfl
    | cons item rest => exact List.takeWhile_cons_of_neg (by simp [refused item rfl])
  rw [List.takeWhile_append, none, List.append_nil]
  -- The taking goes on behind the first items only if it has taken all of them.
  split
  · rename_i all
    exact ((List.takeWhile_sublist test).eq_of_length all).symm
  · rfl

namespace Embeds

/-- The token at a position of the part stands further on in the whole. -/
theorem getElem?_tokens (embeds : Embeds admits part whole offset) (inside : position < part.length) :
    whole.tokens[position + offset]? = part.tokens[position]? := by
  obtain ⟨before, after, tokens, rfl, _⟩ := embeds.tokens_eq
  rw [tokens, List.append_assoc, List.getElem?_append_right (Nat.le_add_left ..),
    Nat.add_sub_cancel, List.getElem?_append_left inside]

/-- A span of the part lies further on in the whole. -/
theorem within_shift (embeds : Embeds admits part whole offset) (within : span.Within part.length) :
    (span.shift offset).Within whole.length := by
  obtain ⟨before, after, tokens, rfl, _⟩ := embeds.tokens_eq
  -- What comes before and behind makes the whole longer by as much.
  have long : whole.length = before.length + part.length + after.length := by
    rw [Sentence.length, tokens, List.length_append, List.length_append, Sentence.length]
  obtain ⟨first, last⟩ := within
  constructor
  · show span.first + before.length < whole.length
    omega
  · show span.last + before.length < whole.length
    omega

variable (side) in
/-- What stands outwards in the whole is what does in the part, and then nothing or a refused token. -/
theorem outward_eq (embeds : Embeds admits part whole offset) (within : span.Within part.length) :
    ∃ rest, whole.outward side (span.shift offset) =
        (part.outward side span).map (renumber offset) ++ rest ∧
      ∀ next ∈ rest.head?, admits next.1 = false := by
  obtain ⟨before, after, tokens, rfl, refusedBefore, refusedAfter⟩ := embeds.tokens_eq
  obtain ⟨first, last⟩ := within
  unfold Sentence.length at first last
  cases side with
  | left =>
    refine ⟨before.zipIdx.reverse, ?_, ?_⟩
    · -- Backwards from the span come the tokens of the part, and then those before it.
      show ((whole.tokens.take (span.first + before.length)).zipIdx).reverse =
        (part.tokens.take span.first).zipIdx.reverse.map (renumber before.length) ++ _
      rw [tokens, List.append_assoc, Nat.add_comm, List.take_length_add_append,
        List.take_append_of_le_length (Nat.le_of_lt first), List.zipIdx_append,
        List.reverse_append, zipIdx_add, List.map_reverse]
    · simpa [List.head?_reverse, List.getLast?_zipIdx] using refusedBefore
  | right =>
    refine ⟨after.zipIdx (before.length + part.tokens.length), ?_, ?_⟩
    · -- Behind the span come the tokens of the part, and then those behind it.
      show ((whole.tokens.drop (span.last + before.length + 1)).zipIdx
          (span.last + before.length + 1)) =
        ((part.tokens.drop (span.last + 1)).zipIdx (span.last + 1)).map
          (renumber before.length) ++ _
      have place : span.last + before.length + 1 = before.length + (span.last + 1) := by omega
      rw [tokens, List.append_assoc, place, List.drop_length_add_append,
        List.drop_append_of_le_length last, List.zipIdx_append, ← zipIdx_add, List.length_drop,
        Nat.add_comm before.length (span.last + 1)]
      congr 2
      omega
    · simpa [List.head?_zipIdx] using refusedAfter

/-- The tokens next to a place in the part are those next to it in the whole. -/
theorem outward_shift (embeds : Embeds admits part whole offset) (within : span.Within part.length) :
    (Surroundings.ofSentence admits whole).outward side (span.shift offset) =
      ((Surroundings.ofSentence admits part).outward side span).map (renumber offset) := by
  obtain ⟨rest, outward, refused⟩ := embeds.outward_eq side within
  have wide := embeds.within_shift within
  rw [Surroundings.outward_ofSentence _ _ _ _ (Nat.le_of_lt wide.1) wide.2,
    Surroundings.outward_ofSentence _ _ _ _ (Nat.le_of_lt within.1) within.2, outward,
    takeWhile_append_refused refused, List.takeWhile_map]
  rfl

end Embeds

namespace Phrase

/-- Whether other phrases are some phrases further on, and these lie in a sentence of some length. -/
def Moved (offset length : Nat) (found others : List Phrase) : Prop :=
  others = found.map (shift offset) ∧ ∀ phrase ∈ found, phrase.span.Within length

/-- Filling the last slot further on finds the same phrases further on. -/
theorem growLast_shift (slot : WordSlot) {outward : List (Token × Nat)}
    (within : phrase.span.Within length) (inside : ∀ next ∈ outward, next.2 < length) :
    Agree (Moved offset length) (growLast side slot phrase outward)
      (growLast side slot (phrase.shift offset) (outward.map (renumber offset))) := by
  -- Both take the same tokens in step, so that their phrases stay apart by the offset.
  induction outward generalizing phrase with
  | nil =>
    rw [List.map_nil, growLast, growLast]
    exact .seq fun _ _ => .ofPure ⟨rfl, by simp⟩
  | cons next outward rest =>
    obtain ⟨token, position⟩ := next
    obtain ⟨here, later⟩ := List.forall_mem_cons.mp inside
    have grown : (phrase.push side position token).span.Within length := within.stretch here
    rw [List.map_cons, renumber, growLast, growLast]
    refine .seq fun _ _ => ?_
    split
    · split
      · simp only [← shift_push]
        refine (rest grown later).bind fun found others moved => .ofPure ?_
        exact ⟨by rw [moved.1, List.map_cons], List.forall_mem_cons.mpr ⟨grown, moved.2⟩⟩
      · exact .ofPure ⟨by simp, by simpa using grown⟩
    · exact .ofPure ⟨rfl, by simp⟩

/-- Filling the slots of a side further on finds the same phrases further on. -/
theorem grow_shift (slots : List WordSlot) {outward : List (Token × Nat)}
    (within : phrase.span.Within length) (inside : ∀ next ∈ outward, next.2 < length) :
    Agree (Moved offset length) (phrase.grow side slots outward)
      ((phrase.shift offset).grow side slots (outward.map (renumber offset))) := by
  -- The induction is on the slots, each but the last one taking one token on both sides.
  induction slots generalizing phrase outward with
  | nil =>
    rw [grow, grow]
    exact .ofPure ⟨rfl, by simp⟩
  | cons slot slots rest =>
    cases slots with
    | nil => exact growLast_shift slot within inside
    | cons next slots =>
      simp only [grow]
      refine .seq fun _ _ => ?_
      cases outward with
      | nil => exact .ofPure ⟨rfl, by simp⟩
      | cons first outward =>
        obtain ⟨token, position⟩ := first
        obtain ⟨here, later⟩ := List.forall_mem_cons.mp inside
        rw [List.map_cons, renumber]
        dsimp only
        split
        · rw [← shift_push]
          exact rest (within.stretch here) later
        · exact .ofPure ⟨rfl, by simp⟩

/-- The phrase of a token of the part further on is that of the token there. -/
theorem shift_ofToken (embeds : Embeds admits part whole offset) {name : String} :
    (ofToken part token position name).shift offset =
      ofToken whole token (position + offset) name := by
  simp only [ofToken, shift, embeds.document_eq, embeds.id_eq, Option.map_some]
  rfl

end Phrase

namespace Embeds

variable {pattern : Pattern} {head : Nat} {anchor : Phrase}

/-- Growing a head to both sides finds the same phrases further on. -/
theorem growBoth_shift (embeds : Embeds admits part whole offset)
    (within : anchor.span.Within part.length) :
    Maps (Phrase.shift offset) ((Surroundings.ofSentence admits part).growBoth pattern head anchor)
      ((Surroundings.ofSentence admits whole).growBoth pattern head (anchor.shift offset)) := by
  have inside (side : Side) (span : Span) :
      ∀ next ∈ (Surroundings.ofSentence admits part).outward side span, next.2 < part.length :=
    fun _ => Surroundings.lt_of_mem_outward
  unfold Surroundings.growBoth
  split
  · exact .ofPure rfl
  · rw [Phrase.span_shift, embeds.outward_shift within]
    refine (Phrase.grow_shift _ within (inside _ _)).bind fun left others moved => ?_
    obtain ⟨rfl, leftWithin⟩ := moved
    -- The right side grows further on out of the same phrase.
    have same : (left.map (Phrase.shift offset)).getLast?.getD (anchor.shift offset) =
        (left.getLast?.getD anchor).shift offset := by
      rw [List.getLast?_map]
      cases left.getLast? <;> rfl
    have seedWithin : (left.getLast?.getD anchor).span.Within part.length := by
      cases last : left.getLast? with
      | none => exact within
      | some longest => exact leftWithin longest (List.mem_of_getLast? last)
    rw [same]
    dsimp only
    rw [Phrase.span_shift, embeds.outward_shift seedWithin]
    refine (Phrase.grow_shift _ seedWithin (inside _ _)).bind fun right others moved => ?_
    obtain ⟨rfl, _⟩ := moved
    exact .ofPure (List.map_append ..).symm

/-- A pattern has the same phrases around a token of the part further on. -/
theorem leafCandidates_shift (embeds : Embeds admits part whole offset)
    (inside : position < part.length) :
    Maps (Phrase.shift offset)
      ((Surroundings.ofSentence admits part).leafCandidates token position pattern)
      ((Surroundings.ofSentence admits whole).leafCandidates token (position + offset) pattern) := by
  unfold Surroundings.leafCandidates
  split
  · split
    · refine .seq fun _ _ => ?_
      rw [show (Surroundings.ofSentence admits whole).sentence = whole from rfl,
        ← Phrase.shift_ofToken embeds]
      exact embeds.growBoth_shift ⟨inside, inside⟩
    · exact .ofPure rfl
  · exact .ofPure rfl

/-- Around tokens of the part all patterns have the same phrases further on. -/
theorem gather_leafCandidates (embeds : Embeds admits part whole offset) (patterns : List Pattern)
    {heads : List (Token × Nat)} (inside : ∀ next ∈ heads, next.2 < part.length) :
    Maps (Phrase.shift offset)
      (Search.gather (fun (token, position) => Search.gather
        ((Surroundings.ofSentence admits part).leafCandidates token position) patterns) heads)
      (Search.gather (fun (token, position) => Search.gather
        ((Surroundings.ofSentence admits whole).leafCandidates token position) patterns)
        (heads.map (renumber offset))) := by
  -- Each head corresponds to itself further on, and the patterns are the same.
  refine .gather (List.forall₂_map_right_iff.mpr (List.forall₂_same.mpr fun next member => ?_))
  exact .gather (List.forall₂_same.mpr fun pattern _ =>
    embeds.leafCandidates_shift (inside next member))

end Embeds

/-- Two sentences with a token between them, as one sentence. -/
def Sentence.join (first : Sentence) (barrier : Token) (second : Sentence) : Sentence :=
  { first with tokens := first.tokens ++ barrier :: second.tokens }

section Join

variable {first second : Sentence} {barrier : Token}

/-- In front of a refused token the first of two sentences stands as it is. -/
theorem embeds_first (second : Sentence) (refused : admits barrier = false) :
    Embeds admits first (first.join barrier second) 0 where
  document_eq := rfl
  id_eq := rfl
  tokens_eq := ⟨[], barrier :: second.tokens, rfl, rfl, by simp, by simpa using refused⟩

/-- Behind a refused token the second of two sentences stands as it is. -/
theorem embeds_second (refused : admits barrier = false)
    (document_eq : second.document = first.document) (id_eq : second.id = first.id) :
    Embeds admits second (first.join barrier second) (first.length + 1) where
  document_eq := document_eq.symm
  id_eq := id_eq.symm
  tokens_eq := ⟨first.tokens ++ [barrier], [], by simp [Sentence.join], by simp [Sentence.length],
    by simpa using refused, by simp⟩

/-- The tokens that can take part are those of the first sentence, and then those of the second. -/
theorem Surroundings.admitted_join (refused : admits barrier = false) :
    (ofSentence admits (first.join barrier second)).admitted =
      (ofSentence admits first).admitted ++
        (ofSentence admits second).admitted.map (renumber (first.length + 1)) := by
  have moved := zipIdx_add second.tokens 0 (first.length + 1)
  rw [Nat.zero_add] at moved
  simp only [admitted_ofSentence, Sentence.join, List.zipIdx_append, List.zipIdx_cons,
    List.filter_append, Nat.zero_add]
  -- The token between them is left out, and the numbers behind it count it.
  rw [List.filter_cons_of_neg (by simpa using refused), ← Sentence.length, moved, List.filter_map]
  rfl

/-- A token that can take part stands in the sentence. -/
theorem Surroundings.lt_of_mem_admitted {sentence : Sentence} {next : Token × Nat}
    (member : next ∈ (ofSentence admits sentence).admitted) : next.2 < sentence.length := by
  rw [admitted_ofSentence] at member
  have stands := List.mk_mem_zipIdx_iff_getElem?.mp (List.mem_filter.mp member).1
  exact (List.getElem?_eq_some_iff.mp stands).1

/-- What the pass for phrases of words finds in the first sentence comes before what it finds further on. -/
theorem Extractor.leafPass_join (refused : extractor.admits barrier = false)
    (document_eq : second.document = first.document) (id_eq : second.id = first.id)
    {before after all : List Phrase} (foundFirst : (extractor.leafPass first).Yields before)
    (foundSecond : (extractor.leafPass second).Yields after)
    (foundWhole : (extractor.leafPass (first.join barrier second)).Yields all) :
    ∃ near far, before = Phrase.dropEchoes near ∧ after = Phrase.dropEchoes far ∧
      all = Phrase.dropEchoes (near ++ far.map (Phrase.shift (first.length + 1))) := by
  obtain ⟨near, nearFound, foundFirst⟩ := foundFirst.of_bind
  obtain ⟨far, farFound, foundSecond⟩ := foundSecond.of_bind
  obtain ⟨candidates, found, foundWhole⟩ := foundWhole.of_bind
  refine ⟨near, far, foundFirst.of_pure, foundSecond.of_pure, ?_⟩
  rw [foundWhole.of_pure]
  have inside (sentence : Sentence) : ∀ next ∈ (Surroundings.ofSentence extractor.admits
      sentence).admitted.filter fun next => extractor.registry.isHeadCandidate next.1,
      next.2 < sentence.length := fun next member =>
    Surroundings.lt_of_mem_admitted (List.mem_filter.mp member).1
  -- The heads of the whole are those of the first sentence, and those of the second further on.
  dsimp only at found
  rw [surroundings, Surroundings.admitted_join refused, List.filter_append, List.filter_map] at found
  obtain ⟨here, there, hereFound, thereFound, rfl⟩ := found.of_gather_append
  have stays : here = near.map (Phrase.shift 0) := by
    refine (embeds_first second refused).gather_leafCandidates _ (inside first) near here nearFound ?_
    rw [List.map_congr_left fun next _ => renumber_zero next, List.map_id']
    exact hereFound
  have moves : there = far.map (Phrase.shift (first.length + 1)) :=
    (embeds_second refused document_eq id_eq).gather_leafCandidates _ (inside second) far there
      farFound thereFound
  rw [stays, moves, Phrase.map_shift_zero]

end Join

end PhraseGrammar
