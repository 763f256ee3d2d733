import PhraseGrammar.Proofs.CompositePass
import PhraseGrammar.Proofs.Embedding

/-! In a longer sentence, a part between refused tokens has the phrases of phrases that it has alone. -/

namespace PhraseGrammar

open Search

/-- How the phrases of words of a part stand among those of the whole: between others far from them. -/
structure Stands (part : Sentence) (offset : Nat) (leaves lead all : List Phrase) : Prop where
  /-- The phrases of the part come behind those before them, and before those behind them. -/
  split : ∃ tail, all = lead ++ leaves.map (Phrase.shift offset) ++ tail ∧
    ∀ leaf ∈ tail, leaf.span.first ≤ leaf.span.last ∧ offset + part.length < leaf.span.first
  /-- A place is free between the part and the phrases before it. -/
  before : ∀ leaf ∈ lead, leaf.span.first ≤ leaf.span.last ∧ leaf.span.last + 1 < offset
  /-- The phrases of the part lie in it. -/
  inside : ∀ leaf ∈ leaves, leaf.span.Within part.length
  /-- Their heads do, too. -/
  headed : ∀ leaf ∈ leaves, ∀ head ∈ leaf.head, head < part.length

/-- A numbered phrase further on in a sentence and in a list. -/
def shiftLeaf (offset count : Nat) (next : Phrase × Nat) : Phrase × Nat :=
  (next.1.shift offset, next.2 + count)

/-- A trial of a phrase further on, beside a span further on. -/
def Trial.shift (offset count : Nat) (trial : Trial) : Trial :=
  { trial with leaf := trial.leaf + count, span := trial.span.shift offset }

/-- Whether the trials of one search are those of another one further on, as far as it could make them. -/
def Mirrors (offset count : Nat) (trials others : Trials) : Prop :=
  ∀ trial : Trial, trial.shift offset count ∈ others ↔ trial ∈ trials

/-- Whether a part of a search finds what another one does further on, and makes the same trials. -/
structure FoundAlike (offset count : Nat) (findings others : Findings) : Prop where
  /-- The phrases that are found are the same further on. -/
  found_eq : others.found = findings.found.map (Phrase.shift offset)
  /-- The trials correspond. -/
  trials : Mirrors offset count findings.trials others.trials

/-- Whether two ways to go on find the same further on, from wherever in the part they start. -/
def GoesAlike (part : Sentence) (offset count : Nat) (goOn resume : Attempt.Continue) : Prop :=
  ∀ phrase status depth trials others, phrase.span.Within part.length →
    Mirrors offset count trials others →
    Agree (FoundAlike offset count) (goOn phrase status depth trials)
      (resume (phrase.shift offset) status depth others)

variable {extractor : Extractor} {part whole : Sentence} {offset count number : Nat}
  {leaves lead all : List Phrase} {pattern : Pattern} {stop : Stop} {phrase leaf : Phrase}
  {status : MatchStatus} {span run : Span} {side : Side} {trials others : Trials}
  {goOn resume : Attempt.Continue}

/-- Phrases further on in a sentence are numbered from further on in a list. -/
theorem zipIdx_map_shift (offset count : Nat) (phrases : List Phrase) :
    (phrases.map (Phrase.shift offset)).zipIdx count =
      phrases.zipIdx.map (shiftLeaf offset count) := by
  have moved := zipIdx_add (phrases.map (Phrase.shift offset)) 0 count
  rw [Nat.zero_add] at moved
  rw [moved, List.zipIdx_map, List.map_map]
  rfl

/-- Two spans lie beside each other further on if they do. -/
theorem Span.beside_shift :
    (run.shift offset).Beside (span.shift offset) side ↔ run.Beside span side := by
  cases side with
  | left =>
    show run.last + offset + 1 = span.first + offset ↔ run.last + 1 = span.first
    omega
  | right =>
    show span.last + offset + 1 = run.first + offset ↔ span.last + 1 = run.first
    omega

/-- A span a place away from a part, or further, is beside no span of the part. -/
theorem Span.not_beside_shift {length : Nat} (within : span.Within length)
    (ordered : run.first ≤ run.last) (far : run.last + 1 < offset ∨ offset + length < run.first) :
    ¬run.Beside (span.shift offset) side := by
  obtain ⟨first, last⟩ := within
  cases side with
  | left =>
    show ¬run.last + 1 = span.first + offset
    omega
  | right =>
    show ¬span.last + offset + 1 = run.first
    omega

/-- The phrases beside a span of the part are those beside it in the whole, further on. -/
theorem Stands.adjacent_shift (stands : Stands part offset leaves lead all) (side : Side)
    (within : span.Within part.length) :
    (LeafIndex.ofList all).adjacent side (span.shift offset) =
      ((LeafIndex.ofList leaves).adjacent side span).map (shiftLeaf offset lead.length) := by
  obtain ⟨tail, rfl, behind⟩ := stands.split
  -- The phrases before the part end too early, and those behind it start too late.
  have noneBefore : lead.zipIdx.filter (fun next => next.1.span.Beside (span.shift offset) side) =
      [] := by
    refine List.filter_eq_nil_iff.mpr fun next member => ?_
    obtain ⟨ordered, far⟩ := stands.before next.1 (List.fst_mem_of_mem_zipIdx member)
    rw [decide_eq_true_eq]
    exact Span.not_beside_shift within ordered (.inl far)
  have noneBehind (start : Nat) : (tail.zipIdx start).filter
      (fun next => next.1.span.Beside (span.shift offset) side) = [] := by
    refine List.filter_eq_nil_iff.mpr fun next member => ?_
    obtain ⟨ordered, far⟩ := behind next.1 (List.fst_mem_of_mem_zipIdx member)
    rw [decide_eq_true_eq]
    exact Span.not_beside_shift within ordered (.inr far)
  rw [LeafIndex.adjacent_ofList, LeafIndex.adjacent_ofList, List.zipIdx_append, List.zipIdx_append,
    List.filter_append, List.filter_append, noneBefore, noneBehind, List.nil_append,
    List.append_nil, Nat.zero_add, zipIdx_map_shift, List.filter_map]
  refine congrArg _ (List.filter_congr fun next _ => decide_eq_decide.mpr ?_)
  exact Span.beside_shift

/-- Trials are different further on if they are different. -/
theorem Trial.shift_injective {trial other : Trial}
    (same : trial.shift offset count = other.shift offset count) : trial = other := by
  obtain ⟨tried, index, leaf, first, last⟩ := trial
  obtain ⟨otherTried, otherIndex, otherLeaf, otherFirst, otherLast⟩ := other
  simpa [Trial.shift, Span.shift] using same

/-- Without a trial there is none that corresponds. -/
theorem mirrors_empty : Mirrors offset count ∅ ∅ :=
  fun _ => iff_of_false Std.HashSet.not_mem_empty Std.HashSet.not_mem_empty

/-- A trial and the one that corresponds may be made on both sides. -/
theorem Mirrors.insert (mirrors : Mirrors offset count trials others) (trial : Trial) :
    Mirrors offset count (trials.insert trial) (others.insert (trial.shift offset count)) := by
  intro other
  rw [Std.HashSet.mem_insert, Std.HashSet.mem_insert, beq_iff_eq, beq_iff_eq, mirrors other]
  refine or_congr_left ⟨Trial.shift_injective, ?_⟩
  rintro rfl
  rfl

/-- A trial has been made on one side if the one that corresponds has been on the other. -/
theorem Mirrors.contains_shift (mirrors : Mirrors offset count trials others) (trial : Trial) :
    others.contains (trial.shift offset count) = trials.contains trial := by
  rw [Bool.eq_iff_iff, Std.HashSet.contains_iff_mem, Std.HashSet.contains_iff_mem]
  exact mirrors trial

/-- Where nothing is found, nothing is found further on. -/
theorem FoundAlike.nothing (mirrors : Mirrors offset count trials others) :
    FoundAlike offset count ⟨[], trials⟩ ⟨[], others⟩ :=
  ⟨rfl, mirrors⟩

namespace Attempt

/-- A token further on is taken as it is, and the phrase is further on then. -/
theorem takeWord_shift {slot : WordSlot} {token : Token} {position : Nat} :
    takeWord stop slot token (position + offset) (phrase.shift offset) status =
      ((takeWord stop slot token position phrase status).1.shift offset,
        (takeWord stop slot token position phrase status).2) := by
  unfold takeWord
  dsimp only
  rw [← Phrase.shift_push]
  split <;> rfl

/-- A phrase that takes a token of the part stays in the part. -/
theorem within_takeWord {slot : WordSlot} {token : Token} {position length : Nat}
    (within : phrase.span.Within length) (inside : position < length) :
    (takeWord stop slot token position phrase status).1.span.Within length := by
  rw [span_takeWord]
  exact within.stretch inside

/-- Filling a slot with tokens further on finds the same further on. -/
theorem fillWord_shift {slot : WordSlot} {depth : Nat} {outward moved : List (Token × Nat)}
    (corresponds : moved = outward.map (renumber offset))
    (next : GoesAlike part offset count goOn resume)
    (inside : ∀ next ∈ outward, next.2 < part.length) (within : phrase.span.Within part.length)
    (mirrors : Mirrors offset count trials others) :
    Agree (FoundAlike offset count) (fillWord stop slot goOn outward phrase status depth trials)
      (fillWord stop slot resume moved (phrase.shift offset) status depth others) := by
  subst corresponds
  induction outward generalizing phrase status depth trials others with
  | nil => exact .ofPure (.nothing mirrors)
  | cons first outward rest =>
    obtain ⟨token, position⟩ := first
    obtain ⟨here, later⟩ := List.forall_mem_cons.mp inside
    rw [List.map_cons, renumber, fillWord, fillWord, takeWord_shift]
    split
    · -- Both take the token, and go on from phrases that correspond again.
      have grown : (takeWord stop slot token position phrase status).1.span.Within part.length :=
        within_takeWord within here
      refine (next _ _ _ _ _ grown mirrors).bind fun findings otherFindings alike => ?_
      split
      · refine .seq fun _ _ => ?_
        refine (rest later grown alike.trials).bind fun further otherFurther alikeOn => ?_
        refine .ofPure ⟨?_, alikeOn.trials⟩
        rw [alike.found_eq, alikeOn.found_eq, List.map_append]
      · exact .ofPure alike
    · exact .ofPure (.nothing mirrors)

variable (leaves) in
/-- The head of a phrase further on meets a pattern if the head of the phrase does. -/
theorem headMatches_shift {referenced : Pattern}
    (embeds : Embeds extractor.admits part whole offset)
    (headed : ∀ head ∈ leaf.head, head < part.length) :
    (extractor.attempt whole all (number + count) pattern).headMatches referenced
        (leaf.shift offset) =
      (extractor.attempt part leaves number pattern).headMatches referenced leaf := by
  -- The head is looked up among the tokens of the whole.
  have same : (leaf.shift offset).head.bind
      ((extractor.attempt whole all (number + count) pattern).around.tokens[·]?) =
        leaf.head.bind ((extractor.attempt part leaves number pattern).around.tokens[·]?) := by
    show (leaf.head.map (· + offset)).bind (whole.tokens.toArray[·]?) =
      leaf.head.bind (part.tokens.toArray[·]?)
    cases head : leaf.head with
    | none => rfl
    | some place =>
      simp only [Option.map_some, Option.bind_some, List.getElem?_toArray]
      exact embeds.getElem?_tokens (headed place head)
  unfold headMatches
  rw [same]

variable (leaves) in
/-- A neighbour further on is taken as it is, and the phrase is further on then. -/
theorem takeLeaf?_shift {slot : ModelSlot} {referenced : Pattern}
    (embeds : Embeds extractor.admits part whole offset)
    (headed : ∀ head ∈ leaf.head, head < part.length) :
    (extractor.attempt whole all (number + count) pattern).takeLeaf? stop slot referenced
        (leaf.shift offset) (phrase.shift offset) status =
      ((extractor.attempt part leaves number pattern).takeLeaf? stop slot referenced leaf phrase
        status).map fun taken => (taken.1.shift offset, taken.2) := by
  unfold takeLeaf?
  dsimp only
  rw [headMatches_shift leaves embeds headed, ← Phrase.shift_absorb]
  -- The tests ask for the row and the head, which are the same further on.
  show (if (slot.condition.isHead && !status.headChecked &&
      !(extractor.attempt part leaves number pattern).headMatches referenced leaf) = true then _
    else if (!leaf.row.any slot.condition.acceptsToken) = true then _
    else if (!slot.condition.additional.isEmpty && !meetsAdditional slot leaf) = true then _
    else _) = _
  split
  · rfl
  · split
    · rfl
    · split
      · rfl
      · rw [Option.map_some]
        split <;> rfl

/-- A phrase that takes a neighbour of the part stays in the part. -/
theorem within_takeLeaf? {attempt : Attempt} {slot : ModelSlot} {referenced : Pattern}
    {grown : Phrase} {counted : MatchStatus} {length : Nat} (within : phrase.span.Within length)
    (inside : leaf.span.Within length)
    (taken : attempt.takeLeaf? stop slot referenced leaf phrase status = some (grown, counted)) :
    grown.span.Within length := by
  rw [span_of_takeLeaf? taken]
  exact within.stretch (inside.reach stop.side)

/-- Filling a slot with neighbours further on finds the same further on. -/
theorem fillModel_shift {slot : ModelSlot} {referenced : Pattern} {depth : Nat}
    {candidates moved : List (Phrase × Nat)} (embeds : Embeds extractor.admits part whole offset)
    (corresponds : moved = candidates.map (shiftLeaf offset count))
    (next : GoesAlike part offset count goOn resume)
    (inside : ∀ next ∈ candidates, next.1.span.Within part.length ∧
      ∀ head ∈ next.1.head, head < part.length)
    (within : phrase.span.Within part.length) (mirrors : Mirrors offset count trials others) :
    Agree (FoundAlike offset count)
      ((extractor.attempt part leaves number pattern).fillModel stop slot referenced goOn phrase
        status depth candidates trials)
      ((extractor.attempt whole all (number + count) pattern).fillModel stop slot referenced resume
        (phrase.shift offset) status depth moved others) := by
  subst corresponds
  induction candidates generalizing trials others with
  | nil => exact .ofPure (.nothing mirrors)
  | cons first candidates rest =>
    obtain ⟨leaf, place⟩ := first
    obtain ⟨⟨leafWithin, headed⟩, later⟩ := List.forall_mem_cons.mp inside
    -- The trial has been made on both sides or on neither, and the base is the same on both.
    have tried := mirrors.contains_shift ⟨stop.side, stop.index, place, phrase.span⟩
    have same : decide (place + count = number + count) = decide (place = number) :=
      decide_eq_decide.mpr (Nat.add_right_cancel_iff)
    rw [List.map_cons, shiftLeaf, fillModel, fillModel, takeLeaf?_shift leaves embeds headed]
    show Agree _ (if (decide (place = number) || decide (leaf.pattern ≠ slot.pattern) ||
        trials.contains ⟨stop.side, stop.index, place, phrase.span⟩) = true then _ else _)
      (if (decide (place + count = number + count) || decide (leaf.pattern ≠ slot.pattern) ||
        others.contains (Trial.shift offset count ⟨stop.side, stop.index, place, phrase.span⟩)) =
          true then _ else _)
    rw [tried, same]
    -- A neighbour is passed over on both sides, or it is tried on both.
    by_cases passed : (decide (place = number) || decide (leaf.pattern ≠ slot.pattern) ||
        trials.contains ⟨stop.side, stop.index, place, phrase.span⟩) = true
    · rw [if_pos passed, if_pos passed]
      exact rest later mirrors
    · rw [if_neg passed, if_neg passed]
      have inserted := mirrors.insert ⟨stop.side, stop.index, place, phrase.span⟩
      -- The trial counts as made, whether the neighbour meets the slot or not.
      cases taking : (extractor.attempt part leaves number pattern).takeLeaf? stop slot referenced
          leaf phrase status with
      | none => exact rest later inserted
      | some taken =>
        obtain ⟨grown, counted⟩ := taken
        have grownWithin := within_takeLeaf? within leafWithin taking
        refine (next _ _ _ _ _ grownWithin inserted).bind fun findings otherFindings alike => ?_
        refine (rest later alike.trials).bind fun further otherFurther alikeOn => ?_
        refine .ofPure ⟨?_, alikeOn.trials⟩
        rw [alike.found_eq, alikeOn.found_eq, List.map_append]

/-- Following a route further on finds the same further on. -/
theorem walk_shift (embeds : Embeds extractor.admits part whole offset)
    (stands : Stands part offset leaves lead all) (route : List Stop) :
    GoesAlike part offset lead.length ((extractor.attempt part leaves number pattern).walk route)
      ((extractor.attempt whole all (number + lead.length) pattern).walk route) := by
  -- The induction is on the route, so that going on behind a slot is the same already.
  induction route with
  | nil =>
    intro phrase status depth trials others _ mirrors
    rw [walk, walk]
    refine .ofPure ⟨?_, mirrors⟩
    -- Whether the phrase is complete is a matter of the slots that are filled.
    show (if status.isComplete pattern.length then [phrase.shift offset] else []) =
      (if status.isComplete pattern.length then [phrase] else []).map (Phrase.shift offset)
    split <;> rfl
  | cons stop route rest =>
    intro phrase status depth trials others within mirrors
    rw [walk, walk]
    refine .seq fun _ _ => ?_
    cases stop.component with
    | word slot =>
      have outward : (extractor.surroundings whole).outward stop.side (phrase.shift offset).span =
          ((extractor.surroundings part).outward stop.side phrase.span).map (renumber offset) :=
        embeds.outward_shift within
      exact fillWord_shift outward rest (fun _ => Surroundings.lt_of_mem_outward) within mirrors
    | model slot =>
      dsimp only
      rw [Extractor.registry_attempt, Extractor.registry_attempt]
      cases extractor.registry.byName? slot.pattern with
      | none => exact .ofPure (.nothing mirrors)
      | some referenced =>
        -- The neighbours in the index are phrases of words of the part.
        have listed : ∀ next ∈ (LeafIndex.ofList leaves).adjacent stop.side phrase.span,
            next.1.span.Within part.length ∧ ∀ head ∈ next.1.head, head < part.length := by
          intro next member
          have there := List.mem_of_getElem? (LeafIndex.mem_adjacent_ofList.mp member).1
          exact ⟨stands.inside next.1 there, stands.headed next.1 there⟩
        exact fillModel_shift embeds (stands.adjacent_shift stop.side within) rest listed within
          mirrors

end Attempt

namespace Extractor

variable {base : Phrase}

/-- A base further on starts a pattern as the base does, further on. -/
theorem seed_shift {slot : ModelSlot} :
    seed pattern slot (base.shift offset) = (seed pattern slot base).shift offset := by
  unfold seed
  split <;> rfl

/-- A base further on passes for a slot as the base does. -/
theorem baseStatus?_shift {slot : ModelSlot} :
    baseStatus? pattern slot (base.shift offset) = baseStatus? pattern slot base :=
  rfl

/-- A base of the part is grown into a pattern as it is, further on. -/
theorem compositeCandidates_shift (embeds : Embeds extractor.admits part whole offset)
    (stands : Stands part offset leaves lead all) (within : base.span.Within part.length) :
    Maps (Phrase.shift offset)
      (compositeCandidates extractor.registry (extractor.surroundings part) (.ofList leaves) base
        number pattern)
      (compositeCandidates extractor.registry (extractor.surroundings whole) (.ofList all)
        (base.shift offset) (number + lead.length) pattern) := by
  unfold compositeCandidates
  -- The slot of the base and what it asks are the same, wherever the base stands.
  rw [Phrase.pattern_shift]
  cases pattern.modelSlotIndex? base.pattern with
  | none => exact .ofPure rfl
  | some anchor =>
    dsimp only
    cases (pattern.component? anchor).bind Component.model? with
    | none => exact .ofPure rfl
    | some slot =>
      dsimp only
      rw [baseStatus?_shift]
      cases baseStatus? pattern slot base with
      | none => exact .ofPure rfl
      | some status =>
        refine .seq fun _ _ => ?_
        rw [seed_shift]
        have seedWithin : (seed pattern slot base).span.Within part.length := within
        -- Neither of the two searches has made a trial before.
        refine (Attempt.walk_shift embeds stands _ _ _ _ _ _ seedWithin mirrors_empty).bind ?_
        intro findings others alike
        exact .ofPure alike.found_eq

/-- The bases of the part are grown as they are, further on. -/
theorem gather_compositeCandidates (embeds : Embeds extractor.admits part whole offset)
    (stands : Stands part offset leaves lead all) :
    Maps (Phrase.shift offset)
      (Search.gather (fun (base, number) => Search.firstFound (compositeCandidates
        extractor.registry (extractor.surroundings part) (.ofList leaves) base number)
        extractor.registry.compositePatterns) leaves.zipIdx)
      (Search.gather (fun (base, number) => Search.firstFound (compositeCandidates
        extractor.registry (extractor.surroundings whole) (.ofList all) base number)
        extractor.registry.compositePatterns)
        (leaves.zipIdx.map (shiftLeaf offset lead.length))) := by
  refine .gather (List.forall₂_map_right_iff.mpr (List.forall₂_same.mpr fun next member => ?_))
  exact .firstFound fun pattern _ => compositeCandidates_shift embeds stands
    (stands.inside next.1 (List.fst_mem_of_mem_zipIdx member))

end Extractor

end PhraseGrammar
