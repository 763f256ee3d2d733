import PhraseGrammar.Extraction
import PhraseGrammar.Proofs.BoundaryReduction
import PhraseGrammar.Proofs.Confidence
import PhraseGrammar.Proofs.LeafIndex

/-! Sentences that differ in confidences alone are searched in lockstep if the same tokens are admitted. -/

namespace PhraseGrammar

open Search

/-- Whether around two sentences the same places are admitted, with tokens that correspond. -/
structure Surroundings.SameButConfidence (around other : Surroundings) : Prop where
  /-- The sentences are the same but for how sure their readings are. -/
  sentence : around.sentence.SameButConfidence other.sentence
  /-- The tokens at a position correspond. -/
  tokens : ∀ position : Nat,
    Option.Rel Token.SameButConfidence around.tokens[position]? other.tokens[position]?
  /-- The admitted tokens correspond. -/
  admitted : List.Forall₂ Token.PlacedAlike around.admitted other.admitted
  /-- So do the tokens next to a span. -/
  outward : ∀ side span,
    List.Forall₂ Token.PlacedAlike (around.outward side span) (other.outward side span)

/-- Around sentences that differ in confidences alone the tokens correspond. -/
theorem Surroundings.sameButConfidence_ofSentence {admits : Token → Bool}
    (blind : ∀ token other, token.SameButConfidence other → admits token = admits other)
    {sentence twin : Sentence} (same : sentence.SameButConfidence twin) :
    (ofSentence admits sentence).SameButConfidence (ofSentence admits twin) := by
  have numbered : List.Forall₂ Token.PlacedAlike sentence.tokens.zipIdx twin.tokens.zipIdx :=
    forall₂_zipIdx same.tokens 0
  have flags : List.Forall₂
      (fun item counterpart => Token.PlacedAlike item.1 counterpart.1 ∧ item.2 = counterpart.2)
      (flagged (fun item : Token × Nat => admits item.1) sentence.tokens.zipIdx)
      (flagged (fun item : Token × Nat => admits item.1) twin.tokens.zipIdx) :=
    List.rel_map (fun _ _ both => ⟨both, blind _ _ both.1⟩) numbered
  refine ⟨same, fun position => ?_, ?_, fun side span => ?_⟩
  · rw [ofSentence, ofSentence, List.getElem?_toArray, List.getElem?_toArray]
    exact rel_getElem?_of_forall₂ same.tokens position
  · rw [admitted_ofSentence, admitted_ofSentence]
    exact List.rel_filter (fun _ _ both => iff_of_eq (by simp only [blind _ _ both.1])) numbered
  · -- The runs correspond place by place, and beyond the last place both are empty.
    cases side with
    | left =>
      rw [outward, outward, ofSentence, ofSentence, List.getElem?_toArray, List.getElem?_toArray]
      exact rel_getD_of_forall₂ (List.rel_reverse (rel_runs (List.rel_reverse flags))) .nil span.first
    | right =>
      rw [outward, outward, ofSentence, ofSentence, List.getElem?_toArray, List.getElem?_toArray]
      exact rel_getD_of_forall₂ (rel_runs flags) .nil (span.last + 1)

/-! Phrases of words. -/

section Growth

variable {side : Side} {phrase counterpart : Phrase} {outward others : List (Token × Nat)}

/-- The last slot of a side is filled in lockstep. -/
theorem Phrase.growLast_lockstep (slot : WordSlot) (phrases : phrase.SameButConfidence counterpart)
    (tokens : List.Forall₂ Token.PlacedAlike outward others) :
    Lockstep (List.Forall₂ SameButConfidence) (phrase.growLast side slot outward)
      (counterpart.growLast side slot others) := by
  induction tokens generalizing phrase counterpart with
  | nil => exact .seq fun _ => .ofPure .nil
  | @cons next other _ _ here _ rest =>
    obtain ⟨token, position⟩ := next
    obtain ⟨token', position'⟩ := other
    obtain ⟨tokens, rfl⟩ : token.SameButConfidence token' ∧ position = position' := here
    have grown := phrases.push side position tokens
    rw [growLast, growLast, tokens.matchesToken slot]
    refine .seq fun _ => ?_
    split
    · split
      · -- The slot is filled again out of phrases that correspond.
        exact (rest grown).bind fun further more both => .ofPure (.cons grown both)
      · exact .ofPure (.cons grown .nil)
    · exact .ofPure .nil

/-- The slots of a side are filled in lockstep. -/
theorem Phrase.grow_lockstep (slots : List WordSlot)
    (phrases : phrase.SameButConfidence counterpart)
    (tokens : List.Forall₂ Token.PlacedAlike outward others) :
    Lockstep (List.Forall₂ SameButConfidence) (phrase.grow side slots outward)
      (counterpart.grow side slots others) := by
  -- The induction is on the slots, each but the last one taking one token.
  induction slots generalizing phrase counterpart outward others with
  | nil => exact .ofPure .nil
  | cons slot slots rest =>
    cases slots with
    | nil => exact growLast_lockstep slot phrases tokens
    | cons next slots =>
      cases tokens with
      | nil => exact .seq fun _ => .ofPure .nil
      | @cons first other _ _ here later =>
        obtain ⟨token, position⟩ := first
        obtain ⟨token', position'⟩ := other
        obtain ⟨tokens, rfl⟩ : token.SameButConfidence token' ∧ position = position' := here
        simp only [grow, tokens.matchesToken slot]
        refine .seq fun _ => ?_
        split
        · exact rest (phrases.push side position tokens) later
        · exact .ofPure .nil

end Growth

namespace Surroundings

variable {around other : Surroundings}

/-- A pattern grows out of its head in lockstep. -/
theorem growBoth_lockstep (same : around.SameButConfidence other) (pattern : Pattern) (head : Nat)
    {anchor counterpart : Phrase} (anchors : anchor.SameButConfidence counterpart) :
    Lockstep (List.Forall₂ Phrase.SameButConfidence) (around.growBoth pattern head anchor)
      (other.growBoth pattern head counterpart) := by
  unfold growBoth
  split
  · exact .ofPure (.cons anchors .nil)
  · rw [anchors.span]
    refine (Phrase.grow_lockstep _ anchors (same.outward _ _)).bind fun left others both => ?_
    -- The right side grows out of the last phrases on the left, which correspond, or the anchors.
    have seeds : (left.getLast?.getD anchor).SameButConfidence
        (others.getLast?.getD counterpart) := by
      rw [List.getLast?_eq_getElem?, List.getLast?_eq_getElem?, ← both.length_eq]
      exact rel_getD_of_forall₂ both anchors (left.length - 1)
    dsimp only
    rw [seeds.span]
    exact (Phrase.grow_lockstep _ seeds (same.outward _ _)).bind fun right more also =>
      .ofPure (List.rel_append both also)

/-- A pattern is tried at a head in lockstep. -/
theorem leafCandidates_lockstep (same : around.SameButConfidence other) (pattern : Pattern)
    {token counterpart : Token} (tokens : token.SameButConfidence counterpart) (position : Nat) :
    Lockstep (List.Forall₂ Phrase.SameButConfidence)
      (around.leafCandidates token position pattern)
      (other.leafCandidates counterpart position pattern) := by
  unfold leafCandidates
  split
  · rw [tokens.matchesToken]
    split
    · exact .seq fun _ => growBoth_lockstep same pattern _
        (Phrase.sameButConfidence_ofToken same.sentence tokens position pattern.name)
    · exact .ofPure .nil
  · exact .ofPure .nil

end Surroundings

/-- Whether the tokens that an extractor admits do not depend on how sure their readings are. -/
def Extractor.Blind (extractor : Extractor) : Prop :=
  ∀ token other, token.SameButConfidence other → extractor.admits token = extractor.admits other

namespace Extractor

variable {extractor : Extractor} {sentence twin : Sentence}

/-- The pass for phrases of words takes the same steps in both sentences. -/
theorem leafPass_lockstep (blind : extractor.Blind) (same : sentence.SameButConfidence twin) :
    Lockstep (List.Forall₂ Phrase.SameButConfidence) (extractor.leafPass sentence)
      (extractor.leafPass twin) := by
  have around := Surroundings.sameButConfidence_ofSentence blind same
  have heads : List.Forall₂ Token.PlacedAlike
      ((extractor.surroundings sentence).admitted.filter fun next =>
        extractor.registry.isHeadCandidate next.1)
      ((extractor.surroundings twin).admitted.filter fun next =>
        extractor.registry.isHeadCandidate next.1) :=
    List.rel_filter (fun _ _ both => iff_of_eq (by simp only [both.1.isHeadCandidate]))
      around.admitted
  unfold leafPass
  refine (Lockstep.gather (heads.imp fun next other both => ?_)).bind fun found others each =>
    .ofPure (Phrase.rel_dropEchoes (fun _ _ both => both.text) each)
  obtain ⟨token, position⟩ := next
  obtain ⟨token', position'⟩ := other
  obtain ⟨tokens, rfl⟩ : token.SameButConfidence token' ∧ position = position' := both
  exact Lockstep.gather (List.forall₂_same.mpr fun pattern _ =>
    Surroundings.leafCandidates_lockstep around pattern tokens position)

end Extractor

/-! Phrases of phrases. -/

/-- Whether two findings are the same but for how sure the readings in them are. -/
structure Findings.SameButConfidence (findings others : Findings) : Prop where
  /-- The phrases correspond one by one. -/
  found : List.Forall₂ Phrase.SameButConfidence findings.found others.found
  /-- The same trials have been made. -/
  trials : findings.trials = others.trials

/-- Whether two ways to go on are in lockstep for phrases that correspond. -/
def GoesTogether (goOn resume : Attempt.Continue) : Prop :=
  ∀ phrase counterpart status depth trials, phrase.SameButConfidence counterpart →
    Lockstep Findings.SameButConfidence (goOn phrase status depth trials)
      (resume counterpart status depth trials)

/-- Whether two numbered phrases are the same but for how sure the readings in them are. -/
def Phrase.NumberedTogether (next other : Phrase × Nat) : Prop :=
  next.1.SameButConfidence other.1 ∧ next.2 = other.2

namespace Findings.SameButConfidence

variable {findings others further furtherToo : Findings}

/-- Where nothing is found after the same trials, nothing differs. -/
theorem nothing (trials : Trials) : SameButConfidence ⟨[], trials⟩ ⟨[], trials⟩ :=
  ⟨.nil, rfl⟩

/-- What is found one after the other is the same if both parts are. -/
theorem append (here : findings.SameButConfidence others)
    (later : further.SameButConfidence furtherToo) :
    SameButConfidence ⟨findings.found ++ further.found, further.trials⟩
      ⟨others.found ++ furtherToo.found, furtherToo.trials⟩ :=
  ⟨List.rel_append here.found later.found, later.trials⟩

end Findings.SameButConfidence

/-- The phrases next to a span correspond. -/
theorem LeafIndex.rel_adjacent {leaves others : List Phrase}
    (each : List.Forall₂ Phrase.SameButConfidence leaves others) (side : Side) (span : Span) :
    List.Forall₂ Phrase.NumberedTogether ((ofList leaves).adjacent side span)
      ((ofList others).adjacent side span) := by
  rw [adjacent_ofList, adjacent_ofList]
  exact List.rel_filter (fun _ _ both => iff_of_eq (by simp only [both.1.span]))
    (forall₂_zipIdx each 0)

namespace Attempt

/-- Whether two attempts grow bases that correspond with neighbours that correspond. -/
structure SameButConfidence (attempt twin : Attempt) : Prop where
  /-- The grammar is the same. -/
  registry : attempt.registry = twin.registry
  /-- The surroundings correspond. -/
  around : attempt.around.SameButConfidence twin.around
  /-- The phrases of words correspond. -/
  leaves : ∀ side span, List.Forall₂ Phrase.NumberedTogether
    (attempt.leaves.adjacent side span) (twin.leaves.adjacent side span)
  /-- The bases have one number. -/
  base : attempt.base = twin.base
  /-- The slots are as many. -/
  length : attempt.length = twin.length

variable {attempt twin : Attempt} {goOn resume : Continue} {stop : Stop} {route : List Stop}
  {phrase counterpart leaf neighbour : Phrase} {status : MatchStatus} {depth : Nat}
  {trials : Trials}

/-- Tokens that correspond are taken alike, with the same status after it. -/
theorem takeWord_sameButConfidence (stop : Stop) (slot : WordSlot) (status : MatchStatus)
    (position : Nat) {token other : Token} (phrases : phrase.SameButConfidence counterpart)
    (tokens : token.SameButConfidence other) :
    (takeWord stop slot token position phrase status).1.SameButConfidence
        (takeWord stop slot other position counterpart status).1 ∧
      (takeWord stop slot token position phrase status).2 =
        (takeWord stop slot other position counterpart status).2 := by
  have grown := phrases.push stop.side position tokens
  unfold takeWord
  dsimp only
  split
  · exact ⟨grown.withHead (some position), rfl⟩
  · exact ⟨grown, rfl⟩

/-- Tokens that correspond fill a slot in lockstep. -/
theorem fillWord_together {slot : WordSlot} (goes : GoesTogether goOn resume)
    {outward others : List (Token × Nat)}
    (tokens : List.Forall₂ Token.PlacedAlike outward others)
    (phrases : phrase.SameButConfidence counterpart) :
    Lockstep Findings.SameButConfidence
      (fillWord stop slot goOn outward phrase status depth trials)
      (fillWord stop slot resume others counterpart status depth trials) := by
  induction tokens generalizing phrase counterpart status depth trials with
  | nil => exact .ofPure (.nothing trials)
  | @cons next other _ _ here _ rest =>
    obtain ⟨token, position⟩ := next
    obtain ⟨token', position'⟩ := other
    obtain ⟨tokens, rfl⟩ : token.SameButConfidence token' ∧ position = position' := here
    obtain ⟨grown, counted⟩ := takeWord_sameButConfidence stop slot status position phrases tokens
    simp only [fillWord, tokens.matchesToken slot, counted]
    split
    · refine (goes _ _ _ _ _ grown).bind fun findings others found => ?_
      split
      · -- The slot is filled again with the tokens further out.
        refine .seq fun _ => ?_
        rw [found.trials]
        exact (rest grown).bind fun further more also => .ofPure (found.append also)
      · exact .ofPure found
    · exact .ofPure (.nothing trials)

/-- The heads of phrases that correspond are the same token but for how sure its readings are. -/
theorem headMatches_congr (same : attempt.SameButConfidence twin)
    (leaves : leaf.SameButConfidence neighbour) (pattern : Pattern) :
    attempt.headMatches pattern leaf = twin.headMatches pattern neighbour := by
  unfold headMatches
  rw [leaves.head]
  cases pattern.headWord? with
  | none => rfl
  | some slot =>
    cases neighbour.head with
    | none => rfl
    | some position =>
      have tokens := same.around.tokens position
      rw [Option.bind_some, Option.bind_some]
      generalize attempt.around.tokens[position]? = token at tokens ⊢
      generalize twin.around.tokens[position]? = other at tokens ⊢
      cases tokens with
      | none => rfl
      | some both => exact both.matchesToken slot

/-- Neighbours that correspond are taken alike, or both are refused. -/
theorem takeLeaf?_together (stop : Stop) (slot : ModelSlot) (pattern : Pattern)
    (status : MatchStatus) (same : attempt.SameButConfidence twin)
    (leaves : leaf.SameButConfidence neighbour) (phrases : phrase.SameButConfidence counterpart) :
    Option.Rel (fun after other => after.1.SameButConfidence other.1 ∧ after.2 = other.2)
      (attempt.takeLeaf? stop slot pattern leaf phrase status)
      (twin.takeLeaf? stop slot pattern neighbour counterpart status) := by
  have demands : meetsAdditional slot leaf = meetsAdditional slot neighbour :=
    leaves.any_row fun _ _ both => any_of_forall₂ both.readings fun _ _ readings =>
      slot.condition.matchesAdditional_congr readings
  have accepted : leaf.row.any slot.condition.acceptsToken =
      neighbour.row.any slot.condition.acceptsToken :=
    leaves.any_row fun _ _ both => both.acceptsToken slot.condition
  have grown := phrases.absorb stop.side leaves
  unfold takeLeaf?
  dsimp only
  rw [headMatches_congr same leaves, demands, accepted]
  -- The same tests decide on both neighbours, and on the head that the phrase takes over.
  split
  · exact .none
  · split
    · exact .none
    · split
      · exact .none
      · refine .some ?_
        split
        · rw [leaves.head]
          exact ⟨grown.withHead neighbour.head, rfl⟩
        · exact ⟨grown, rfl⟩

/-- Neighbours that correspond fill a slot in lockstep. -/
theorem fillModel_together (same : attempt.SameButConfidence twin) {slot : ModelSlot}
    {pattern : Pattern} (goes : GoesTogether goOn resume) {candidates others : List (Phrase × Nat)}
    (each : List.Forall₂ Phrase.NumberedTogether candidates others)
    (phrases : phrase.SameButConfidence counterpart) :
    Lockstep Findings.SameButConfidence
      (attempt.fillModel stop slot pattern goOn phrase status depth candidates trials)
      (twin.fillModel stop slot pattern resume counterpart status depth others trials) := by
  induction each generalizing trials with
  | nil => exact .ofPure (.nothing trials)
  | @cons next other _ _ here _ rest =>
    obtain ⟨leaf, number⟩ := next
    obtain ⟨neighbour, number'⟩ := other
    obtain ⟨leaves, rfl⟩ : leaf.SameButConfidence neighbour ∧ number = number' := here
    simp only [fillModel, same.base, leaves.pattern, phrases.span]
    -- Both searches pass over the same neighbours.
    split
    · exact rest
    · have taken := takeLeaf?_together stop slot pattern status same leaves phrases
      generalize attempt.takeLeaf? stop slot pattern leaf phrase status = after at taken ⊢
      generalize twin.takeLeaf? stop slot pattern neighbour counterpart status = afterToo
        at taken ⊢
      cases taken with
      | none => exact rest
      | @some after afterToo both =>
        obtain ⟨grown, status⟩ := after
        obtain ⟨grownToo, status'⟩ := afterToo
        obtain ⟨grows, rfl⟩ : grown.SameButConfidence grownToo ∧ status = status' := both
        refine (goes _ _ _ _ _ grows).bind fun findings others found => ?_
        rw [found.trials]
        exact rest.bind fun further more also => .ofPure (found.append also)

/-- A route is followed in lockstep. -/
theorem SameButConfidence.walk_together (same : attempt.SameButConfidence twin) (route : List Stop) :
    GoesTogether (attempt.walk route) (twin.walk route) := by
  induction route with
  | nil =>
    intro phrase counterpart status depth trials phrases
    rw [walk, walk, same.length]
    split
    · exact .ofPure ⟨.cons phrases .nil, rfl⟩
    · exact .ofPure (.nothing trials)
  | cons stop route goes =>
    intro phrase counterpart status depth trials phrases
    rw [walk, walk, phrases.span]
    refine .seq fun _ => ?_
    split
    · exact fillWord_together goes (same.around.outward _ _) phrases
    · rw [same.registry]
      split
      · exact .ofPure (.nothing trials)
      · exact fillModel_together same goes (same.leaves _ _) phrases

end Attempt

namespace Extractor

variable {extractor : Extractor} {sentence twin : Sentence} {leaves others : List Phrase}
  {base counterpart : Phrase} {number : Nat} {pattern : Pattern}

/-- Bases that correspond start out with the same status, or neither passes. -/
theorem baseStatus?_congr (bases : base.SameButConfidence counterpart) (slot : ModelSlot) :
    baseStatus? pattern slot base = baseStatus? pattern slot counterpart := by
  unfold baseStatus?
  dsimp only
  have accepted : Option.Rel Reading.SameButConfidence
      (base.row.findSome? slot.condition.acceptedReading?)
      (counterpart.row.findSome? slot.condition.acceptedReading?) := by
    rw [← TokenRow.findSome?_toList, ← TokenRow.findSome?_toList]
    exact rel_findSome?_of_forall₂ bases.tokens fun _ _ both => both.acceptedReading? slot.condition
  generalize base.row.findSome? slot.condition.acceptedReading? = reading at accepted ⊢
  generalize counterpart.row.findSome? slot.condition.acceptedReading? = other at accepted ⊢
  cases accepted with
  | none => rfl
  | some both => simp only [slot.condition.matchesAdditional_congr both]

/-- Phrases that correspond become seeds that correspond. -/
theorem seed_sameButConfidence (bases : base.SameButConfidence counterpart) (slot : ModelSlot) :
    (seed pattern slot base).SameButConfidence (seed pattern slot counterpart) := by
  unfold seed
  rw [bases.head]
  exact ⟨bases.span, bases.tokens, rfl, bases.document, bases.sentence, rfl⟩

/-- Bases that correspond are grown in lockstep. -/
theorem compositeCandidates_together (blind : extractor.Blind)
    (same : sentence.SameButConfidence twin)
    (each : List.Forall₂ Phrase.SameButConfidence leaves others)
    (bases : base.SameButConfidence counterpart) :
    Lockstep (List.Forall₂ Phrase.SameButConfidence)
      (compositeCandidates extractor.registry (extractor.surroundings sentence)
        (.ofList leaves) base number pattern)
      (compositeCandidates extractor.registry (extractor.surroundings twin)
        (.ofList others) counterpart number pattern) := by
  unfold compositeCandidates
  rw [bases.pattern]
  -- The slot that the bases fill is the same, and they pass for it with the same status.
  split
  · exact .ofPure .nil
  · split
    · exact .ofPure .nil
    · rw [baseStatus?_congr bases]
      split
      · exact .ofPure .nil
      · have attempts : Attempt.SameButConfidence
            ⟨extractor.registry, extractor.surroundings sentence, .ofList leaves, number,
              pattern.length⟩
            ⟨extractor.registry, extractor.surroundings twin, .ofList others, number,
              pattern.length⟩ :=
          ⟨rfl, Surroundings.sameButConfidence_ofSentence blind same, LeafIndex.rel_adjacent each,
            rfl, rfl⟩
        refine .seq fun _ => ?_
        refine (attempts.walk_together _ _ _ _ 1 ∅ (seed_sameButConfidence bases _)).bind
          fun findings more found => ?_
        exact .ofPure found.found

/-- The pass for phrases of phrases takes the same steps in both sentences. -/
theorem compositePass_together (blind : extractor.Blind) (same : sentence.SameButConfidence twin)
    (each : List.Forall₂ Phrase.SameButConfidence leaves others) :
    Lockstep (List.Forall₂ Phrase.SameButConfidence) (extractor.compositePass sentence leaves)
      (extractor.compositePass twin others) := by
  unfold compositePass
  refine (Lockstep.gather ((forall₂_zipIdx each 0).imp fun next other both => ?_)).bind
    fun found more alike => .ofPure (Phrase.rel_dropEchoes (fun _ _ both => both.text) alike)
  obtain ⟨base, number⟩ := next
  obtain ⟨counterpart, number'⟩ := other
  obtain ⟨bases, rfl⟩ : base.SameButConfidence counterpart ∧ number = number' := both
  exact Lockstep.firstFound (List.forall₂_same.mpr fun pattern _ =>
    compositeCandidates_together blind same each bases)

end Extractor

/-- Whether two extractions are the same but for how sure the readings in them are. -/
structure Extraction.SameButConfidence (extraction other : Extraction) : Prop where
  /-- The phrases of words correspond one by one. -/
  simple : List.Forall₂ Phrase.SameButConfidence extraction.simple other.simple
  /-- The phrases of phrases correspond one by one. -/
  complex : List.Forall₂ Phrase.SameButConfidence extraction.complex other.complex

/-- Both passes together take the same steps in both sentences. -/
theorem Extractor.search_together {extractor : Extractor} {sentence twin : Sentence}
    (blind : extractor.Blind) (same : sentence.SameButConfidence twin) :
    Lockstep Extraction.SameButConfidence (extractor.search sentence) (extractor.search twin) := by
  unfold search
  refine (leafPass_lockstep blind same).bind fun simple others each => ?_
  refine (compositePass_together blind same each).bind fun complex more found => ?_
  refine .ofPure ⟨each, ?_⟩
  unfold reduce
  split
  · exact Phrase.rel_reduceBoundaries (fun _ _ both => both.span) found
  · exact found

end PhraseGrammar
