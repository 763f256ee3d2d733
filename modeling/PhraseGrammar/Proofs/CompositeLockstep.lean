import PhraseGrammar.Proofs.CompositePass
import PhraseGrammar.Proofs.Likeness
import PhraseGrammar.Proofs.Lockstep

/-! Phrases grow into patterns that are alike in lockstep, and roles only decide on their heads. -/

namespace PhraseGrammar

open Search

variable {same : Prop}

/-- Whether two phrases are the same but for their heads, which are so under a condition. -/
def Phrase.AlikeButHead (same : Prop) (phrase other : Phrase) : Prop :=
  ∃ head, other = { phrase with head } ∧ (same → head = phrase.head)

/-- Whether two stops are for slots that are filled alike at the same place of their patterns. -/
structure Stop.Alike (stop other : Stop) : Prop where
  /-- The side is the same. -/
  side : stop.side = other.side
  /-- The index is the same. -/
  index : stop.index = other.index
  /-- The slots are filled alike. -/
  component : stop.component.Alike other.component
  /-- Both are the last ones on their side, or neither is. -/
  outermost : stop.outermost = other.outermost

/-- The place on a route of the first slot with the role of the head. -/
def firstHead? (route : List Stop) : Option Nat :=
  route.findIdx? fun stop => stop.component.isHead

/-- Whether two findings are the same but for the heads of the phrases. -/
structure Findings.AlikeButHeads (same : Prop) (findings others : Findings) : Prop where
  /-- The phrases are the same but for their heads. -/
  found : List.Forall₂ (Phrase.AlikeButHead same) findings.found others.found
  /-- The same trials have been made. -/
  trials : findings.trials = others.trials

/-- What two searches for a composite phrase have in common while slots of their routes are left. -/
structure Abreast (same : Prop) (length : Nat) (route others : List Stop)
    (phrase counterpart : Phrase) (status resumed : MatchStatus) : Prop where
  /-- The phrases are the same but for their heads. -/
  phrases : phrase.AlikeButHead same counterpart
  /-- Nothing is missing in the one search but the slots that are left. -/
  awaits : status.Awaits route length
  /-- Nothing is missing in the other one, either. -/
  awaitsToo : resumed.Awaits others length
  /-- Where heads are to be the same, so is what is still to decide on them. -/
  heads : same → status.headChecked = resumed.headChecked ∧
    (status.headChecked = true ∨ firstHead? route = firstHead? others)

namespace Phrase.AlikeButHead

variable {phrase other : Phrase}

/-- Both phrases stand in one place. -/
theorem span (alike : phrase.AlikeButHead same other) : phrase.span = other.span := by
  obtain ⟨head, rfl, _⟩ := alike
  rfl

/-- Both phrases have the same tokens. -/
theorem row (alike : phrase.AlikeButHead same other) : phrase.row = other.row := by
  obtain ⟨head, rfl, _⟩ := alike
  rfl

/-- A token leaves phrases alike. -/
theorem push (alike : phrase.AlikeButHead same other) (side : Side) (position : Nat)
    (token : Token) :
    (phrase.push side position token).AlikeButHead same (other.push side position token) := by
  obtain ⟨head, rfl, agree⟩ := alike
  exact ⟨head, rfl, agree⟩

/-- A neighbour leaves phrases alike. -/
theorem absorb (alike : phrase.AlikeButHead same other) (side : Side) (leaf : Phrase) :
    (phrase.absorb side leaf).AlikeButHead same (other.absorb side leaf) := by
  obtain ⟨head, rfl, agree⟩ := alike
  exact ⟨head, rfl, agree⟩

/-- Phrases whose heads are replaced are alike if the new heads are the same where they must be. -/
theorem withHeads (alike : phrase.AlikeButHead same other) {head counterpart : Option Nat}
    (agree : same → counterpart = head) :
    Phrase.AlikeButHead same { phrase with head } { other with head := counterpart } := by
  obtain ⟨_, rfl, _⟩ := alike
  exact ⟨counterpart, rfl, agree⟩

end Phrase.AlikeButHead

/-- A slot has a kind and an index where the stop for it stands on the route. -/
theorem firstHead?_cons (stop : Stop) (route : List Stop) :
    firstHead? (stop :: route) =
      if stop.component.isHead then some 0 else (firstHead? route).map (· + 1) :=
  List.findIdx?_cons

/-- Takes over the head of what fills a slot if it is the first one with the role of the head. -/
def recordFirstHead (isHead : Bool) (head : Option Nat) (grown : Phrase) (counted : MatchStatus) :
    Phrase × MatchStatus :=
  if isHead && !counted.headChecked then ({ grown with head }, counted.recordHead true)
  else (grown, counted)

/-- The status with one more slot filled, which may have had demands on the words. -/
def MatchStatus.count (status : MatchStatus) (demanding : Bool) : MatchStatus :=
  { status with
    consumed := status.consumed + 1
    lexiconSatisfied := status.lexiconSatisfied || demanding }

/-- Whether a status has come from another one by filling a slot, its head left aside. -/
structure MatchStatus.Counted (status counted : MatchStatus) : Prop where
  /-- More has been taken. -/
  consumed : status.consumed < counted.consumed
  /-- What is asked of the words stays met. -/
  lexicon : status.lexiconSatisfied = true → counted.lexiconSatisfied = true
  /-- The head has been looked at if it had been. -/
  checked : counted.headChecked = status.headChecked
  /-- The head matches if it did. -/
  matched : counted.headMatched = status.headMatched

/-- A filled slot is counted. -/
theorem MatchStatus.counted (status : MatchStatus) (demanding : Bool) :
    status.Counted (status.count demanding) where
  consumed := Nat.lt_succ_self _
  lexicon met := by rw [count, met, Bool.true_or]
  checked := rfl
  matched := rfl

section Recording

variable {isHead : Bool} {head : Option Nat} {grown : Phrase} {status counted : MatchStatus}

/-- A head is taken over for the first slot with the role of the head. -/
theorem recordFirstHead_first (first : isHead = true) (unchecked : counted.headChecked = false) :
    recordFirstHead isHead head grown counted =
      ({ grown with head }, { counted with headChecked := true, headMatched := true }) := by
  simp [recordFirstHead, MatchStatus.recordHead, first, unchecked]

/-- Nothing is taken over for other slots, or later ones. -/
theorem recordFirstHead_later (later : ¬(isHead = true ∧ counted.headChecked = false)) :
    recordFirstHead isHead head grown counted = (grown, counted) := by
  rw [recordFirstHead, if_neg]
  simpa using later

/-- Filling a slot leaves the slots after it. -/
theorem MatchStatus.Awaits.take {stop : Stop} {route : List Stop} {length : Nat}
    (awaits : status.Awaits (stop :: route) length) (kept : status.Counted counted) :
    (recordFirstHead stop.component.isHead head grown counted).2.Awaits route length := by
  have consumed : length ≤ counted.consumed + route.length := by
    have enough := awaits.consumed
    have more := kept.consumed
    rw [List.length_cons] at enough
    omega
  by_cases first : stop.component.isHead = true ∧ counted.headChecked = false
  · rw [recordFirstHead_first first.1 first.2]
    exact ⟨kept.lexicon awaits.lexicon, fun _ => rfl, .inl rfl, consumed⟩
  · rw [recordFirstHead_later first]
    refine ⟨kept.lexicon awaits.lexicon, ?_, ?_, consumed⟩
    · rw [kept.checked, kept.matched]
      exact awaits.matched
    · rcases awaits.checked with looked | ⟨other, member, isHead⟩
      · exact .inl (kept.checked.trans looked)
      · rcases List.mem_cons.mp member with rfl | member
        · -- The slot has the role of the head, so the head must have been looked at before.
          exact .inl (by simpa [isHead] using first)
        · exact .inr ⟨other, member, isHead⟩

/-- Nothing is lost if a slot that is filled may be filled again. -/
theorem MatchStatus.Awaits.again {route : List Stop} {length : Nat}
    (awaits : status.Awaits route length) (stop : Stop) : status.Awaits (stop :: route) length where
  lexicon := awaits.lexicon
  matched := awaits.matched
  checked := awaits.checked.imp_right fun ⟨other, member, isHead⟩ =>
    ⟨other, List.mem_cons_of_mem stop member, isHead⟩
  consumed := Nat.le_succ_of_le awaits.consumed

end Recording

namespace Abreast

variable {length : Nat} {route others : List Stop} {stop next : Stop}
  {phrase counterpart grown grownToo : Phrase} {status resumed counted countedToo : MatchStatus}

/-- Where heads are to be the same, both searches look at a head in the same slot. -/
theorem first_iff
    (abreast : Abreast same length (stop :: route) (next :: others) phrase counterpart status
      resumed) (holds : same) :
    (stop.component.isHead = true ∧ status.headChecked = false) ↔
      (next.component.isHead = true ∧ resumed.headChecked = false) := by
  obtain ⟨checked, looked | first⟩ := abreast.heads holds
  · simp [← checked, looked]
  · -- The first slots for a head are at one place, so the slots here both are for a head or not.
    rw [firstHead?_cons, firstHead?_cons] at first
    rw [checked]
    cases here : stop.component.isHead <;> cases there : next.component.isHead <;>
      simp [here, there] at first ⊢

/-- Where no head is looked at, it is decided on further out in both searches or in neither. -/
theorem later
    (abreast : Abreast same length (stop :: route) (next :: others) phrase counterpart status
      resumed) (holds : same)
    (unmoved : ¬(stop.component.isHead = true ∧ status.headChecked = false)) :
    status.headChecked = true ∨ firstHead? route = firstHead? others := by
  have unmovedToo := mt (abreast.first_iff holds).mpr unmoved
  obtain ⟨checked, looked | first⟩ := abreast.heads holds
  · exact .inl looked
  · cases looked : status.headChecked with
    | true => exact .inl rfl
    | false =>
      -- Neither slot is for a head, so the first one for a head comes behind both.
      have notHead : stop.component.isHead = false := by simpa [looked] using unmoved
      have notHeadToo : next.component.isHead = false := by
        simpa [← checked, looked] using unmovedToo
      rw [firstHead?_cons, firstHead?_cons, notHead, notHeadToo, if_neg Bool.false_ne_true,
        if_neg Bool.false_ne_true] at first
      exact .inr (Option.map_injective (fun _ _ => Nat.succ.inj) first)

/-- Searches that fill a slot with the same thing stay abreast, and may fill it again. -/
theorem take
    (abreast : Abreast same length (stop :: route) (next :: others) phrase counterpart status
      resumed)
    (alike : grown.AlikeButHead same grownToo) (kept : status.Counted counted)
    (keptToo : resumed.Counted countedToo) (head : Option Nat)
    {after afterToo : Phrase × MatchStatus}
    (taken : after = recordFirstHead stop.component.isHead head grown counted)
    (takenToo : afterToo = recordFirstHead next.component.isHead head grownToo countedToo) :
    Abreast same length route others after.1 afterToo.1 after.2 afterToo.2 ∧
      Abreast same length (stop :: route) (next :: others) after.1 afterToo.1 after.2
        afterToo.2 := by
  have awaits : after.2.Awaits route length := taken ▸ abreast.awaits.take kept
  have awaitsToo : afterToo.2.Awaits others length := takenToo ▸ abreast.awaitsToo.take keptToo
  have first := abreast.first_iff
  have later := abreast.later
  have heads := abreast.heads
  rw [← kept.checked] at first later heads
  rw [← keptToo.checked] at first heads
  -- The head is looked at in both searches or in neither, unless heads may differ.
  have settled : after.1.AlikeButHead same afterToo.1 ∧ (same → after.2.headChecked =
      afterToo.2.headChecked ∧ (after.2.headChecked = true ∨ firstHead? route = firstHead? others) ∧
        (after.2.headChecked = true ∨ firstHead? (stop :: route) = firstHead? (next :: others))) := by
    by_cases here : stop.component.isHead = true ∧ counted.headChecked = false <;>
      by_cases there : next.component.isHead = true ∧ countedToo.headChecked = false
    · rw [taken, takenToo, recordFirstHead_first here.1 here.2,
        recordFirstHead_first there.1 there.2]
      exact ⟨alike.withHeads fun _ => rfl, fun _ => ⟨rfl, .inl rfl, .inl rfl⟩⟩
    · rw [taken, takenToo, recordFirstHead_first here.1 here.2, recordFirstHead_later there]
      obtain ⟨other, rfl, _⟩ := alike
      exact ⟨⟨other, rfl, fun holds => absurd ((first holds).mp here) there⟩,
        fun holds => absurd ((first holds).mp here) there⟩
    · rw [taken, takenToo, recordFirstHead_later here, recordFirstHead_first there.1 there.2]
      obtain ⟨other, rfl, _⟩ := alike
      exact ⟨⟨head, rfl, fun holds => absurd ((first holds).mpr there) here⟩,
        fun holds => absurd ((first holds).mpr there) here⟩
    · rw [taken, takenToo, recordFirstHead_later here, recordFirstHead_later there]
      exact ⟨alike, fun holds => ⟨(heads holds).1, later holds here, (heads holds).2⟩⟩
  obtain ⟨phrases, heads⟩ := settled
  exact ⟨⟨phrases, awaits, awaitsToo, fun holds => ⟨(heads holds).1, (heads holds).2.1⟩⟩,
    ⟨phrases, awaits.again stop, awaitsToo.again next,
      fun holds => ⟨(heads holds).1, (heads holds).2.2⟩⟩⟩

end Abreast

/-- Whether two ways to go on are in lockstep wherever the searches are abreast. -/
def GoesAbreast (same : Prop) (length : Nat) (route others : List Stop)
    (goOn resume : Attempt.Continue) : Prop :=
  ∀ phrase counterpart status resumed depth trials,
    Abreast same length route others phrase counterpart status resumed →
    Lockstep (Findings.AlikeButHeads same) (goOn phrase status depth trials)
      (resume counterpart resumed depth trials)

/-- Whether every neighbour has a head that meets its pattern, as the search asks for it. -/
def Attempt.HeadsMatch (attempt : Attempt) (candidates : List (Phrase × Nat)) : Prop :=
  ∀ next ∈ candidates, ∀ referenced, attempt.registry.byName? next.1.pattern = some referenced →
    attempt.headMatches referenced next.1

namespace Findings.AlikeButHeads

variable {findings others further furtherToo : Findings}

/-- Where nothing is found after the same trials, nothing differs. -/
theorem nothing (trials : Trials) : AlikeButHeads same ⟨[], trials⟩ ⟨[], trials⟩ :=
  ⟨.nil, rfl⟩

/-- What is found one after the other is alike if both parts are. -/
theorem append (here : findings.AlikeButHeads same others)
    (later : further.AlikeButHeads same furtherToo) :
    AlikeButHeads same ⟨findings.found ++ further.found, further.trials⟩
      ⟨others.found ++ furtherToo.found, furtherToo.trials⟩ :=
  ⟨List.rel_append here.found later.found, later.trials⟩

end Findings.AlikeButHeads

namespace Attempt

variable {length : Nat} {route others : List Stop} {stop next : Stop} {goOn resume : Continue}
  {phrase counterpart leaf : Phrase} {status resumed : MatchStatus}

/-- A token is taken with itself as the head. -/
theorem takeWord_eq {slot : WordSlot} {token : Token} {position : Nat} :
    takeWord stop slot token position phrase status =
      recordFirstHead slot.condition.isHead (some position)
        (phrase.push stop.side position token)
        (status.count !slot.condition.additional.isEmpty) :=
  rfl

/-- A neighbour whose head matches is taken with its head if it meets the demands of the slot. -/
theorem takeLeaf?_eq {attempt : Attempt} {slot : ModelSlot} {referenced : Pattern}
    (headMatches : attempt.headMatches referenced leaf) :
    attempt.takeLeaf? stop slot referenced leaf phrase status =
      if leaf.row.any slot.condition.acceptsToken &&
          (slot.condition.additional.isEmpty || meetsAdditional slot leaf) then
        some (recordFirstHead slot.condition.isHead leaf.head (phrase.absorb stop.side leaf)
          (status.count !slot.condition.additional.isEmpty))
      else none := by
  unfold takeLeaf?
  simp only [headMatches, Bool.not_true, Bool.and_false, Bool.false_eq_true, if_false]
  -- Only the two tests of the readings are left to refuse the neighbour.
  cases leaf.row.any slot.condition.acceptsToken <;>
    cases slot.condition.additional.isEmpty <;> cases meetsAdditional slot leaf <;>
    simp [recordFirstHead, MatchStatus.count]

/-- Searches that take the same token stay abreast. -/
theorem takeWord_abreast {slot other : WordSlot} (stops : stop.Alike next)
    (isWord : stop.component = .word slot) (isWordToo : next.component = .word other)
    (abreast : Abreast same length (stop :: route) (next :: others) phrase counterpart status
      resumed) (token : Token) (position : Nat) :
    let after := takeWord stop slot token position phrase status
    let afterToo := takeWord next other token position counterpart resumed
    Abreast same length route others after.1 afterToo.1 after.2 afterToo.2 ∧
      Abreast same length (stop :: route) (next :: others) after.1 afterToo.1 after.2
        afterToo.2 := by
  refine abreast.take (abreast.phrases.push stop.side position token)
    (status.counted !slot.condition.additional.isEmpty)
    (resumed.counted !other.condition.additional.isEmpty) (some position) ?_ ?_
  · rw [takeWord_eq, isWord]
    rfl
  · rw [takeWord_eq, isWordToo, stops.side]
    rfl

/-- Tokens fill slots that are alike in lockstep. -/
theorem fillWord_lockstep {slot other : WordSlot} (stops : stop.Alike next)
    (isWord : stop.component = .word slot) (isWordToo : next.component = .word other)
    (slots : slot.Alike other) (goes : GoesAbreast same length route others goOn resume)
    {outward : List (Token × Nat)} {depth : Nat} {trials : Trials}
    (abreast : Abreast same length (stop :: route) (next :: others) phrase counterpart status
      resumed) :
    Lockstep (Findings.AlikeButHeads same)
      (fillWord stop slot goOn outward phrase status depth trials)
      (fillWord next other resume outward counterpart resumed depth trials) := by
  induction outward generalizing phrase counterpart status resumed depth trials with
  | nil => exact .ofPure (.nothing trials)
  | cons first outward rest =>
    obtain ⟨token, position⟩ := first
    obtain ⟨here, again⟩ := takeWord_abreast stops isWord isWordToo abreast token position
    simp only [fillWord, slots.matchesToken, slots.isRepeated, stops.outermost]
    split
    · refine (goes _ _ _ _ _ _ here).bind fun findings findingsToo found => ?_
      split
      · -- The slot may be filled again, as nothing is lost by filling it.
        refine .seq fun _ => ?_
        rw [found.trials]
        refine (rest again).bind fun further furtherToo more => ?_
        exact .ofPure (found.append more)
      · exact .ofPure found
    · exact .ofPure (.nothing trials)

/-- A neighbour whose head matches is taken by both searches, which stay abreast, or by neither. -/
theorem takeLeaf?_abreast {attempt resumption : Attempt} {slot other : ModelSlot}
    {referenced referencedToo : Pattern} (stops : stop.Alike next)
    (isModel : stop.component = .model slot) (isModelToo : next.component = .model other)
    (slots : slot.Alike other)
    (abreast : Abreast same length (stop :: route) (next :: others) phrase counterpart status
      resumed)
    (headMatches : attempt.headMatches referenced leaf)
    (headMatchesToo : resumption.headMatches referencedToo leaf) :
    (attempt.takeLeaf? stop slot referenced leaf phrase status = none ∧
      resumption.takeLeaf? next other referencedToo leaf counterpart resumed = none) ∨
    ∃ after afterToo, attempt.takeLeaf? stop slot referenced leaf phrase status = some after ∧
      resumption.takeLeaf? next other referencedToo leaf counterpart resumed = some afterToo ∧
      Abreast same length route others after.1 afterToo.1 after.2 afterToo.2 := by
  have demands : meetsAdditional slot leaf = meetsAdditional other leaf := by
    simp only [meetsAdditional, slots.condition.matchesAdditional]
  rw [takeLeaf?_eq headMatches, takeLeaf?_eq headMatchesToo, slots.condition.acceptsToken,
    slots.isEmpty, demands]
  -- The demands of both slots are met by the same neighbours.
  split
  · refine .inr ⟨_, _, rfl, rfl, ?_⟩
    refine (abreast.take (abreast.phrases.absorb stop.side leaf)
      (status.counted !other.condition.additional.isEmpty)
      (resumed.counted !other.condition.additional.isEmpty) leaf.head ?_ ?_).1
    · rw [isModel]
      rfl
    · rw [isModelToo, stops.side]
      rfl
  · exact .inl ⟨rfl, rfl⟩

/-- Neighbours fill slots that are alike in lockstep. -/
theorem fillModel_lockstep {attempt resumption : Attempt} {slot other : ModelSlot}
    {referenced referencedToo : Pattern} (base : attempt.base = resumption.base)
    (stops : stop.Alike next) (isModel : stop.component = .model slot)
    (isModelToo : next.component = .model other) (slots : slot.Alike other)
    (found : attempt.registry.byName? slot.pattern = some referenced)
    (foundToo : resumption.registry.byName? other.pattern = some referencedToo)
    (goes : GoesAbreast same length route others goOn resume)
    {candidates : List (Phrase × Nat)} (headsMatch : attempt.HeadsMatch candidates)
    (headsMatchToo : resumption.HeadsMatch candidates) {depth : Nat} {trials : Trials}
    (abreast : Abreast same length (stop :: route) (next :: others) phrase counterpart status
      resumed) :
    Lockstep (Findings.AlikeButHeads same)
      (attempt.fillModel stop slot referenced goOn phrase status depth candidates trials)
      (resumption.fillModel next other referencedToo resume counterpart resumed depth candidates
        trials) := by
  induction candidates generalizing trials with
  | nil => exact .ofPure (.nothing trials)
  | cons first candidates rest =>
    obtain ⟨leaf, number⟩ := first
    obtain ⟨here, later⟩ := List.forall_mem_cons.mp headsMatch
    obtain ⟨hereToo, laterToo⟩ := List.forall_mem_cons.mp headsMatchToo
    simp only [fillModel, base, stops.side, stops.index, slots.pattern, abreast.phrases.span]
    -- Both pass over the same neighbours, be they the base, of another pattern or tried before.
    split
    · exact rest later laterToo
    · rename_i kept
      have named : leaf.pattern = other.pattern := by
        simp only [Bool.or_eq_true, decide_eq_true_eq, not_or, ne_eq, not_not] at kept
        exact kept.1.2
      have matched := here referenced (by rw [named, ← slots.pattern]; exact found)
      have matchedToo := hereToo referencedToo (by rw [named]; exact foundToo)
      rcases takeLeaf?_abreast stops isModel isModelToo slots abreast matched matchedToo with
        ⟨refused, refusedToo⟩ | ⟨after, afterToo, taken, takenToo, grown⟩
      · rw [refused, refusedToo]
        exact rest later laterToo
      · rw [taken, takenToo]
        refine (goes _ _ _ _ _ _ grown).bind fun findings findingsToo alike => ?_
        rw [alike.trials]
        refine (rest later laterToo).bind fun further furtherToo more => ?_
        exact .ofPure (alike.append more)

/-- Whether two attempts grow one base in one sentence, with patterns known by the same names. -/
structure Alike (attempt resumption : Attempt) : Prop where
  /-- The surroundings are the same. -/
  around : attempt.around = resumption.around
  /-- The phrases of words are the same. -/
  leaves : attempt.leaves = resumption.leaves
  /-- The base is the same. -/
  base : attempt.base = resumption.base
  /-- The slots are as many. -/
  length : attempt.length = resumption.length
  /-- The same names are known. -/
  byName? : ∀ name,
    (attempt.registry.byName? name).isSome = (resumption.registry.byName? name).isSome
  /-- No neighbour is refused for its head. -/
  headsMatch : ∀ side span, attempt.HeadsMatch (attempt.leaves.adjacent side span)
  /-- Nor is any in the other attempt. -/
  headsMatchToo : ∀ side span, resumption.HeadsMatch (resumption.leaves.adjacent side span)

/-- Routes that are alike are followed in lockstep. -/
theorem walk_lockstep {attempt resumption : Attempt} (alike : attempt.Alike resumption)
    (routes : List.Forall₂ Stop.Alike route others) :
    GoesAbreast same attempt.length route others (attempt.walk route) (resumption.walk others) := by
  -- The induction is on the routes, so that both go on alike behind each slot.
  induction routes with
  | nil =>
    intro phrase counterpart status resumed depth trials abreast
    have complete := abreast.awaits.isComplete
    have completeToo := abreast.awaitsToo.isComplete
    rw [alike.length] at completeToo
    rw [walk, walk, if_pos complete, if_pos completeToo]
    exact .ofPure ⟨.cons abreast.phrases .nil, rfl⟩
  | @cons stop next route others stops _ goes =>
    intro phrase counterpart status resumed depth trials abreast
    rw [walk, walk]
    refine .seq fun _ => ?_
    rcases stops.component.cases with ⟨slot, other, isWord, isWordToo, slots⟩ |
      ⟨slot, other, isModel, isModelToo, slots⟩
    · simp only [isWord, isWordToo, alike.around, stops.side, abreast.phrases.span]
      exact fillWord_lockstep stops isWord isWordToo slots goes abreast
    · simp only [isModel, isModelToo, alike.leaves, stops.side, abreast.phrases.span,
        slots.pattern]
      have headsMatch := alike.headsMatch next.side counterpart.span
      have headsMatchToo := alike.headsMatchToo next.side counterpart.span
      have known := alike.byName? other.pattern
      rw [alike.leaves] at headsMatch
      -- The pattern that is referred to is known in both grammars or in neither.
      cases found : attempt.registry.byName? other.pattern <;>
        cases foundToo : resumption.registry.byName? other.pattern <;>
        rw [found, foundToo] at known
      · exact .ofPure (.nothing trials)
      · cases known
      · cases known
      · exact fillModel_lockstep alike.base stops isModel isModelToo slots
          (by rw [slots.pattern]; exact found) foundToo goes headsMatch headsMatchToo abreast

end Attempt

end PhraseGrammar
