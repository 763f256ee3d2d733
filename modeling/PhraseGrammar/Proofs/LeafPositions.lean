import PhraseGrammar.Proofs.LeafPass

/-! A pass for words that looks tokens up by position and slots by index never fails to find one. -/

namespace PhraseGrammar

/-- What may be missing where a search looks something up. -/
inductive Gap where
  /-- The sentence has no token at this position. -/
  | token (position : Nat)
  /-- The pattern has no slot with this index on the side that the search is on. -/
  | slot (index : Nat)
  /-- The slot with this index takes no word where one has to fill it. -/
  | word (index : Nat)
  /-- The slot with this index takes no phrase where one has to fill it. -/
  | model (index : Nat)
  /-- The pattern has no slot, and so it has no outermost one. -/
  | boundary
  /-- No pattern has this name. -/
  | pattern (name : String)
  /-- The pattern with this name has no head word, or a phrase of it has no head. -/
  | head (name : String)
  /-- No phrase of words has this number. -/
  | leaf (number : Nat)

/-- How a search goes on at a gap, whatever it was looking for. -/
abbrev Resort := (α : Type) → Gap → Search α

/-- What was looked up, or what a search resorts to without it. -/
def Resort.orElse {α : Type} (resort : Resort) (gap : Gap) : Option α → Search α
  | some found => return found
  | none => resort α gap

namespace Side

/-- How many positions of a text are left on a side of a span. -/
def room (side : Side) (span : Span) (length : Nat) : Nat :=
  match side with
  | .left => span.first
  | .right => length - (span.last + 1)

/-- There is less room beside a span that takes the position next to it. -/
theorem room_stretch {side : Side} {span : Span} {length position : Nat}
    (next : side.nextPosition? span length = some position) :
    side.room (span.stretch side position) length < side.room span length := by
  obtain ⟨beside, within⟩ := nextPosition?_eq_some_iff.mp next
  cases side with
  | left =>
    have before : position + 1 = span.first := beside
    show position < span.first
    omega
  | right =>
    have behind : span.last + 1 = position := beside
    have inside : position < length := within rfl
    show length - (position + 1) < length - (span.last + 1)
    omega

/-- The outermost slot on a side of a pattern of that length, if the pattern has a slot. -/
def boundary? (side : Side) (length : Nat) : Option Nat :=
  if length = 0 then none else some (side.boundary length)

end Side

namespace Pattern

variable {pattern : Pattern} {anchor index : Nat} {side : Side}

/-- Whether a pattern has a slot with an index on a side of another one. -/
def HasOn (pattern : Pattern) (anchor : Nat) (side : Side) (index : Nat) : Prop :=
  index < pattern.length ∧ match side with
    | .left => index < anchor
    | .right => anchor < index

instance : Decidable (pattern.HasOn anchor side index) :=
  match side with
  | .left => inferInstanceAs (Decidable (index < pattern.length ∧ index < anchor))
  | .right => inferInstanceAs (Decidable (index < pattern.length ∧ anchor < index))

/-- The slot with an index, if it lies on a side of another one. -/
def slotOn? (pattern : Pattern) (anchor : Nat) (side : Side) (index : Nat) : Option Component :=
  if pattern.HasOn anchor side index then pattern.component? index else none

/-- The index of the slot next to another one on a side, if there is one. -/
def nearest? (pattern : Pattern) (anchor : Nat) (side : Side) : Option Nat :=
  match side with
  | .left => if 0 < anchor then some (anchor - 1) else none
  | .right => if anchor + 1 < pattern.length then some (anchor + 1) else none

/-- The slots for words from an index on outwards. -/
def wordSlotsFrom (pattern : Pattern) (side : Side) (index : Nat) : List WordSlot :=
  match side with
  | .left => (pattern.wordSlots.take (index + 1)).reverse
  | .right => pattern.wordSlots.drop index

/-- There is an outermost slot on each side of a pattern that has a slot. -/
theorem HasOn.boundary?_eq (on : pattern.HasOn anchor side index) :
    side.boundary? pattern.length = some (side.boundary pattern.length) :=
  if_neg (Nat.ne_of_gt (Nat.zero_lt_of_lt on.1))

/-- A slot on a side of another one is looked up as it is in the whole pattern. -/
theorem HasOn.slotOn?_eq (on : pattern.HasOn anchor side index) :
    pattern.slotOn? anchor side index = pattern.component? index :=
  if_pos on

/-- The slot next to another one lies on its side. -/
theorem hasOn_of_nearest? (inside : anchor < pattern.length)
    (found : pattern.nearest? anchor side = some index) : pattern.HasOn anchor side index := by
  cases side with
  | left =>
    obtain ⟨positive, same⟩ := Option.ite_none_right_eq_some.mp found
    obtain rfl := Option.some.inj same
    exact ⟨by omega, by show anchor - 1 < anchor; omega⟩
  | right =>
    obtain ⟨more, same⟩ := Option.ite_none_right_eq_some.mp found
    obtain rfl := Option.some.inj same
    exact ⟨more, Nat.lt_succ_self anchor⟩

/-- Further out than a slot that is not the outermost one there is the next one. -/
theorem HasOn.next (on : pattern.HasOn anchor side index)
    (inner : index ≠ side.boundary pattern.length) :
    pattern.HasOn anchor side (side.nextComponent index) := by
  obtain ⟨inside, onSide⟩ := on
  cases side with
  | left =>
    have onSide : index < anchor := onSide
    have inner : index ≠ 0 := inner
    exact ⟨by show index - 1 < _; omega, by show index - 1 < _; omega⟩
  | right =>
    have onSide : anchor < index := onSide
    have inner : index ≠ pattern.length - 1 := inner
    exact ⟨by show index + 1 < _; omega, by show _ < index + 1; omega⟩

/-- A pattern of words has as many slots as it has slots for words. -/
theorem length_wordSlots (pattern : Pattern) (leaf : pattern.isLeaf) :
    pattern.wordSlots.length = pattern.length := by
  rw [length, components_of_isLeaf leaf, List.length_map]

/-- A slot of a pattern of words takes a word, and the slots further out come behind it. -/
theorem exists_wordSlotsFrom (leaf : pattern.isLeaf) (side : Side)
    (inside : index < pattern.length) : ∃ slot, pattern.component? index = some (.word slot) ∧
      pattern.wordSlotsFrom side index = slot ::
        if index = side.boundary pattern.length then []
        else pattern.wordSlotsFrom side (side.nextComponent index) := by
  rw [← pattern.length_wordSlots leaf] at inside ⊢
  refine ⟨pattern.wordSlots[index], ?_, ?_⟩
  · rw [component?, components_of_isLeaf leaf, List.getElem?_map, List.getElem?_eq_getElem inside,
      Option.map_some]
  · cases side with
    | left =>
      rw [wordSlotsFrom, List.take_succ_eq_append_getElem inside, List.reverse_append,
        List.reverse_singleton, List.singleton_append]
      cases index with
      | zero => rfl
      | succ index => rfl
    | right =>
      rw [wordSlotsFrom, List.drop_eq_getElem_cons inside]
      split
      · rename_i last
        have last : index = pattern.wordSlots.length - 1 := last
        rw [List.drop_eq_nil_of_le (by omega)]
      · rfl

end Pattern

variable {resort : Resort} {extractor : Extractor} {sentence : Sentence} {pattern : Pattern}
  {head index : Nat} {side : Side} {phrase : Phrase}

/-- The position of a token beside a span is the next one on that side. -/
theorem Sentence.nextPosition?_of_beside {span : Span} {position : Nat} {token : Token}
    (beside : Span.Beside ⟨position, position⟩ span side)
    (found : sentence.tokens[position]? = some token) :
    side.nextPosition? span sentence.length = some position :=
  Side.nextPosition?_eq_some_iff.mpr ⟨beside, fun _ => (List.getElem?_eq_some_iff.mp found).1⟩

/-- Where the position next to a span is not eligible, the token there cannot fill the slot. -/
theorem Extractor.exists_refused {slot : WordSlot} {span : Span} {position : Nat}
    (ordered : span.first ≤ sentence.length)
    (blocked : ∀ position ∈ (sentence.beyond side span).head?,
      extractor.eligible sentence (.word slot) position = false)
    (next : side.nextPosition? span sentence.length = some position) :
    ∃ token, sentence.tokens[position]? = some token ∧
      (extractor.admits token && slot.matchesToken token) = false := by
  obtain ⟨token, found, _⟩ := Sentence.outward_some ordered next
  have refused := blocked position (by rw [Sentence.beyond_some next]; rfl)
  simp only [eligible, found] at refused
  exact ⟨token, found, refused⟩

/-- Fills the slots of a side from an index on outwards, and lists the complete fillings. -/
def Phrase.growOr (resort : Resort) (extractor : Extractor) (sentence : Sentence)
    (pattern : Pattern) (head : Nat) (side : Side) (index : Nat) (phrase : Phrase) :
    Search (List Phrase) := do
  let boundary ← resort.orElse .boundary (side.boundary? pattern.length)
  Search.step
  match _next : side.nextPosition? phrase.span sentence.length with
  | none => return []
  | some position =>
    let token ← resort.orElse (.token position) sentence.tokens[position]?
    let component ← resort.orElse (.slot index) (pattern.slotOn? head side index)
    let slot ← resort.orElse (.word index) component.word?
    if extractor.admits token && slot.matchesToken token then
      let grown := phrase.push side position token
      if index ≠ boundary then
        growOr resort extractor sentence pattern head side (side.nextComponent index) grown
      else if slot.condition.isRepeated then
        let further ← growOr resort extractor sentence pattern head side index grown
        return grown :: further
      else return [grown]
    else return []
termination_by side.room phrase.span sentence.length
decreasing_by all_goals exact Side.room_stretch _next

/-- With an admitted token next to the phrase, what counts is whether it meets the slot. -/
theorem Phrase.growOr_token {slot : WordSlot} {token : Token} {position : Nat}
    (on : pattern.HasOn head side index) (stands : pattern.component? index = some (.word slot))
    (beside : Span.Beside ⟨position, position⟩ phrase.span side)
    (found : sentence.tokens[position]? = some token) (admits : extractor.admits token) :
    phrase.growOr resort extractor sentence pattern head side index = do
      Search.step
      if slot.matchesToken token then
        if index ≠ side.boundary pattern.length then
          (phrase.push side position token).growOr resort extractor sentence pattern head side
            (side.nextComponent index)
        else if slot.condition.isRepeated then
          let further ← (phrase.push side position token).growOr resort extractor sentence pattern
            head side index
          return phrase.push side position token :: further
        else return [phrase.push side position token]
      else return [] := by
  have next := Sentence.nextPosition?_of_beside beside found
  rw [growOr, on.boundary?_eq]
  simp only [Resort.orElse, pure_bind]
  refine congrArg (Search.step >>= ·) (funext fun _ => ?_)
  split
  · rename_i edge
    cases next.symm.trans edge
  · rename_i place isNext
    cases next.symm.trans isNext
    rw [found, on.slotOn?_eq, stands]
    simp only [Component.word?, pure_bind, admits, Bool.true_and]

/-- Where nothing next to the phrase meets the slot, the search comes to an end. -/
theorem Phrase.growOr_blocked {slot : WordSlot} (on : pattern.HasOn head side index)
    (stands : pattern.component? index = some (.word slot))
    (ordered : phrase.span.first ≤ sentence.length)
    (blocked : ∀ position ∈ (sentence.beyond side phrase.span).head?,
      extractor.eligible sentence (.word slot) position = false) :
    phrase.growOr resort extractor sentence pattern head side index = do
      Search.step
      return [] := by
  rw [growOr, on.boundary?_eq]
  simp only [Resort.orElse, pure_bind]
  refine congrArg (Search.step >>= ·) (funext fun _ => ?_)
  split
  · rfl
  · rename_i position next
    obtain ⟨token, found, refused⟩ := Extractor.exists_refused ordered blocked next
    rw [found, on.slotOn?_eq, stands]
    simp only [Component.word?, pure_bind, refused, Bool.false_eq_true, if_false]

/-- Looking up tokens and slots one by one is to go along the lists of them. -/
theorem Phrase.growOr_eq (leaf : pattern.isLeaf) (on : pattern.HasOn head side index)
    (faithful : phrase.Faithful extractor sentence) :
    phrase.growOr resort extractor sentence pattern head side index =
      phrase.grow side (pattern.wordSlotsFrom side index)
        ((extractor.surroundings sentence).outward side phrase.span) := by
  -- The induction is on the room that is left beside the phrase.
  induction room : side.room phrase.span sentence.length using Nat.strong_induction_on
    generalizing index phrase with
  | _ left rest =>
    obtain ⟨slot, stands, slots⟩ := Pattern.exists_wordSlotsFrom leaf side on.1
    rcases Extractor.outward_cases extractor side faithful.ordered faithful.inside with
      ⟨token, position, found, admits, beside, outwards, _⟩ | ⟨none, blocked⟩
    · have grown := faithful.push found admits beside
      have less : side.room (phrase.push side position token).span sentence.length < left :=
        room ▸ Side.room_stretch (Sentence.nextPosition?_of_beside beside found)
      rw [growOr_token on stands beside found admits, slots, outwards]
      by_cases last : index = side.boundary pattern.length
      · -- The outermost slot may be filled again.
        have again := rest _ less on grown rfl
        rw [slots, if_pos last] at again
        rw [if_pos last, again, if_neg (not_not.mpr last)]
        rfl
      · have onward := rest _ less (on.next last) grown rfl
        obtain ⟨next, _, behind⟩ := Pattern.exists_wordSlotsFrom leaf side (on.next last).1
        rw [if_neg last, if_pos last, onward, behind, grow]
        rfl
    · rw [growOr_blocked on stands (faithful.ordered.trans faithful.inside.le) (blocked _), slots,
        none]
      split
      · rfl
      · rename_i inner
        obtain ⟨next, _, behind⟩ := Pattern.exists_wordSlotsFrom leaf side (on.next inner).1
        rw [behind, grow]

/-- Fills the slots on a side of the head, if there are any. -/
def Phrase.growBesideOr (resort : Resort) (extractor : Extractor) (sentence : Sentence)
    (pattern : Pattern) (head : Nat) (side : Side) (phrase : Phrase) : Search (List Phrase) :=
  match pattern.nearest? head side with
  | none => return []
  | some index => phrase.growOr resort extractor sentence pattern head side index

/-- The phrases that grow out of the head of a pattern, those to the left first. -/
def Phrase.growBothOr (resort : Resort) (extractor : Extractor) (sentence : Sentence)
    (pattern : Pattern) (head : Nat) (anchor : Phrase) : Search (List Phrase) := do
  if pattern.length = 1 then return [anchor]
  else
    let left ← anchor.growBesideOr resort extractor sentence pattern head .left
    let seed := left.getLast?.getD anchor
    let right ← seed.growBesideOr resort extractor sentence pattern head .right
    return left ++ right

/-- The phrases of a pattern that have their head at a position, looked up there. -/
def Extractor.leafCandidatesOr (resort : Resort) (extractor : Extractor) (sentence : Sentence)
    (position : Nat) (pattern : Pattern) : Search (List Phrase) :=
  match pattern.headIndex? with
  | none => return []
  | some head => do
    let component ← resort.orElse (.slot head) (pattern.component? head)
    let slot ← resort.orElse (.word head) component.word?
    let token ← resort.orElse (.token position) sentence.tokens[position]?
    if slot.matchesToken token then
      Search.step
      let anchor ← resort.orElse (.token position)
        (Phrase.anchor? sentence position pattern.name)
      anchor.growBothOr resort extractor sentence pattern head
    else return []

/-- The pass for phrases of words, with tokens looked up by position and slots by index. -/
def Extractor.leafPassOr (resort : Resort) (extractor : Extractor) (sentence : Sentence) :
    Search (List Phrase) := do
  let candidates ← Search.gather (fun position => do
    let token ← resort.orElse (.token position) sentence.tokens[position]?
    if extractor.admits token && extractor.registry.isHeadCandidate token then
      Search.gather (extractor.leafCandidatesOr resort sentence position)
        extractor.registry.leafPatterns
    else return []) (List.range sentence.length)
  return Phrase.dropEchoes candidates

/-- Filling the slots to the left of the head by index is filling the list of them. -/
theorem Phrase.growBesideOr_left (leaf : pattern.isLeaf) (inside : head < pattern.length)
    (faithful : phrase.Faithful extractor sentence) :
    phrase.growBesideOr resort extractor sentence pattern head .left =
      phrase.grow .left (pattern.wordSlots.take head).reverse
        ((extractor.surroundings sentence).outward .left phrase.span) := by
  cases head with
  | zero => rfl
  | succ head =>
    have on : pattern.HasOn (head + 1) .left head :=
      ⟨Nat.lt_of_succ_lt inside, Nat.lt_succ_self head⟩
    exact growOr_eq leaf on faithful

/-- Filling the slots to the right of the head by index is filling the list of them. -/
theorem Phrase.growBesideOr_right (leaf : pattern.isLeaf)
    (faithful : phrase.Faithful extractor sentence) :
    phrase.growBesideOr resort extractor sentence pattern head .right =
      phrase.grow .right (pattern.wordSlots.drop (head + 1))
        ((extractor.surroundings sentence).outward .right phrase.span) := by
  rw [growBesideOr, Pattern.nearest?]
  by_cases more : head + 1 < pattern.length
  · have on : pattern.HasOn head .right (head + 1) := ⟨more, Nat.lt_succ_self head⟩
    rw [if_pos more]
    exact growOr_eq leaf on faithful
  · rw [if_neg more, List.drop_eq_nil_of_le (by rw [pattern.length_wordSlots leaf]; omega)]
    rfl

/-- Growing to both sides by index is growing along the lists of slots. -/
theorem Phrase.growBothOr_eq (leaf : pattern.isLeaf) (inside : head < pattern.length)
    (faithful : phrase.Faithful extractor sentence) :
    phrase.growBothOr resort extractor sentence pattern head =
      (extractor.surroundings sentence).growBoth pattern head phrase := by
  unfold growBothOr Surroundings.growBoth
  split
  · rfl
  · rw [growBesideOr_left leaf inside faithful]
    -- The right side grows out of whatever the left side has yielded.
    refine Search.bind_eq_of_yields fun found ended => ?_
    dsimp only
    rw [growBesideOr_right leaf ((grow_reach faithful ended).seed faithful).1]

/-- The phrases of a pattern with their head at a position are those of the token there. -/
theorem Extractor.leafCandidatesOr_eq (leaf : pattern.isLeaf) {token : Token} {position : Nat}
    (found : sentence.tokens[position]? = some token) (admits : extractor.admits token) :
    extractor.leafCandidatesOr resort sentence position pattern =
      (extractor.surroundings sentence).leafCandidates token position pattern := by
  unfold leafCandidatesOr Surroundings.leafCandidates
  cases index : pattern.headIndex? with
  | none => rfl
  | some head =>
    obtain ⟨slot, isHead, atHead⟩ := Pattern.headWord?_of_isLeaf leaf index
    have inside : head < pattern.length := (List.getElem?_eq_some_iff.mp atHead).1
    have faithful : (Phrase.ofToken sentence token position pattern.name).Faithful extractor
        sentence := Phrase.faithful_ofToken found admits
    simp only [isHead, atHead, Component.word?, found, Resort.orElse, pure_bind, Phrase.anchor?,
      Option.map_some, Phrase.growBothOr_eq leaf inside faithful]
    rfl

/-- The pass that looks tokens up by position and slots by index is the pass along lists. -/
theorem Extractor.leafPassOr_eq :
    extractor.leafPassOr resort sentence = extractor.leafPass sentence := by
  unfold leafPassOr leafPass
  refine congrArg (· >>= _) ?_
  rw [← Sentence.map_snd_zipIdx, Search.gather_map]
  simp only [surroundings, Surroundings.admitted_ofSentence, List.filter_filter]
  rw [Search.gather_filter]
  refine Search.gather_congr (List.forall₂_same.mpr fun next member => ?_)
  obtain ⟨token, position⟩ := next
  have found := List.mk_mem_zipIdx_iff_getElem?.mp member
  simp only [found, Resort.orElse, pure_bind]
  rw [Bool.and_comm]
  split
  · rename_i passes
    have admits := (Bool.and_eq_true_iff.mp passes).2
    refine Search.gather_congr (List.forall₂_same.mpr fun pattern listed => ?_)
    exact leafCandidatesOr_eq (List.mem_filter.mp listed).2 found admits
  · rfl

end PhraseGrammar
