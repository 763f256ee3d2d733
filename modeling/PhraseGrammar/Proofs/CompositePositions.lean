import PhraseGrammar.Proofs.Extraction
import PhraseGrammar.Proofs.LeafPositions
import PhraseGrammar.Proofs.WalkEntries

/-! Neither pass ever misses a token, a slot, a pattern or a phrase that it looks up. -/

namespace PhraseGrammar

namespace Pattern

variable {pattern : Pattern} {anchor index : Nat} {side : Side}

/-- Where the filling of slots goes on behind one of them: further out, or else to the right. -/
def onward? (pattern : Pattern) (anchor : Nat) (side : Side) (index : Nat) : Option (Side × Nat) :=
  if index ≠ side.boundary pattern.length then some (side, side.nextComponent index)
  else match side with
    | .left => (pattern.nearest? anchor .right).map fun next => (.right, next)
    | .right => none

/-- Where the filling of slots around one of them begins, given the index of the last slot. -/
def outset? (anchor last : Nat) : Option (Side × Nat) :=
  if 0 < anchor then some (.left, anchor - 1)
  else if anchor < last then some (.right, anchor + 1)
  else none

/-- The slots that are still to be filled from an index on outwards, and then to the right. -/
def routeFrom (pattern : Pattern) (anchor : Nat) : Option (Side × Nat) → List Stop
  | none => []
  | some (.left, index) =>
    (pattern.components.zipIdx.take (index + 1)).reverse.map (pattern.stop .left) ++
      (pattern.components.zipIdx.drop (anchor + 1)).map (pattern.stop .right)
  | some (.right, index) => (pattern.components.zipIdx.drop index).map (pattern.stop .right)

/-- A bound of how many slots are left, for which the whole pattern may lie to the right. -/
def slotsLeft (pattern : Pattern) (side : Side) (index : Nat) : Nat :=
  match side with
  | .left => pattern.length + (index + 1)
  | .right => pattern.length - index

/-- A slot that is found on a side lies there. -/
theorem hasOn_of_slotOn? {component : Component}
    (found : pattern.slotOn? anchor side index = some component) :
    pattern.HasOn anchor side index :=
  (Option.ite_none_right_eq_some.mp found).1

/-- The filling goes on further out, or it turns from the first slot to the right. -/
theorem onward?_cases {nextSide : Side} {next : Nat}
    (goesOn : pattern.onward? anchor side index = some (nextSide, next)) :
    (index ≠ side.boundary pattern.length ∧ nextSide = side ∧ next = side.nextComponent index) ∨
      (side = .left ∧ nextSide = .right ∧ pattern.nearest? anchor .right = some next) := by
  unfold onward? at goesOn
  split at goesOn
  · rename_i inner
    cases goesOn
    exact .inl ⟨inner, rfl, rfl⟩
  · cases side with
    | left =>
      obtain ⟨right, found, same⟩ := Option.map_eq_some_iff.mp goesOn
      cases same
      exact .inr ⟨rfl, rfl, found⟩
    | right => cases goesOn

/-- Fewer slots are left wherever the filling goes on. -/
theorem slotsLeft_onward (on : pattern.HasOn anchor side index) {nextSide : Side} {next : Nat}
    (goesOn : pattern.onward? anchor side index = some (nextSide, next)) :
    pattern.slotsLeft nextSide next < pattern.slotsLeft side index := by
  have inside := on.1
  rcases onward?_cases goesOn with ⟨inner, rfl, rfl⟩ | ⟨rfl, rfl, _⟩
  · cases nextSide with
    | left =>
      have inner : index ≠ 0 := inner
      show pattern.length + (index - 1 + 1) < pattern.length + (index + 1)
      omega
    | right =>
      show pattern.length - (index + 1) < pattern.length - index
      omega
  · show pattern.length - next < pattern.length + (index + 1)
    omega

/-- Where the filling goes on there is a slot on the side that it has come to. -/
theorem hasOn_onward (on : pattern.HasOn anchor side index) (inside : anchor < pattern.length)
    {nextSide : Side} {next : Nat}
    (goesOn : pattern.onward? anchor side index = some (nextSide, next)) :
    pattern.HasOn anchor nextSide next := by
  rcases onward?_cases goesOn with ⟨inner, rfl, rfl⟩ | ⟨_, rfl, found⟩
  · exact on.next inner
  · exact hasOn_of_nearest? inside found

/-- Where the filling begins there is a slot on the side that it begins with. -/
theorem hasOn_outset (inside : anchor < pattern.length)
    (begins : outset? anchor (pattern.length - 1) = some (side, index)) :
    pattern.HasOn anchor side index := by
  unfold outset? at begins
  split at begins
  · cases begins
    exact ⟨by omega, by show anchor - 1 < anchor; omega⟩
  · obtain ⟨before, same⟩ := Option.ite_none_right_eq_some.mp begins
    cases same
    exact ⟨by omega, Nat.lt_succ_self anchor⟩

/-- The slots to the right of the anchor are left when the filling turns to the right. -/
theorem routeFrom_right (pattern : Pattern) (anchor : Nat) :
    pattern.routeFrom anchor ((pattern.nearest? anchor .right).map fun next => (.right, next)) =
      (pattern.components.zipIdx.drop (anchor + 1)).map (pattern.stop .right) := by
  rw [nearest?]
  split
  · rfl
  · rename_i none
    rw [List.drop_eq_nil_of_le (by rw [List.length_zipIdx]; exact Nat.le_of_not_lt none)]
    rfl

/-- Where the filling begins, the whole route is left. -/
theorem routeFrom_outset (pattern : Pattern) (anchor : Nat) :
    pattern.routeFrom anchor (outset? anchor (pattern.length - 1)) = pattern.route anchor := by
  cases anchor with
  | zero =>
    refine Eq.trans ?_ (routeFrom_right pattern 0)
    rw [outset?, if_neg (Nat.lt_irrefl 0), nearest?]
    by_cases more : 0 + 1 < pattern.length
    · rw [if_pos more, if_pos (by omega), Option.map_some]
    · rw [if_neg more, if_neg (by omega), Option.map_none]
  | succ anchor => rfl

/-- The slot at an index comes first, and then those that are left where the filling goes on. -/
theorem routeFrom_some {component : Component}
    (stands : pattern.component? index = some component) :
    pattern.routeFrom anchor (some (side, index)) = pattern.stop side (component, index) ::
      pattern.routeFrom anchor (pattern.onward? anchor side index) := by
  have numbered : pattern.components.zipIdx[index]? = some (component, index) := by
    rw [List.getElem?_zipIdx, Nat.zero_add]
    exact congrArg (Option.map _) stands
  obtain ⟨inside, same⟩ := List.getElem?_eq_some_iff.mp numbered
  cases side with
  | left =>
    rw [routeFrom, List.take_succ_eq_append_getElem inside, same, List.reverse_append,
      List.reverse_singleton, List.singleton_append, List.map_cons, List.cons_append]
    cases index with
    | zero => exact congrArg (_ :: ·) (routeFrom_right pattern anchor).symm
    | succ index => rfl
  | right =>
    rw [routeFrom, List.drop_eq_getElem_cons inside, same, List.map_cons, onward?]
    split
    · rfl
    · rename_i outermost
      have last : index = pattern.length - 1 := not_not.mp outermost
      rw [List.drop_eq_nil_of_le (by rw [List.length_zipIdx]; unfold length at last; omega)]
      rfl

end Pattern

namespace Attempt

/-- The phrase and its status once a neighbour fills a slot, with the head of it looked up. -/
def takeLeafOr (resort : Resort) (attempt : Attempt) (sentence : Sentence) (stop : Stop)
    (slot : ModelSlot) (referenced : Pattern) (leaf phrase : Phrase) (status : MatchStatus) :
    Search (Option (Phrase × MatchStatus)) :=
  if slot.condition.isHead && !status.headChecked then do
    let word ← resort.orElse (.head referenced.name) referenced.headWord?
    let head ← resort.orElse (.head leaf.pattern) leaf.head
    let token ← resort.orElse (.token head) sentence.tokens[head]?
    if word.matchesToken token then
      return attempt.takeLeaf? stop slot referenced leaf phrase status
    else return none
  else return attempt.takeLeaf? stop slot referenced leaf phrase status

/-- Fills a slot with each of the phrases with some numbers in turn; a trial is made once only. -/
def fillModelOr (resort : Resort) (attempt : Attempt) (sentence : Sentence) (leaves : List Phrase)
    (stop : Stop) (slot : ModelSlot) (referenced : Pattern) (goOn : Continue) (phrase : Phrase)
    (status : MatchStatus) (depth : Nat) : List Nat → Trials → Search Findings
  | [], trials => return ⟨[], trials⟩
  | number :: numbers, trials => do
    let leaf ← resort.orElse (.leaf number) leaves[number]?
    let trial : Trial := ⟨stop.side, stop.index, number, phrase.span⟩
    if number = attempt.base || leaf.pattern ≠ slot.pattern || trials.contains trial then
      fillModelOr resort attempt sentence leaves stop slot referenced goOn phrase status depth
        numbers trials
    else
      let tried := trials.insert trial
      match ← attempt.takeLeafOr resort sentence stop slot referenced leaf phrase status with
      | none =>
        fillModelOr resort attempt sentence leaves stop slot referenced goOn phrase status depth
          numbers tried
      | some (grown, counted) =>
        let here ← goOn grown counted (depth + 1) tried
        let further ← fillModelOr resort attempt sentence leaves stop slot referenced goOn phrase
          status depth numbers here.trials
        return ⟨here.found ++ further.found, further.trials⟩

end Attempt

/-- Fills the slot with an index on a side, and goes on from there, as far as there are slots. -/
def Extractor.walkOr (resort : Resort) (extractor : Extractor) (sentence : Sentence)
    (leaves : List Phrase) (number : Nat) (pattern : Pattern) (anchor : Nat) (side : Side)
    (index : Nat) (phrase : Phrase) (status : MatchStatus) (depth : Nat) (trials : Trials) :
    Search Findings := do
  Attempt.descend depth
  let attempt := extractor.attempt sentence leaves number pattern
  let boundary ← resort.orElse .boundary (side.boundary? pattern.length)
  match _on : pattern.slotOn? anchor side index with
  | none => resort _ (.slot index)
  | some component =>
    let stop : Stop := ⟨side, index, component, index = boundary⟩
    let goOn : Attempt.Continue := fun grown counted deeper tried =>
      match _goesOn : pattern.onward? anchor side index with
      | none => attempt.walk [] grown counted deeper tried
      | some (nextSide, next) =>
        extractor.walkOr resort sentence leaves number pattern anchor nextSide next grown counted
          deeper tried
    match component with
    | .word slot =>
      match _next : side.nextPosition? phrase.span sentence.length with
      | none => return ⟨[], trials⟩
      | some position =>
        let token ← resort.orElse (.token position) sentence.tokens[position]?
        if extractor.admits token && slot.matchesToken token then
          let taken := Attempt.takeWord stop slot token position phrase status
          let here ← goOn taken.1 taken.2 (depth + 1) trials
          if stop.outermost && slot.condition.isRepeated then
            let further ← extractor.walkOr resort sentence leaves number pattern anchor side index
              taken.1 taken.2 (depth + 1) here.trials
            return ⟨here.found ++ further.found, further.trials⟩
          else return here
        else return ⟨[], trials⟩
    | .model slot =>
      let referenced ← resort.orElse (.pattern slot.pattern)
        (extractor.registry.byName? slot.pattern)
      let numbers := (attempt.leaves.adjacent side phrase.span).map Prod.snd
      attempt.fillModelOr resort sentence leaves stop slot referenced goOn phrase status depth
        numbers trials
termination_by (pattern.slotsLeft side index, side.room phrase.span sentence.length)
decreasing_by
  · exact Prod.Lex.left _ _ (Pattern.slotsLeft_onward (Pattern.hasOn_of_slotOn? _on) _goesOn)
  · refine Prod.Lex.right _ ?_
    rw [span_takeWord]
    exact Side.room_stretch _next

namespace Extractor

variable {resort : Resort} {extractor : Extractor} {sentence : Sentence} {leaves : List Phrase}
  {number : Nat} {pattern : Pattern} {anchor index : Nat} {side : Side} {phrase : Phrase}
  {status : MatchStatus} {depth : Nat} {trials : Trials}

/-- Fills the slots from where there is one left, or comes to the end of the route. -/
def walkFromOr (resort : Resort) (extractor : Extractor) (sentence : Sentence)
    (leaves : List Phrase) (number : Nat) (pattern : Pattern) (anchor : Nat) :
    Option (Side × Nat) → Attempt.Continue
  | none => (extractor.attempt sentence leaves number pattern).walk []
  | some (side, index) =>
    extractor.walkOr resort sentence leaves number pattern anchor side index

/-- With an admitted token next to the phrase, what counts is whether it meets the slot. -/
theorem walkOr_token {slot : WordSlot} {token : Token} {position : Nat}
    (on : pattern.HasOn anchor side index) (stands : pattern.component? index = some (.word slot))
    (beside : Span.Beside ⟨position, position⟩ phrase.span side)
    (found : sentence.tokens[position]? = some token) (admits : extractor.admits token) :
    extractor.walkOr resort sentence leaves number pattern anchor side index phrase status depth
        trials = (do
      let stop := pattern.stop side (.word slot, index)
      let taken := Attempt.takeWord stop slot token position phrase status
      Attempt.descend depth
      if slot.matchesToken token then
        let here ← extractor.walkFromOr resort sentence leaves number pattern anchor
          (pattern.onward? anchor side index) taken.1 taken.2 (depth + 1) trials
        if stop.outermost && slot.condition.isRepeated then
          let further ← extractor.walkOr resort sentence leaves number pattern anchor side index
            taken.1 taken.2 (depth + 1) here.trials
          return ⟨here.found ++ further.found, further.trials⟩
        else return here
      else return ⟨[], trials⟩) := by
  have next := Sentence.nextPosition?_of_beside beside found
  rw [walkOr, on.boundary?_eq]
  simp only [Resort.orElse, pure_bind]
  refine congrArg (Attempt.descend depth >>= ·) (funext fun _ => ?_)
  split
  · rename_i none
    cases (on.slotOn?_eq.trans stands).symm.trans none
  · rename_i component same
    cases (on.slotOn?_eq.trans stands).symm.trans same
    dsimp only
    split
    · rename_i edge
      cases next.symm.trans edge
    · rename_i place isNext
      cases next.symm.trans isNext
      rw [found]
      simp only [pure_bind, admits, Bool.true_and]
      split
      · refine congrArg₂ (· >>= ·) ?_ rfl
        -- Where the search goes on is told by the slots that are left.
        split
        · rename_i ends
          rw [ends, walkFromOr]
          rfl
        · rename_i nextSide nextIndex goesOn
          rw [goesOn, walkFromOr]
          rfl
      · rfl

/-- Where nothing next to the phrase meets the slot, the search comes to an end. -/
theorem walkOr_blocked {slot : WordSlot} (on : pattern.HasOn anchor side index)
    (stands : pattern.component? index = some (.word slot))
    (ordered : phrase.span.first ≤ sentence.length)
    (blocked : ∀ position ∈ (sentence.beyond side phrase.span).head?,
      extractor.eligible sentence (.word slot) position = false) :
    extractor.walkOr resort sentence leaves number pattern anchor side index phrase status depth
        trials = (do
      Attempt.descend depth
      return ⟨[], trials⟩) := by
  rw [walkOr, on.boundary?_eq]
  simp only [Resort.orElse, pure_bind]
  refine congrArg (Attempt.descend depth >>= ·) (funext fun _ => ?_)
  split
  · rename_i none
    cases (on.slotOn?_eq.trans stands).symm.trans none
  · rename_i component same
    cases (on.slotOn?_eq.trans stands).symm.trans same
    dsimp only
    split
    · rfl
    · rename_i position next
      obtain ⟨token, found, refused⟩ := exists_refused ordered blocked next
      rw [found]
      simp only [pure_bind, refused, Bool.false_eq_true, if_false]

/-- A slot for a phrase is filled by the neighbours, once its pattern has been looked up. -/
theorem walkOr_model {slot : ModelSlot} {referenced : Pattern}
    (on : pattern.HasOn anchor side index) (stands : pattern.component? index = some (.model slot))
    (known : extractor.registry.byName? slot.pattern = some referenced) :
    extractor.walkOr resort sentence leaves number pattern anchor side index phrase status depth
        trials = (do
      let attempt := extractor.attempt sentence leaves number pattern
      Attempt.descend depth
      attempt.fillModelOr resort sentence leaves (pattern.stop side (.model slot, index)) slot
        referenced (extractor.walkFromOr resort sentence leaves number pattern anchor
          (pattern.onward? anchor side index)) phrase status depth
        ((attempt.leaves.adjacent side phrase.span).map Prod.snd) trials) := by
  rw [walkOr, on.boundary?_eq]
  simp only [Resort.orElse, pure_bind]
  refine congrArg (Attempt.descend depth >>= ·) (funext fun _ => ?_)
  split
  · rename_i none
    cases (on.slotOn?_eq.trans stands).symm.trans none
  · rename_i component same
    cases (on.slotOn?_eq.trans stands).symm.trans same
    dsimp only
    rw [known]
    simp only [pure_bind]
    refine congrArg (fun goOn => Attempt.fillModelOr _ _ _ _ _ _ _ goOn _ _ _ _ _) ?_
    funext grown counted deeper tried
    split
    · rename_i ends
      rw [ends, walkFromOr]
    · rename_i nextSide nextIndex goesOn
      rw [goesOn, walkFromOr]

/-- The head of a neighbour and the slot for it are there to be looked up. -/
theorem IsLeaf.takeLeafOr_eq {stop : Stop} {slot : ModelSlot} {referenced : Pattern} {leaf : Phrase}
    (isLeaf : extractor.IsLeaf sentence leaf)
    (known : extractor.registry.byName? leaf.pattern = some referenced) :
    (extractor.attempt sentence leaves number pattern).takeLeafOr resort sentence stop slot
        referenced leaf phrase status =
      return (extractor.attempt sentence leaves number pattern).takeLeaf? stop slot referenced leaf
        phrase status := by
  obtain ⟨other, head, word, token, same, headed, isHead, stands, fits⟩ := isLeaf.headed
  cases same.symm.trans known
  rw [Attempt.takeLeafOr, isHead, headed]
  simp only [Resort.orElse, pure_bind, stands, fits, if_true, ite_self]

/-- Going through the numbers of neighbours is going through the neighbours. -/
theorem fillModelOr_eq {stop : Stop} {slot : ModelSlot} {referenced : Pattern}
    {goOn : Attempt.Continue} {candidates : List (Phrase × Nat)}
    (isLeaf : ∀ leaf ∈ leaves, extractor.IsLeaf sentence leaf)
    (known : extractor.registry.byName? slot.pattern = some referenced)
    (listed : ∀ next ∈ candidates, leaves[next.2]? = some next.1) :
    (extractor.attempt sentence leaves number pattern).fillModelOr resort sentence leaves stop slot
        referenced goOn phrase status depth (candidates.map Prod.snd) trials =
      (extractor.attempt sentence leaves number pattern).fillModel stop slot referenced goOn phrase
        status depth candidates trials := by
  induction candidates generalizing trials with
  | nil => rfl
  | cons next candidates rest =>
    obtain ⟨leaf, which⟩ := next
    obtain ⟨here, later⟩ := List.forall_mem_cons.mp listed
    have here : leaves[which]? = some leaf := here
    rw [List.map_cons, Attempt.fillModelOr, Attempt.fillModel, here]
    simp only [Resort.orElse, pure_bind]
    split
    · exact rest later
    · -- A phrase that is not passed over is one of the pattern that was looked up.
      rename_i fresh
      simp only [Bool.or_eq_true, decide_eq_true_eq, not_or, Decidable.not_not] at fresh
      have same : leaf.pattern = slot.pattern := fresh.1.2
      rw [(isLeaf leaf (List.mem_of_getElem? here)).takeLeafOr_eq (by rw [same]; exact known),
        pure_bind]
      cases (extractor.attempt sentence leaves number pattern).takeLeaf? stop slot referenced leaf
        phrase status with
      | none => exact rest later
      | some after => simp only [rest later]

section Walk

variable {start : Moment} {base : Span} {filled : List Nat}

/-- Filling a slot for a word, and again if it repeats, is following the route from its stop. -/
theorem walkOr_word_eq {slot : WordSlot} (isLeaf : ∀ leaf ∈ leaves, extractor.IsLeaf sentence leaf)
    (begun : Underway extractor sentence pattern base start.route start.phrase start.status)
    (on : pattern.HasOn anchor side index) (stands : pattern.component? index = some (.word slot))
    (goesOn : ∀ filled grown counted deeper,
      (extractor.attempt sentence leaves number pattern).Path start filled
        ⟨pattern.routeFrom anchor (pattern.onward? anchor side index), grown, counted, deeper⟩ →
      extractor.walkFromOr resort sentence leaves number pattern anchor
          (pattern.onward? anchor side index) grown counted deeper =
        (extractor.attempt sentence leaves number pattern).walk
          (pattern.routeFrom anchor (pattern.onward? anchor side index)) grown counted deeper)
    (path : (extractor.attempt sentence leaves number pattern).Path start filled
      ⟨pattern.stop side (.word slot, index) ::
        pattern.routeFrom anchor (pattern.onward? anchor side index), phrase, status, depth⟩) :
    extractor.walkOr resort sentence leaves number pattern anchor side index phrase status depth =
      (extractor.attempt sentence leaves number pattern).walk
        (pattern.stop side (.word slot, index) ::
          pattern.routeFrom anchor (pattern.onward? anchor side index)) phrase status depth := by
  -- The induction is on the room beside the phrase, which a slot that repeats takes up.
  induction room : side.room phrase.span sentence.length using Nat.strong_induction_on
    generalizing filled phrase status depth with
  | _ left again =>
    funext trials
    have faithful := (path.underway isLeaf begun).faithful
    rw [Attempt.walk_cons]
    rcases outward_cases extractor side faithful.ordered faithful.inside with
      ⟨token, position, found, admits, beside, outwards, _⟩ | ⟨none, blocked⟩
    · rw [walkOr_token on stands beside found admits]
      refine congrArg (Attempt.descend depth >>= ·) (funext fun _ => ?_)
      show _ = Attempt.fillWord _ slot _
        ((extractor.surroundings sentence).outward side phrase.span) phrase status depth trials
      rw [outwards]
      by_cases fits : slot.matchesToken token
      · have filling : (extractor.attempt sentence leaves number pattern).Filling
            (pattern.stop side (.word slot, index)) phrase status _ _ := .word rfl outwards fits
        rw [Attempt.fillWord_cons fits, if_pos fits, goesOn _ _ _ _ (path.step (.onward filling))]
        dsimp only
        split
        · rename_i repeats
          obtain ⟨outermost, mayRepeat⟩ := Bool.and_eq_true_iff.mp repeats
          -- The token behind the one that has been taken is tried for the same slot.
          have grown : (Attempt.takeWord (pattern.stop side (.word slot, index)) slot token position
              phrase status).1.span = phrase.span.stretch side position := span_takeWord
          have less : side.room (phrase.span.stretch side position) sentence.length < left :=
            room ▸ Side.room_stretch (Sentence.nextPosition?_of_beside beside found)
          have further := again _ less
            (path.step (.again ⟨outermost, slot, rfl, mayRepeat⟩ filling)) (by rw [grown])
          rw [Attempt.both]
          refine congrArg (_ >>= ·) (funext fun here => ?_)
          rw [further, Attempt.walk_cons, Attempt.fill, grown]
          rfl
        · exact bind_pure _
      · simp only [Attempt.fillWord, if_neg fits]
    · rw [walkOr_blocked on stands (faithful.ordered.trans faithful.inside.le) (blocked _)]
      refine congrArg (Attempt.descend depth >>= ·) (funext fun _ => ?_)
      show _ = Attempt.fillWord _ slot _
        ((extractor.surroundings sentence).outward side phrase.span) phrase status depth trials
      rw [none]
      rfl

/-- Filling slots by index from anywhere on a path is following what is left of the route. -/
theorem walkOr_eq (isLeaf : ∀ leaf ∈ leaves, extractor.IsLeaf sentence leaf)
    (begun : Underway extractor sentence pattern base start.route start.phrase start.status)
    (known : ∀ slot, Component.model slot ∈ pattern.components →
      ∃ referenced, extractor.registry.byName? slot.pattern = some referenced)
    (inside : anchor < pattern.length) (on : pattern.HasOn anchor side index)
    (path : (extractor.attempt sentence leaves number pattern).Path start filled
      ⟨pattern.routeFrom anchor (some (side, index)), phrase, status, depth⟩) :
    extractor.walkOr resort sentence leaves number pattern anchor side index phrase status depth =
      (extractor.attempt sentence leaves number pattern).walk
        (pattern.routeFrom anchor (some (side, index))) phrase status depth := by
  -- The induction is on the slots that are left.
  induction left : pattern.slotsLeft side index using Nat.strong_induction_on
    generalizing side index filled phrase status depth with
  | _ left onwards =>
    have goesOn (filled : List Nat) (grown : Phrase) (counted : MatchStatus) (deeper : Nat)
        (path : (extractor.attempt sentence leaves number pattern).Path start filled
          ⟨pattern.routeFrom anchor (pattern.onward? anchor side index), grown, counted, deeper⟩) :
        extractor.walkFromOr resort sentence leaves number pattern anchor
            (pattern.onward? anchor side index) grown counted deeper =
          (extractor.attempt sentence leaves number pattern).walk
            (pattern.routeFrom anchor (pattern.onward? anchor side index)) grown counted
            deeper := by
      cases next : pattern.onward? anchor side index with
      | none => rfl
      | some place =>
        obtain ⟨nextSide, nextIndex⟩ := place
        rw [next] at path
        exact onwards _ (left ▸ Pattern.slotsLeft_onward on next)
          (Pattern.hasOn_onward on inside next) path rfl
    obtain ⟨component, stands⟩ : ∃ component, pattern.component? index = some component :=
      ⟨_, List.getElem?_eq_getElem on.1⟩
    rw [Pattern.routeFrom_some stands] at path ⊢
    cases component with
    | word slot => exact walkOr_word_eq isLeaf begun on stands goesOn path
    | model slot =>
      obtain ⟨referenced, found⟩ := known slot (List.mem_of_getElem? stands)
      funext trials
      rw [walkOr_model on stands found, Attempt.walk_cons, Attempt.fill]
      refine congrArg (Attempt.descend depth >>= ·) (funext fun _ => ?_)
      have listed : ∀ next ∈ (extractor.attempt sentence leaves number pattern).leaves.adjacent side
          phrase.span, leaves[next.2]? = some next.1 :=
        fun next member => (LeafIndex.mem_adjacent_ofList.mp member).1
      rw [fillModelOr_eq isLeaf found listed]
      simp only [Pattern.stop, registry_attempt, found]
      exact Attempt.fillModel_closed (Attempt.closed_eq _ start) rfl found
        (fun filled grown counted deeper tried path => by rw [goesOn _ _ _ _ path]) path
        fun _ member => member

end Walk

/-- The phrases of a pattern that grow out of a base, with the slot of the base looked up. -/
def compositeCandidatesOr (resort : Resort) (extractor : Extractor) (sentence : Sentence)
    (leaves : List Phrase) (base : Phrase) (number : Nat) (pattern : Pattern) :
    Search (List Phrase) :=
  match pattern.modelSlotIndex? base.pattern with
  | none => return []
  | some anchor => do
    let component ← resort.orElse (.slot anchor) (pattern.component? anchor)
    let slot ← resort.orElse (.model anchor) component.model?
    match baseStatus? pattern slot base with
    | none => return []
    | some status =>
      Search.step
      let last ← resort.orElse .boundary (Side.right.boundary? pattern.length)
      let findings ← extractor.walkFromOr resort sentence leaves number pattern anchor
        (Pattern.outset? anchor last) (seed pattern slot base) status 1 ∅
      return findings.found

/-- The pass for phrases of phrases, with all that it needs looked up by position and by index. -/
def compositePassOr (resort : Resort) (extractor : Extractor) (sentence : Sentence)
    (leaves : List Phrase) : Search (List Phrase) := do
  let candidates ← Search.gather (fun (base, number) =>
    Search.firstFound (extractor.compositeCandidatesOr resort sentence leaves base number)
      extractor.registry.compositePatterns) leaves.zipIdx
  return Phrase.dropEchoes candidates

/-- Both passes one after the other, with all that they need looked up by position and by index. -/
def searchOr (resort : Resort) (extractor : Extractor) (sentence : Sentence) :
    Search Extraction := do
  let simple ← extractor.leafPassOr resort sentence
  let complex ← extractor.compositePassOr resort sentence simple
  return ⟨simple, extractor.reduce complex⟩

/-- Growing a base by looking slots up is growing it along the route around its slot. -/
theorem compositeCandidatesOr_eq {base : Phrase}
    (isLeaf : ∀ leaf ∈ leaves, extractor.IsLeaf sentence leaf) (member : base ∈ leaves)
    (known : ∀ slot, Component.model slot ∈ pattern.components →
      ∃ referenced, extractor.registry.byName? slot.pattern = some referenced) :
    extractor.compositeCandidatesOr resort sentence leaves base number pattern =
      compositeCandidates extractor.registry (extractor.surroundings sentence) (.ofList leaves) base
        number pattern := by
  unfold compositeCandidatesOr compositeCandidates
  cases index : pattern.modelSlotIndex? base.pattern with
  | none => rfl
  | some anchor =>
    obtain ⟨inside, slot, stands, _⟩ := Pattern.model_of_modelSlotIndex? index
    have some : pattern.length ≠ 0 := Nat.ne_of_gt (Nat.zero_lt_of_lt inside)
    simp only [stands, Resort.orElse, pure_bind, Component.model?, Option.bind_some,
      Side.boundary?, if_neg some]
    cases passes : baseStatus? pattern slot base with
    | none => rfl
    | some status =>
      refine congrArg (Search.step >>= ·) (funext fun _ => ?_)
      have begun := underway_seed inside stands (isLeaf base member).faithful passes
      show extractor.walkFromOr resort sentence leaves number pattern anchor
          (Pattern.outset? anchor (pattern.length - 1)) (seed pattern slot base) status 1 ∅ >>= _ =
        (extractor.attempt sentence leaves number pattern).walk (pattern.route anchor)
          (seed pattern slot base) status 1 ∅ >>= _
      refine congrArg (· >>= _) ?_
      -- The search sets out with the whole route ahead of it.
      have path : (extractor.attempt sentence leaves number pattern).Path
          ⟨pattern.route anchor, seed pattern slot base, status, 1⟩ []
          ⟨pattern.routeFrom anchor (Pattern.outset? anchor (pattern.length - 1)),
            seed pattern slot base, status, 1⟩ := by
        rw [Pattern.routeFrom_outset]
        exact .start
      rw [← Pattern.routeFrom_outset]
      cases begins : Pattern.outset? anchor (pattern.length - 1) with
      | none => rfl
      | some place =>
        obtain ⟨side, first⟩ := place
        rw [begins] at path
        have on := Pattern.hasOn_outset inside begins
        exact congrFun (walkOr_eq isLeaf begun known inside on path) ∅

/-- The pass that looks up all that it needs is the pass along routes. -/
theorem compositePassOr_eq (sound : extractor.registry.Sound)
    (isLeaf : ∀ leaf ∈ leaves, extractor.IsLeaf sentence leaf) :
    extractor.compositePassOr resort sentence leaves = extractor.compositePass sentence leaves := by
  unfold compositePassOr compositePass
  refine congrArg (· >>= _) (Search.gather_congr (List.forall₂_same.mpr fun next member => ?_))
  obtain ⟨base, number⟩ := next
  have listed := List.mem_of_getElem? (List.mk_mem_zipIdx_iff_getElem?.mp member)
  refine Search.firstFound_congr fun pattern composite => ?_
  have registered := (List.mem_filter.mp composite).1
  refine compositeCandidatesOr_eq isLeaf listed fun slot isSlot => ?_
  -- A slot for a phrase refers to a pattern that is registered, and found by its name.
  obtain ⟨other, there, same⟩ := List.mem_map.mp (sound.resolved pattern registered slot isSlot)
  exact ⟨other, same ▸ sound.byName?_name other there⟩

end Extractor

/-- Whatever a search would resort to where something is missing, it never does. -/
theorem search_without_gaps {patterns : List Pattern} {limit : Nat} {registry : Registry}
    (built : Registry.build patterns limit = .ok registry) (resort : Resort)
    (options : MatchOptions) (stopWords : StopWords) (sentence : Sentence) :
    Extractor.searchOr resort ⟨registry, options, stopWords⟩ sentence =
      Extractor.search ⟨registry, options, stopWords⟩ sentence := by
  have sound := Registry.sound_of_build built
  rw [Extractor.searchOr, Extractor.leafPassOr_eq, Extractor.search]
  refine Search.bind_eq_of_yields fun leaves ended => ?_
  rw [Extractor.compositePassOr_eq sound (Extractor.isLeaf_of_leafPass sound ended)]

/-- A search that would be cut off at any gap still finds the black cat. -/
theorem search_without_gaps_blackCat : ∃ registry extraction after,
    Registry.build nounPhrases = .ok registry ∧
      Extractor.searchOr (fun _ _ => throw (.depthExceeded 0))
          ⟨registry, { validateBoundaries := false }, .empty⟩ blackCat (.ofOptions {}) =
        .ok extraction after ∧
      extraction.simple.map Phrase.text = ["cat"] ∧
      extraction.complex.map Phrase.text = ["black cat"] := by
  obtain ⟨extraction, after, ended, simple, complex⟩ : ∃ extraction after,
      Extractor.search ⟨.assemble nounPhrases [0, 1], { validateBoundaries := false }, .empty⟩
          blackCat (.ofOptions {}) = .ok extraction after ∧
        extraction.simple.map Phrase.text = ["cat"] ∧
        extraction.complex.map Phrase.text = ["black cat"] := ⟨_, _, rfl, rfl, rfl⟩
  refine ⟨_, extraction, after, build_nounPhrases, ?_, simple, complex⟩
  rw [search_without_gaps build_nounPhrases]
  exact ended

end PhraseGrammar
