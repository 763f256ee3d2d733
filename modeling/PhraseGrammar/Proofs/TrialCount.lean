import Mathlib.Data.Finset.Prod
import PhraseGrammar.Proofs.CompositeWalk
import PhraseGrammar.Proofs.WalkCost

/-! At each slot on a route only so many neighbours can be tried, each of them beside so many spans. -/

namespace PhraseGrammar

open Search

variable {extractor : Extractor} {sentence : Sentence} {leaves : List Phrase} {pattern : Pattern}
  {anchor : Nat} {base span : Span} {route : List Stop} {stop : Stop} {trial : Trial}
  {trials : Trials}

/-- What a trial at a stop tries: a neighbour of a span that has grown out of a base so far. -/
structure Trial.MadeAt (sentence : Sentence) (leaves : List Phrase) (base : Span) (stop : Stop)
    (trial : Trial) : Prop where
  /-- The trial is named after the stop. -/
  named : trial.side = stop.side ∧ trial.index = stop.index
  /-- What is tried is a phrase beside the span. -/
  neighbour : ∃ leaf, leaves[trial.leaf]? = some leaf ∧ leaf.span.Beside trial.span stop.side
  /-- The span starts in the sentence. -/
  inside : trial.span.first < sentence.length
  /-- On the way to the left the span still ends with the base. -/
  anchored : stop.side = .left → trial.span.last = base.last

/-- A trial at a stop is told by what is tried, and on the right by where the span starts. -/
theorem Trial.MadeAt.eq_of_leaf_eq {other : Trial} (first : trial.MadeAt sentence leaves base stop)
    (second : other.MadeAt sentence leaves base stop) (sameLeaf : trial.leaf = other.leaf)
    (sameFirst : stop.side = .right → trial.span.first = other.span.first) : trial = other := by
  obtain ⟨leaf, listed, beside⟩ := first.neighbour
  obtain ⟨otherLeaf, alsoListed, alsoBeside⟩ := second.neighbour
  rw [← sameLeaf] at alsoListed
  obtain rfl : leaf = otherLeaf := Option.some.inj (listed.symm.trans alsoListed)
  have sameSpan : trial.span = other.span := by
    cases side : stop.side with
    | left =>
      -- The neighbour tells the first position, and the base the last one.
      rw [side] at beside alsoBeside
      have starts : trial.span.first = other.span.first := beside.symm.trans alsoBeside
      have ends : trial.span.last = other.span.last :=
        (first.anchored side).trans (second.anchored side).symm
      exact congrArg₂ Span.mk starts ends
    | right =>
      rw [side] at beside alsoBeside
      have ends : trial.span.last = other.span.last :=
        Nat.succ.inj (Eq.trans beside alsoBeside.symm)
      exact congrArg₂ Span.mk (sameFirst side) ends
  have sameSide := first.named.1.trans second.named.1.symm
  have sameIndex := first.named.2.trans second.named.2.symm
  show Trial.mk trial.side trial.index trial.leaf trial.span =
    Trial.mk other.side other.index other.leaf other.span
  rw [sameSide, sameIndex, sameLeaf, sameSpan]

/-- How far a span can have grown out of a base with the slots of a route still to be filled. -/
structure Reached (sentence : Sentence) (base : Span) (route : List Stop) (span : Span) : Prop where
  /-- The span starts in the sentence. -/
  inside : span.first < sentence.length
  /-- The span ends with the base as long as there are slots to the left. -/
  anchored : ∀ stop ∈ route, stop.side = .left → span.last = base.last
  /-- The slots to the left come before those to the right. -/
  sorted : route.Pairwise fun stop other => stop.side = .right → other.side = .right

/-- A span that is stretched for the next slot can still have grown so far. -/
theorem Reached.stretch (reached : Reached sentence base (stop :: route) span) {position : Nat}
    (within : position < sentence.length) :
    Reached sentence base (stop :: route) (span.stretch stop.side position) := by
  obtain ⟨inside, anchored, sorted⟩ := reached
  cases side : stop.side with
  | left => exact ⟨within, anchored, sorted⟩
  | right =>
    -- Once the way to the right has begun, no slot to the left is left.
    refine ⟨inside, List.forall_mem_cons.mpr ⟨fun left => ?_, fun other member left => ?_⟩, sorted⟩
    · cases side.symm.trans left
    · cases ((List.pairwise_cons.mp sorted).1 other member side).symm.trans left

/-- Once a slot is filled, those after it are still to be filled. -/
theorem Reached.tail (reached : Reached sentence base (stop :: route) span) :
    Reached sentence base route span :=
  ⟨reached.inside, (List.forall_mem_cons.mp reached.anchored).2,
    (List.pairwise_cons.mp reached.sorted).2⟩

/-- Whether a way to go on makes trials at the stops of a route only, from wherever it starts. -/
def TriesAlong (sentence : Sentence) (leaves : List Phrase) (base : Span) (route : List Stop)
    (goOn : Attempt.Continue) : Prop :=
  ∀ phrase status depth trials findings, Reached sentence base route phrase.span →
    (goOn phrase status depth trials).Yields findings →
    ∀ trial ∈ findings.trials,
      trial ∈ trials ∨ ∃ stop ∈ route, trial.MadeAt sentence leaves base stop

variable {goOn : Attempt.Continue} {phrase : Phrase} {status : MatchStatus} {depth : Nat}
  {findings : Findings}

/-- Filling a slot with tokens makes no trial at the slot. -/
theorem fillWord_tries {slot : WordSlot} {outward : List (Token × Nat)}
    (next : TriesAlong sentence leaves base route goOn)
    (within : ∀ next ∈ outward, next.2 < sentence.length)
    (reached : Reached sentence base (stop :: route) phrase.span)
    (ended : (Attempt.fillWord stop slot goOn outward phrase status depth trials).Yields findings) :
    ∀ trial ∈ findings.trials,
      trial ∈ trials ∨ ∃ stop ∈ route, trial.MadeAt sentence leaves base stop := by
  -- The slot may be filled again by the next token, from where the phrase has grown to.
  induction outward generalizing phrase status depth trials findings with
  | nil =>
    rw [ended.of_pure]
    exact fun trial made => .inl made
  | cons first outward rest =>
    obtain ⟨token, position⟩ := first
    obtain ⟨here, later⟩ := List.forall_mem_cons.mp within
    -- The phrase that has taken the token can still have grown so far.
    have stretched : Reached sentence base (stop :: route)
        (Attempt.takeWord stop slot token position phrase status).1.span := by
      rw [span_takeWord]
      exact reached.stretch here
    rw [Attempt.fillWord] at ended
    split at ended
    · obtain ⟨found, foundEnded, ended⟩ := ended.of_bind
      have made := next _ _ _ _ _ stretched.tail foundEnded
      split at ended
      · obtain ⟨_, _, ended⟩ := ended.of_bind
        obtain ⟨further, furtherEnded, ended⟩ := ended.of_bind
        have madeOn := rest later stretched furtherEnded
        rw [ended.of_pure]
        intro trial tried
        exact (madeOn trial tried).elim (made trial) .inr
      · rw [ended.of_pure]
        exact made
    · rw [ended.of_pure]
      exact fun trial made => .inl made

/-- Filling a slot with neighbours makes trials of them at the slot, and at those after it. -/
theorem fillModel_tries {attempt : Attempt} {slot : ModelSlot} {referenced : Pattern}
    {candidates : List (Phrase × Nat)}
    (next : TriesAlong sentence leaves base route goOn)
    (within : ∀ leaf ∈ leaves, leaf.span.Within sentence.length)
    (listed : ∀ next ∈ candidates, leaves[next.2]? = some next.1 ∧
      next.1.span.Beside phrase.span stop.side)
    (reached : Reached sentence base (stop :: route) phrase.span)
    (ended : (attempt.fillModel stop slot referenced goOn phrase status depth candidates
      trials).Yields findings) :
    ∀ trial ∈ findings.trials,
      trial ∈ trials ∨ ∃ other ∈ stop :: route, trial.MadeAt sentence leaves base other := by
  -- What one neighbour leaves behind is where the next one starts.
  induction candidates generalizing trials findings with
  | nil =>
    rw [ended.of_pure]
    exact fun trial made => .inl made
  | cons first candidates rest =>
    obtain ⟨leaf, number⟩ := first
    obtain ⟨⟨isListed, beside⟩, later⟩ := List.forall_mem_cons.mp listed
    rw [Attempt.fillModel] at ended
    split at ended
    · exact rest later ended
    · -- The new trial is made at the slot itself, beside the span.
      have made : ∀ trial ∈ trials.insert ⟨stop.side, stop.index, number, phrase.span⟩,
          trial ∈ trials ∨ ∃ other ∈ stop :: route, trial.MadeAt sentence leaves base other := by
        intro trial tried
        rcases Std.HashSet.mem_insert.mp tried with same | before
        · cases eq_of_beq same
          exact .inr ⟨stop, List.mem_cons_self, ⟨rfl, rfl⟩, ⟨leaf, isListed, beside⟩,
            reached.inside, reached.anchored stop List.mem_cons_self⟩
        · exact .inl before
      dsimp only at ended
      split at ended
      · intro trial tried
        exact (rest later ended trial tried).elim (made trial) .inr
      · rename_i grown counted taking
        obtain ⟨here, hereEnded, ended⟩ := ended.of_bind
        obtain ⟨further, furtherEnded, ended⟩ := ended.of_bind
        have inside := within leaf (List.mem_of_getElem? isListed)
        have stretched := reached.stretch (inside.reach stop.side)
        rw [← span_of_takeLeaf? taking] at stretched
        have madeHere := next _ _ _ _ _ stretched.tail hereEnded
        rw [ended.of_pure]
        -- A trial comes from the other neighbours, from going on behind this one, or from before.
        intro trial tried
        rcases rest later furtherEnded trial tried with before | new
        · rcases madeHere trial before with earlier | ⟨other, member, madeAt⟩
          · exact made trial earlier
          · exact .inr ⟨other, List.mem_cons_of_mem _ member, madeAt⟩
        · exact .inr new

/-- Walking along a route makes trials at its stops only. -/
theorem walk_tries {number : Nat}
    (within : ∀ leaf ∈ leaves, leaf.span.Within sentence.length)
    (route : List Stop) :
    TriesAlong sentence leaves base route
      ((extractor.attempt sentence leaves number pattern).walk route) := by
  -- The induction is on the route: what the stops behind the first one try is known by then.
  induction route with
  | nil =>
    intro phrase status depth trials findings _ ended
    rw [Attempt.walk] at ended
    rw [ended.of_pure]
    exact fun trial made => .inl made
  | cons stop route rest =>
    intro phrase status depth trials findings reached ended
    rw [Attempt.walk] at ended
    obtain ⟨_, _, ended⟩ := ended.of_bind
    split at ended
    · intro trial tried
      rcases fillWord_tries rest (fun _ => Surroundings.lt_of_mem_outward) reached ended trial
        tried with before | ⟨other, member, madeAt⟩
      · exact .inl before
      · exact .inr ⟨other, List.mem_cons_of_mem _ member, madeAt⟩
    · split at ended
      · rw [ended.of_pure]
        exact fun trial made => .inl made
      · exact fillModel_tries rest within (fun _ member => LeafIndex.mem_adjacent_ofList.mp member)
          reached ended

/-- How many trials can be made at a slot on a side, of so many phrases in so many tokens. -/
def Side.trialBound (side : Side) (tokens leaves : Nat) : Nat :=
  match side with
  -- The phrase that is tried tells where the span starts, which ends with the base.
  | .left => leaves
  -- The phrase tells where the span ends, which may start anywhere.
  | .right => tokens * leaves

/-- The stops of a route are told by their indices. -/
theorem eq_of_index_eq (apart : route.Pairwise fun stop other => stop.index ≠ other.index)
    {other : Stop} (first : stop ∈ route) (second : other ∈ route)
    (same : stop.index = other.index) : stop = other := by
  induction route with
  | nil => cases first
  | cons head route rest =>
    obtain ⟨here, later⟩ := List.pairwise_cons.mp apart
    rcases List.mem_cons.mp first with rfl | firstLater
    · rcases List.mem_cons.mp second with rfl | secondLater
      · rfl
      · exact absurd same (here other secondLater)
    · rcases List.mem_cons.mp second with rfl | secondLater
      · exact absurd same.symm (here stop firstLater)
      · exact rest later firstLater secondLater

/-- At a stop of a route no more trials can be made than there are neighbours and spans. -/
theorem card_triedAt_le (apart : route.Pairwise fun stop other => stop.index ≠ other.index)
    (made : ∀ trial ∈ trials, ∃ stop ∈ route, trial.MadeAt sentence leaves base stop)
    (member : stop ∈ route) :
    (triedAt trials stop.index).card ≤ stop.side.trialBound sentence.length leaves.length := by
  -- A trial under the index of the stop has been made there.
  have here : ∀ trial ∈ triedAt trials stop.index, trial.MadeAt sentence leaves base stop := by
    intro trial tried
    obtain ⟨isMade, same⟩ := mem_triedAt.mp tried
    obtain ⟨other, listed, madeAt⟩ := made trial isMade
    rwa [eq_of_index_eq apart member listed (same.symm.trans madeAt.named.2)]
  have numbered : ∀ trial ∈ triedAt trials stop.index, trial.leaf < leaves.length := by
    intro trial tried
    obtain ⟨leaf, listed, _⟩ := (here trial tried).neighbour
    exact (List.getElem?_eq_some_iff.mp listed).1
  -- On the left the phrases tell the trials apart, on the right they do with the starts of the spans.
  cases side : stop.side with
  | left =>
    rw [Side.trialBound, ← Finset.card_range leaves.length]
    refine Finset.card_le_card_of_injOn Trial.leaf (fun trial tried =>
      Finset.mem_coe.mpr (Finset.mem_range.mpr (numbered trial tried))) ?_
    intro trial tried other also same
    exact (here trial tried).eq_of_leaf_eq (here other also) same fun right => by
      cases side.symm.trans right
  | right =>
    rw [Side.trialBound, ← Finset.card_range sentence.length, ← Finset.card_range leaves.length,
      ← Finset.card_product]
    refine Finset.card_le_card_of_injOn (fun trial => (trial.span.first, trial.leaf))
      (fun trial tried => Finset.mem_coe.mpr (Finset.mem_product.mpr
        ⟨Finset.mem_range.mpr (here trial tried).inside,
          Finset.mem_range.mpr (numbered trial tried)⟩)) ?_
    intro trial tried other also same
    obtain ⟨sameFirst, sameLeaf⟩ := Prod.mk.inj same
    exact (here trial tried).eq_of_leaf_eq (here other also) sameLeaf fun _ => sameFirst

end PhraseGrammar
