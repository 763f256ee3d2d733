import PhraseGrammar.Proofs.WalkPath

/-! Whatever a search enters is on a path, so that a check of what holds there changes nothing. -/

namespace PhraseGrammar

/-- Goes on if something holds, and is cut off otherwise. -/
def Search.require (holds : Bool) (abort : SearchAbort) : Search Unit := fun budget =>
  if holds then .ok () budget else .error abort budget

namespace Attempt

/-- Goes on as before, but only from where a check holds. -/
def checked (check : Moment → Bool) (abort : SearchAbort) (route : List Stop)
    (goOn : Continue) : Continue :=
  fun phrase status depth trials => do
    Search.require (check ⟨route, phrase, status, depth⟩) abort
    goOn phrase status depth trials

/-- The search along a route that is cut off as soon as a check fails for what it enters. -/
def checkedWalk (attempt : Attempt) (check : Moment → Bool) (abort : SearchAbort) :
    List Stop → Continue
  | [] => checked check abort [] (attempt.walk [])
  -- A slot that is filled again is entered with the phrase, the status and the depth with which the
  -- search has just gone on behind it, and so they have been checked.
  | stop :: route =>
    checked check abort (stop :: route) (attempt.fill stop (attempt.checkedWalk check abort route))

variable {extractor : Extractor} {sentence : Sentence} {leaves : List Phrase} {number : Nat}
  {pattern : Pattern} {start : Moment} {base : Span} {filled : List Nat} {route : List Stop}
  {phrase : Phrase} {status : MatchStatus} {depth : Nat} {trials : Trials}

/-- A check that holds lets the search go on with its budget as it is. -/
theorem checked_eq {check : Moment → Bool} {abort : SearchAbort} {goOn : Continue}
    (holds : check ⟨route, phrase, status, depth⟩) :
    checked check abort route goOn phrase status depth trials = goOn phrase status depth trials := by
  rw [checked, holds]
  rfl

/-- Searches are equal if their parts are. -/
theorem closed_eq (attempt : Attempt) (start : Moment) : attempt.Closed start Eq where
  nothing _ := rfl
  both first _ second counterpart same each := by
    -- The second searches are equal whatever trials they start with.
    have seconds : second = counterpart := funext each
    rw [same, seconds]
  descend _ moment _ _ _ _ same := by rw [same]

/-- A check that holds along all paths from where a search sets out does not change the search. -/
theorem checkedWalk_eq {check : Moment → Bool} (abort : SearchAbort)
    (isLeaf : ∀ leaf ∈ leaves, extractor.IsLeaf sentence leaf)
    (begun : Underway extractor sentence pattern base start.route start.phrase start.status)
    (holds : ∀ filled moment,
      (extractor.attempt sentence leaves number pattern).Path start filled moment → check moment)
    (path : (extractor.attempt sentence leaves number pattern).Path start filled
      ⟨route, phrase, status, depth⟩) :
    (extractor.attempt sentence leaves number pattern).checkedWalk check abort route phrase status
        depth trials =
      (extractor.attempt sentence leaves number pattern).walk route phrase status depth trials := by
  -- The induction is on the route, and each stop of it is entered on a path.
  induction route generalizing filled phrase status depth trials with
  | nil => exact checked_eq (holds _ _ path)
  | cons stop route rest =>
    rw [checkedWalk, checked_eq (holds _ _ path), walk_cons]
    exact fill_closed _ _ isLeaf begun (closed_eq _ start)
      (fun _ _ _ _ _ path => rest path) path

end Attempt

namespace Extractor

/-- Where the search for phrases of a pattern sets out, if a phrase of words passes as the base. -/
def outset? (pattern : Pattern) (base : Phrase) : Option Moment := do
  let anchor ← pattern.modelSlotIndex? base.pattern
  let slot ← (pattern.component? anchor).bind Component.model?
  let status ← baseStatus? pattern slot base
  return ⟨pattern.route anchor, seed pattern slot base, status, 1⟩

variable {extractor : Extractor} {sentence : Sentence} {pattern : Pattern} {base : Phrase}
  {start : Moment}

/-- A search sets out from the base in its slot, which has to be filled by it. -/
theorem outset?_eq_some_iff : outset? pattern base = some start ↔
    ∃ anchor slot status, pattern.modelSlotIndex? base.pattern = some anchor ∧
      pattern.component? anchor = some (.model slot) ∧
      baseStatus? pattern slot base = some status ∧
      start = ⟨pattern.route anchor, seed pattern slot base, status, 1⟩ := by
  constructor
  · intro same
    simp only [outset?, bind, Option.bind_eq_some_iff, pure, Option.some.injEq] at same
    obtain ⟨anchor, index, slot, ⟨component, stands, isModel⟩, status, passes, same⟩ := same
    -- The slot is one for a phrase, or there would be none.
    cases component with
    | word word => cases isModel
    | model model =>
      cases isModel
      exact ⟨anchor, slot, status, index, stands, passes, same.symm⟩
  · rintro ⟨anchor, slot, status, index, stands, passes, rfl⟩
    simp [outset?, index, stands, passes, Component.model?]

/-- The phrases that a base grows into are those of the search from where it sets out. -/
theorem compositeCandidates_eq (registry : Registry) (around : Surroundings) (leaves : LeafIndex)
    (base : Phrase) (number : Nat) (pattern : Pattern) :
    compositeCandidates registry around leaves base number pattern =
      match outset? pattern base with
      | none => return []
      | some start => do
        Search.step
        let findings ←
          start.resume (Attempt.walk ⟨registry, around, leaves, number, pattern.length⟩) ∅
        return findings.found := by
  unfold compositeCandidates outset?
  -- Whatever keeps the base from passing, nothing is found and no step is taken.
  cases pattern.modelSlotIndex? base.pattern with
  | none => rfl
  | some anchor =>
    simp only [Option.bind_eq_bind, Option.bind_some]
    cases (pattern.component? anchor).bind Component.model? with
    | none => rfl
    | some slot =>
      simp only [Option.bind_some]
      cases baseStatus? pattern slot base with
      | none => rfl
      | some status => rfl

/-- Where a search sets out, all slots but that of the base are still to be filled. -/
theorem underway_outset (faithful : base.Faithful extractor sentence)
    (sets : outset? pattern base = some start) :
    Underway extractor sentence pattern base.span start.route start.phrase start.status := by
  obtain ⟨anchor, slot, status, index, stands, passes, rfl⟩ := outset?_eq_some_iff.mp sets
  exact underway_seed (Pattern.model_of_modelSlotIndex? index).1 stands faithful passes

end Extractor

end PhraseGrammar
