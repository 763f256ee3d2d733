import PhraseGrammar.Proofs.Search

/-! Two searches in lockstep take the same steps, and what they find corresponds. -/

namespace PhraseGrammar

/-- Items that correspond are numbered alike. -/
theorem forall₂_zipIdx {α β : Type} {related : α → β → Prop} {items : List α} {others : List β}
    (each : List.Forall₂ related items others) (start : Nat) :
    List.Forall₂ (fun item counterpart => related item.1 counterpart.1 ∧ item.2 = counterpart.2)
      (items.zipIdx start) (others.zipIdx start) := by
  induction each generalizing start with
  | nil => exact .nil
  | cons here _ rest => exact .cons ⟨here, rfl⟩ (rest (start + 1))

namespace Search

variable {α β γ δ : Type}

/-- Whether two runs have ended alike: with related results or for one cause, at the same cost. -/
inductive EndsAlike (related : α → β → Prop) :
    EStateM.Result SearchAbort Budget α → EStateM.Result SearchAbort Budget β → Prop
  | ok {result : α} {counterpart : β} {after : Budget} (holds : related result counterpart) :
    EndsAlike related (.ok result after) (.ok counterpart after)
  | error {abort : SearchAbort} {after : Budget} :
    EndsAlike related (.error abort after) (.error abort after)

/-- Whether two searches end alike, whatever their budget is. -/
def Lockstep (related : α → β → Prop) (search : Search α) (other : Search β) : Prop :=
  ∀ budget, EndsAlike related (search budget) (other budget)

namespace Lockstep

variable {related : α → β → Prop} {further : γ → δ → Prop} {first : Search α}
  {second : Search β} {goOn : α → Search γ} {resume : β → Search δ}

/-- Results that are there already are in lockstep if they are related. -/
theorem ofPure {result : α} {counterpart : β} (holds : related result counterpart) :
    Lockstep related (pure result) (pure counterpart) :=
  fun _ => .ok holds

/-- A search is in lockstep with itself. -/
theorem refl (search : Search α) : Lockstep Eq search search := by
  intro budget
  cases search budget with
  | ok result after => exact .ok rfl
  | error abort after => exact .error

/-- Where searches in lockstep end with results, the first one yields its own. -/
theorem yields (both : Lockstep related first second) :
    Lockstep (fun result counterpart => related result counterpart ∧ Yields first result) first
      second := by
  intro budget
  have ended := both budget
  generalize ran : first budget = one at ended ⊢
  generalize second budget = two at ended ⊢
  cases ended with
  | ok holds => exact .ok ⟨holds, budget, _, ran⟩
  | error => exact .error

/-- Searches that find the same in lockstep are the same search. -/
theorem eq {other : Search α} (both : Lockstep Eq first other) : first = other := by
  funext budget
  have ended := both budget
  generalize first budget = one at ended ⊢
  generalize other budget = two at ended ⊢
  cases ended with
  | ok holds => rw [holds]
  | error => rfl

/-- Searches in lockstep stay so if less is asked of their results. -/
theorem imp {weaker : α → β → Prop} (both : Lockstep related first second)
    (less : ∀ result counterpart, related result counterpart → weaker result counterpart) :
    Lockstep weaker first second := by
  intro budget
  have ended := both budget
  generalize first budget = one at ended ⊢
  generalize second budget = two at ended ⊢
  cases ended with
  | ok holds => exact .ok (less _ _ holds)
  | error => exact .error

/-- Searches in lockstep that go on in lockstep are so one after the other. -/
theorem bind (before : Lockstep related first second)
    (after : ∀ result counterpart, related result counterpart →
      Lockstep further (goOn result) (resume counterpart)) :
    Lockstep further (first >>= goOn) (second >>= resume) := by
  intro budget
  have ended := before budget
  simp only [Bind.bind, EStateM.bind]
  generalize first budget = one at ended ⊢
  generalize second budget = two at ended ⊢
  -- Where the first parts have ended, they leave the same budget to the second ones.
  cases ended with
  | ok holds => exact after _ _ holds _
  | error => exact .error

/-- A search that both begin with takes the same steps in both. -/
theorem seq {shared : Search α} {goOn : α → Search γ} {resume : α → Search δ}
    (after : ∀ result, Lockstep further (goOn result) (resume result)) :
    Lockstep further (shared >>= goOn) (shared >>= resume) :=
  (refl shared).bind fun result _ same => same ▸ after result

variable {search : γ → Search (List α)} {other : δ → Search (List β)} {items : List γ}
  {others : List δ}

/-- Searches for every item are in lockstep if those for the items that correspond are. -/
theorem gather
    (each : List.Forall₂
      (fun item counterpart => Lockstep (List.Forall₂ related) (search item) (other counterpart))
      items others) :
    Lockstep (List.Forall₂ related) (Search.gather search items) (Search.gather other others) := by
  induction each with
  | nil => exact .ofPure .nil
  | cons here _ rest =>
    rw [gather_cons, gather_cons]
    refine here.bind fun block counterparts alike => rest.bind fun blocks further also => ?_
    exact .ofPure (List.rel_append alike also)

/-- Searches for a first item with results are in lockstep if those for the items are. -/
theorem firstFound
    (each : List.Forall₂
      (fun item counterpart => Lockstep (List.Forall₂ related) (search item) (other counterpart))
      items others) :
    Lockstep (List.Forall₂ related) (Search.firstFound search items)
      (Search.firstFound other others) := by
  induction each with
  | nil => exact .ofPure .nil
  | cons here _ rest =>
    rw [Search.firstFound, Search.firstFound]
    refine here.bind fun block counterparts alike => ?_
    -- Both have results for this item, or neither has.
    cases alike with
    | nil => exact rest
    | cons found more => exact .ofPure (.cons found more)

end Lockstep

end Search

end PhraseGrammar
