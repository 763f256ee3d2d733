import Mathlib.Algebra.GroupWithZero.Nat
import PhraseGrammar.Proofs.Search

/-! What a search takes is fixed beforehand, and its budget only says whether that can be afforded. -/

namespace PhraseGrammar

namespace Budget

/-- The budget once some more steps have been taken. -/
def spend (budget : Budget) (steps : Nat) : Budget :=
  { budget with steps := budget.steps + steps }

/-- Whether a budget is enough for some more steps and for going to a depth. -/
def Allows (budget : Budget) (steps depth : Nat) : Prop :=
  -- Where no more step is taken, it does not matter how many were taken before.
  (steps = 0 ∨ budget.steps + steps ≤ budget.maxSteps) ∧ depth ≤ budget.maxDepth

/-- A budget is enough for two parts of a search if the second one can still be afforded. -/
theorem allows_add {budget : Budget} {first second near far : Nat} :
    budget.Allows (first + second) (max near far) ↔
      budget.Allows first near ∧ (budget.spend first).Allows second far := by
  -- A second part that takes no step asks nothing of the steps of the first one.
  simp only [Allows, spend]
  omega

end Budget

/-- Whether a budget gives cause to cut off a search that takes some steps and goes to a depth. -/
def SearchAbort.Due (budget : Budget) (steps depth : Nat) : SearchAbort → Prop
  | .stepBudgetExceeded limit => limit = budget.maxSteps ∧ budget.maxSteps < budget.steps + steps
  | .depthExceeded limit => limit = budget.maxDepth ∧ budget.maxDepth < depth

namespace Search

variable {α β : Type}

/-- Whether a search with a result takes some steps and goes to a depth, whatever its budget is. -/
structure Costs (search : Search α) (result : α) (steps depth : Nat) : Prop where
  /-- The result is found where the budget is enough. -/
  ends : ∀ budget : Budget, budget.Allows steps depth →
    search budget = .ok result (budget.spend steps)
  /-- Otherwise the search is cut off for a cause, and no further step is taken. -/
  aborts : ∀ budget : Budget, ¬budget.Allows steps depth →
    ∃ abort after, search budget = .error abort after ∧ after.steps ≤ budget.steps + steps ∧
      abort.Due budget steps depth

/-- A result that is there already costs nothing. -/
theorem costs_pure (result : α) : Costs (pure result) result 0 0 where
  ends _ _ := rfl
  aborts _ refused := absurd ⟨.inl rfl, Nat.zero_le _⟩ refused

/-- A step costs one step. -/
theorem costs_step : Costs step () 1 0 where
  ends budget allowed := by
    -- The step is counted first and compared with the limit then.
    have room : ¬budget.maxSteps < budget.steps + 1 := by
      have := allowed.1
      omega
    simp only [step, if_neg room]
    rfl
  aborts budget refused := by
    have full : budget.maxSteps < budget.steps + 1 := by
      simp only [Budget.Allows] at refused
      omega
    refine ⟨.stepBudgetExceeded budget.maxSteps, budget.spend 1, ?_, Nat.le_refl _, rfl, full⟩
    simp only [step, if_pos full]
    rfl

/-- Going to a depth takes no step. -/
theorem costs_enter (depth : Nat) : Costs (enter depth) () 0 depth where
  ends budget allowed := by
    simp only [enter, if_neg (Nat.not_lt.mpr allowed.2)]
    rfl
  aborts budget refused := by
    have deep : budget.maxDepth < depth := Nat.lt_of_not_le fun near => refused ⟨.inl rfl, near⟩
    refine ⟨.depthExceeded budget.maxDepth, budget, ?_, Nat.le_refl _, rfl, deep⟩
    simp only [enter, if_pos deep]

/-- Two searches one after the other take the steps of both and go to the greater depth. -/
theorem Costs.bind {first : Search α} {second : α → Search β} {between : α} {result : β}
    {steps more depth deeper : Nat} (before : Costs first between steps depth)
    (after : Costs (second between) result more deeper) :
    Costs (first >>= second) result (steps + more) (max depth deeper) := by
  constructor
  · intro budget allowed
    -- What is allowed for both is allowed for the first one, and then for the second one.
    obtain ⟨near, far⟩ := Budget.allows_add.mp allowed
    simp only [Bind.bind, EStateM.bind, before.ends budget near, after.ends _ far]
    simp only [Budget.spend, Nat.add_assoc]
  · intro budget refused
    -- Either the first search is cut off already, or the second one is.
    by_cases near : budget.Allows steps depth
    · have far : ¬(budget.spend steps).Allows more deeper := fun far =>
        refused (Budget.allows_add.mpr ⟨near, far⟩)
      obtain ⟨abort, spent, ended, taken, due⟩ := after.aborts _ far
      refine ⟨abort, spent, ?_, ?_, ?_⟩
      · simp only [Bind.bind, EStateM.bind, before.ends budget near, ended]
      · rw [← Nat.add_assoc]
        exact taken
      · -- The cause that the second search had is one for both together.
        cases abort with
        | stepBudgetExceeded limit => exact ⟨due.1, by rw [← Nat.add_assoc]; exact due.2⟩
        | depthExceeded limit => exact ⟨due.1, Nat.lt_of_lt_of_le due.2 (Nat.le_max_right ..)⟩
    · obtain ⟨abort, spent, ended, taken, due⟩ := before.aborts _ near
      refine ⟨abort, spent, ?_, by omega, ?_⟩
      · simp only [Bind.bind, EStateM.bind, ended]
      · cases abort with
        | stepBudgetExceeded limit => exact ⟨due.1, Nat.lt_of_lt_of_le due.2 (by omega)⟩
        | depthExceeded limit => exact ⟨due.1, Nat.lt_of_lt_of_le due.2 (Nat.le_max_left ..)⟩

/-- A run that ends has found the result, and was allowed the steps that it has taken. -/
theorem Costs.of_ok {search : Search α} {result found : α} {steps depth : Nat}
    {budget after : Budget} (costs : Costs search result steps depth)
    (ended : search budget = .ok found after) :
    found = result ∧ after = budget.spend steps ∧ budget.Allows steps depth := by
  -- A run under a budget that is not enough would have been cut off.
  by_cases allowed : budget.Allows steps depth
  · have same := (costs.ends budget allowed).symm.trans ended
    cases same
    exact ⟨rfl, rfl, allowed⟩
  · obtain ⟨abort, spent, cut, _⟩ := costs.aborts budget allowed
    rw [cut] at ended
    cases ended

/-- A run that is cut off had cause to be, and counts no more steps than the search takes. -/
theorem Costs.of_error {search : Search α} {result : α} {steps depth : Nat}
    {budget after : Budget} {abort : SearchAbort} (costs : Costs search result steps depth)
    (cut : search budget = .error abort after) :
    after.steps ≤ budget.steps + steps ∧ abort.Due budget steps depth := by
  -- A run under a budget that is enough would have ended.
  by_cases allowed : budget.Allows steps depth
  · rw [costs.ends budget allowed] at cut
    cases cut
  · obtain ⟨other, spent, same, taken, due⟩ := costs.aborts budget allowed
    cases same.symm.trans cut
    exact ⟨taken, due⟩

/-- A search with a cost has its result and no other. -/
theorem Costs.yields_iff {search : Search α} {result found : α} {steps depth : Nat}
    (costs : Costs search result steps depth) : Yields search found ↔ found = result := by
  constructor
  · rintro ⟨before, after, ended⟩
    exact (costs.of_ok ended).1
  · rintro rfl
    -- A budget of exactly the cost is enough.
    have enough : (Budget.mk depth steps 0).Allows steps depth :=
      ⟨.inr (Nat.le_of_eq (Nat.zero_add _)), Nat.le_refl _⟩
    exact ⟨_, _, costs.ends _ enough⟩

/-- Whether a search counts at most so many steps, be it cut off or not. -/
def TakesAtMost (search : Search α) (bound : Nat) : Prop :=
  ∀ budget, match search budget with
    | .ok _ after => after.steps ≤ budget.steps + bound
    | .error _ after => after.steps ≤ budget.steps + bound

/-- Whether a search has a result at some cost, of which a statement about both holds. -/
def Priced (search : Search α) (post : α → Nat → Prop) : Prop :=
  ∃ result steps depth, Costs search result steps depth ∧ post result steps

namespace Priced

variable {search first : Search α} {post weaker : α → Nat → Prop}

/-- What holds of the result and the steps may be weakened. -/
theorem mono (priced : Priced search post)
    (implies : ∀ result steps, post result steps → weaker result steps) :
    Priced search weaker := by
  obtain ⟨result, steps, depth, costs, holds⟩ := priced
  exact ⟨result, steps, depth, costs, implies result steps holds⟩

/-- A result that is there already takes no step. -/
theorem ofPure {result : α} (holds : post result 0) : Priced (pure result) post :=
  ⟨result, 0, 0, costs_pure result, holds⟩

/-- The steps of two searches one after the other add up. -/
theorem bind {second : α → Search β} {middle : α → Nat → Prop} {post : β → Nat → Prop}
    (before : Priced first middle)
    (after : ∀ between steps, middle between steps →
      Priced (second between) fun result more => post result (steps + more)) :
    Priced (first >>= second) post := by
  obtain ⟨between, steps, depth, costs, holds⟩ := before
  obtain ⟨result, more, deeper, further, reached⟩ := after between steps holds
  exact ⟨result, steps + more, max depth deeper, costs.bind further, reached⟩

/-- A step comes before what it leads to. -/
theorem step {second : Unit → Search β} {post : β → Nat → Prop}
    (after : Priced (second ()) fun result more => post result (1 + more)) :
    Priced (Search.step >>= second) post := by
  obtain ⟨result, more, deeper, further, reached⟩ := after
  exact ⟨result, 1 + more, max 0 deeper, costs_step.bind further, reached⟩

/-- What a search finds may be taken into account in what holds of its price. -/
theorem and_yields (priced : Priced search post) :
    Priced search fun result steps => post result steps ∧ Yields search result := by
  obtain ⟨result, steps, depth, costs, holds⟩ := priced
  exact ⟨result, steps, depth, costs, holds, costs.yields_iff.mpr rfl⟩

/-- A search with a price has one result and no other. -/
theorem exists_yields_iff (priced : Priced search post) :
    ∃ result, ∀ found, Yields search found ↔ found = result := by
  obtain ⟨result, steps, depth, costs, _⟩ := priced
  exact ⟨result, fun found => costs.yields_iff⟩

/-- Whatever a search with a price finds, it finds the same each time. -/
theorem unique {found other : α} (priced : Priced search post) (ended : Yields search found)
    (also : Yields search other) : found = other := by
  obtain ⟨result, steps, depth, costs, _⟩ := priced
  exact (costs.yields_iff.mp ended).trans (costs.yields_iff.mp also).symm

/-- A search that takes no more steps than a bound counts no more, whatever its budget is. -/
theorem takesAtMost {bound : Nat} (priced : Priced search fun _ steps => steps ≤ bound) :
    TakesAtMost search bound := by
  obtain ⟨result, steps, depth, costs, within⟩ := priced
  intro budget
  cases ran : search budget with
  | ok found after =>
    obtain ⟨_, rfl, _⟩ := costs.of_ok ran
    show budget.steps + steps ≤ budget.steps + bound
    omega
  | error abort after =>
    have taken := (costs.of_error ran).1
    show after.steps ≤ budget.steps + bound
    omega

/-- A search that takes no more steps than its budget has left is not cut off for its steps. -/
theorem not_stepBudgetExceeded {bound limit : Nat} {budget after : Budget}
    (priced : Priced search fun _ steps => steps ≤ bound)
    (enough : budget.steps + bound ≤ budget.maxSteps) :
    search budget ≠ .error (.stepBudgetExceeded limit) after := by
  obtain ⟨result, steps, depth, costs, within⟩ := priced
  intro cut
  -- The abort names its cause: the steps do not fit, although they are within the bound.
  have short : budget.maxSteps < budget.steps + steps := (costs.of_error cut).2.2
  omega

/-- A search for every item takes at most the steps that the searches for each of them take. -/
theorem gather {search : α → Search (List β)} {bound : α → Nat} {items : List α}
    (each : ∀ item ∈ items, Priced (search item) fun _ steps => steps ≤ bound item) :
    Priced (Search.gather search items) fun _ steps => steps ≤ (items.map bound).sum := by
  -- The block of each item comes before those of the items after it.
  induction items with
  | nil =>
    rw [gather_nil]
    exact ofPure (Nat.le_refl _)
  | cons item items rest =>
    obtain ⟨here, later⟩ := List.forall_mem_cons.mp each
    rw [gather_cons, List.map_cons, List.sum_cons]
    refine bind here fun block steps within => bind (rest later) fun blocks more also => ?_
    exact ofPure (by omega)

/-- A search for the first item with results takes at most the steps for all of them. -/
theorem firstFound {search : α → Search (List β)} {bound : α → Nat} {items : List α}
    (each : ∀ item ∈ items, Priced (search item) fun _ steps => steps ≤ bound item) :
    Priced (Search.firstFound search items) fun _ steps => steps ≤ (items.map bound).sum := by
  -- The price of the items behind the first one is part of the sum, be they searched or not.
  induction items with
  | nil => exact ofPure (Nat.le_refl _)
  | cons item items rest =>
    obtain ⟨here, later⟩ := List.forall_mem_cons.mp each
    rw [Search.firstFound, List.map_cons, List.sum_cons]
    refine bind here fun block steps within => ?_
    -- The items after the first one with results are not searched.
    split
    · exact (rest later).mono fun _ more also => by omega
    · exact ofPure (by omega)

end Priced

end Search

end PhraseGrammar
