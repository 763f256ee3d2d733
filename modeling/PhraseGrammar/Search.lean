import PhraseGrammar.MatchOptions

/-! A search counts its steps, and is cut off where it goes beyond a budget. -/

namespace PhraseGrammar

/-- How far the search in a sentence may go, and how far it has gone. -/
structure Budget where
  /-- The greatest depth allowed. -/
  maxDepth : Nat
  /-- The greatest number of steps allowed. -/
  maxSteps : Nat
  /-- The number of steps taken. -/
  steps : Nat := 0
deriving DecidableEq, Repr

/-- Why a search is cut off. -/
inductive SearchAbort where
  /-- More steps than the limit would be needed. -/
  | stepBudgetExceeded (limit : Nat)
  /-- A depth beyond the limit would be needed. -/
  | depthExceeded (limit : Nat)
deriving DecidableEq, Repr

/-- The wording for a search that is cut off. -/
def SearchAbort.message : SearchAbort → String
  | .stepBudgetExceeded limit => "search aborted after " ++ toString limit ++ " steps"
  | .depthExceeded limit => "search aborted at recursion depth " ++ toString limit

/-- A search with a result; the budget is kept when it is cut off. -/
abbrev Search := EStateM SearchAbort Budget

/-- The budget that the options allow. -/
def Budget.ofOptions (options : MatchOptions) : Budget :=
  { maxDepth := options.maxDepth, maxSteps := options.maxSteps }

namespace Search

/-- Takes a step; a step beyond the limit is counted, too. -/
def step : Search Unit := fun budget =>
  let taken := { budget with steps := budget.steps + 1 }
  if taken.maxSteps < taken.steps then .error (.stepBudgetExceeded budget.maxSteps) taken
  else .ok () taken

/-- Goes to a depth. -/
def enter (depth : Nat) : Search Unit := fun budget =>
  if budget.maxDepth < depth then .error (.depthExceeded budget.maxDepth) budget
  else .ok () budget

/-- What was found before and the results of a search for every item, in order. -/
def gatherOnto {α β : Type} (search : α → Search (List β)) (found : Array β) :
    List α → Search (Array β)
  | [] => pure found
  | item :: items => do
    let here ← search item
    gatherOnto search (found ++ here) items

/-- The results of a search for every item, in order. -/
def gather {α β : Type} (search : α → Search (List β)) (items : List α) : Search (List β) := do
  let found ← gatherOnto search #[] items
  return found.toList

/-- What was found before does not matter to what is found later. -/
theorem gatherOnto_eq {α β : Type} (search : α → Search (List β)) (found : Array β)
    (items : List α) :
    gatherOnto search found items = do
      let there ← gatherOnto search #[] items
      return found ++ there := by
  funext budget
  induction items generalizing found budget with
  | nil =>
    simp only [gatherOnto, bind, EStateM.bind, pure, EStateM.pure]
    rw [Array.append_empty]
  | cons item items rest =>
    simp only [gatherOnto, bind, EStateM.bind, pure, EStateM.pure] at rest ⊢
    cases search item budget with
    | error abort spent => rfl
    | ok here spent =>
      dsimp only
      rw [rest, rest (#[] ++ here)]
      cases gatherOnto search #[] items spent with
      | error abort spent => rfl
      | ok there spent =>
        dsimp only
        congr 1
        apply Array.ext'
        rw [Array.toList_append, Array.toList_append, Array.toList_append, Array.toList_appendList,
          Array.toList_appendList, List.nil_append, List.append_assoc]

/-- Nothing is found for no item. -/
theorem gather_nil {α β : Type} (search : α → Search (List β)) : gather search [] = pure [] :=
  rfl

/-- What is found for the first item comes before what is found for the others. -/
theorem gather_cons {α β : Type} (search : α → Search (List β)) (item : α) (items : List α) :
    gather search (item :: items) = do
      let here ← search item
      let there ← gather search items
      return here ++ there := by
  funext budget
  simp only [gather, gatherOnto, bind, EStateM.bind, pure, EStateM.pure]
  cases search item budget with
  | error abort spent => rfl
  | ok here spent =>
    dsimp only
    rw [gatherOnto_eq]
    simp only [bind, EStateM.bind, pure, EStateM.pure]
    cases gatherOnto search #[] items spent with
    | error abort spent => rfl
    | ok there spent =>
      dsimp only
      rw [Array.toList_append, Array.toList_appendList, List.nil_append]

/-- The results of the search for the first item that has any. -/
def firstFound {α β : Type} (search : α → Search (List β)) : List α → Search (List β)
  | [] => pure []
  | item :: items => do
    let found ← search item
    if found.isEmpty then firstFound search items else return found

end Search

end PhraseGrammar
