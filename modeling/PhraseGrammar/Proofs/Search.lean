import Mathlib.Data.List.Forall2
import PhraseGrammar.Search

/-! A search that ends with a result has ended each of its parts with one. -/

namespace PhraseGrammar.Search

variable {α β : Type}

/-- Whether a search ends with a result where its budget lets it. -/
def Yields (search : Search α) (result : α) : Prop :=
  -- Neither the budget before nor the one after says anything about what is found.
  ∃ before after, search before = .ok result after

/-- A result that is there already is the only one. -/
theorem Yields.of_pure {given result : α} (ended : Yields (pure given) result) :
    result = given := by
  obtain ⟨before, after, same⟩ := ended
  -- The budget passes through as it is.
  simp only [pure, EStateM.pure, EStateM.Result.ok.injEq] at same
  exact same.1.symm

/-- Two searches one after the other have both ended with a result. -/
theorem Yields.of_bind {first : Search α} {second : α → Search β} {result : β}
    (ended : Yields (first >>= second) result) :
    ∃ between, Yields first between ∧ Yields (second between) result := by
  obtain ⟨before, after, same⟩ := ended
  simp only [bind, EStateM.bind] at same
  -- The second search starts with what the first one leaves of the budget.
  cases ran : first before with
  | error abort spent => simp [ran] at same
  | ok between spent =>
    simp only [ran] at same
    exact ⟨between, ⟨before, spent, ran⟩, ⟨spent, after, same⟩⟩

/-- Searches for every item are the same if those for the items that correspond are. -/
theorem gather_congr {γ : Type} {search : α → Search (List β)} {other : γ → Search (List β)}
    {items : List α} {others : List γ}
    (each : List.Forall₂ (fun item counterpart => search item = other counterpart) items others) :
    gather search items = gather other others := by
  induction each with
  | nil => rfl
  | cons here _ rest => rw [gather_cons, gather_cons, here, rest]

/-- Searches one after the other are the same if they are for all that the first one can yield. -/
theorem bind_eq_of_yields {first : Search α} {second other : α → Search β}
    (each : ∀ found, first.Yields found → second found = other found) :
    first >>= second = first >>= other := by
  funext budget
  simp only [bind, EStateM.bind]
  cases ran : first budget with
  | error abort spent => rfl
  | ok found spent => exact congrFun (each found ⟨budget, spent, ran⟩) spent

/-- To search for what items are turned into is to turn each of them when it is searched for. -/
theorem gather_map {γ : Type} (search : γ → Search (List β)) (turn : α → γ) (items : List α) :
    gather search (items.map turn) = gather (fun item => search (turn item)) items := by
  refine gather_congr ?_
  rw [List.forall₂_map_left_iff]
  exact List.forall₂_same.mpr fun _ _ => rfl

/-- To search for some items is to search for all, with no result for those to be passed over. -/
theorem gather_filter (search : α → Search (List β)) (test : α → Bool) (items : List α) :
    gather search (items.filter test) =
      gather (fun item => if test item then search item else pure []) items := by
  induction items with
  | nil => rfl
  | cons item items rest =>
    rw [gather_cons, List.filter_cons, ← rest]
    split
    · exact gather_cons search item _
    · simp only [pure_bind, List.nil_append, bind_pure]

/-- The search for the first item with results only depends on the searches for the items. -/
theorem firstFound_congr {search other : α → Search (List β)} {items : List α}
    (each : ∀ item ∈ items, search item = other item) :
    firstFound search items = firstFound other items := by
  induction items with
  | nil => rfl
  | cons item items rest =>
    obtain ⟨here, later⟩ := List.forall_mem_cons.mp each
    rw [firstFound, firstFound, here, rest later]

/-- A search for every item has found the results for each of them. -/
theorem Yields.of_gather {search : α → Search (List β)} {items : List α} {found : List β}
    (ended : Yields (gather search items) found) :
    ∃ blocks, List.Forall₂ (fun item block => Yields (search item) block) items blocks ∧
      found = blocks.flatten := by
  -- The block of each item comes before those of the items after it.
  induction items generalizing found with
  | nil =>
    rw [gather_nil] at ended
    exact ⟨[], .nil, ended.of_pure⟩
  | cons item items rest =>
    rw [gather_cons] at ended
    obtain ⟨here, hereEnded, ended⟩ := ended.of_bind
    obtain ⟨there, thereEnded, ended⟩ := ended.of_bind
    obtain ⟨blocks, each, same⟩ := rest thereEnded
    refine ⟨here :: blocks, .cons hereEnded each, ?_⟩
    rw [ended.of_pure, same, List.flatten_cons]

/-- Where each item has known results with a property, so has the search for all of them. -/
theorem Yields.of_gather_map {γ : Type} {search : α → Search (List β)} {items : List α}
    {found : List β} (shown : β → γ) (expected : α → List γ) (good : β → Prop)
    (each : ∀ item ∈ items, ∀ block, Yields (search item) block →
      block.map shown = expected item ∧ ∀ result ∈ block, good result)
    (ended : Yields (gather search items) found) :
    found.map shown = items.flatMap expected ∧ ∀ result ∈ found, good result := by
  obtain ⟨blocks, matched, rfl⟩ := ended.of_gather
  clear ended
  -- The blocks stand in the order of their items.
  induction matched with
  | nil => exact ⟨rfl, by simp⟩
  | cons blockEnded _ rest =>
    obtain ⟨here, later⟩ := List.forall_mem_cons.mp each
    obtain ⟨shownHere, goodHere⟩ := here _ blockEnded
    obtain ⟨shownLater, goodLater⟩ := rest later
    constructor
    · rw [List.flatten_cons, List.map_append, List.flatMap_cons, shownHere, shownLater]
    · intro result member
      rw [List.flatten_cons] at member
      exact (List.mem_append.mp member).elim (goodHere result) (goodLater result)

/-- The search for a first item with results has found none for the items before it. -/
theorem Yields.of_firstFound {search : α → Search (List β)} {items : List α} {found : List β}
    (ended : Yields (firstFound search items) found) :
    (found = [] ∧ ∀ item ∈ items, Yields (search item) []) ∨
      ∃ before item after, items = before ++ item :: after ∧
        (∀ earlier ∈ before, Yields (search earlier) []) ∧ Yields (search item) found ∧
        found ≠ [] := by
  -- The first item is searched before all others, and may end the search.
  induction items with
  | nil => exact .inl ⟨ended.of_pure, by simp⟩
  | cons item items rest =>
    rw [firstFound] at ended
    obtain ⟨here, hereEnded, ended⟩ := ended.of_bind
    split at ended
    · -- The first item has no result, so what the others have counts.
      rename_i empty
      obtain rfl : here = [] := List.isEmpty_iff.mp empty
      rcases rest ended with ⟨none, all⟩ | ⟨before, next, after, split, all, nextEnded, some⟩
      · exact .inl ⟨none, List.forall_mem_cons.mpr ⟨hereEnded, all⟩⟩
      · exact .inr ⟨item :: before, next, after, by rw [split, List.cons_append],
          List.forall_mem_cons.mpr ⟨hereEnded, all⟩, nextEnded, some⟩
    · -- The first item has results, and no other one is searched.
      rename_i some
      obtain rfl : found = here := ended.of_pure
      exact .inr ⟨[], item, items, rfl, by simp, hereEnded, by simpa using some⟩

end PhraseGrammar.Search
