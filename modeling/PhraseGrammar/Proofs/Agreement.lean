import PhraseGrammar.Proofs.Search

/-! Two searches that take the same way through different data find what corresponds. -/

namespace PhraseGrammar.Search

variable {α β γ δ : Type}

/-- Whether the results of two searches, where both have one, stand in a relation. -/
def Agree (related : α → β → Prop) (search : Search α) (other : Search β) : Prop :=
  ∀ result counterpart, Yields search result → Yields other counterpart →
    related result counterpart

/-- Whether another search finds the images of what a search finds, in the same order. -/
abbrev Maps (image : α → β) : Search (List α) → Search (List β) → Prop :=
  Agree fun found others => others = found.map image

namespace Agree

variable {related : α → β → Prop} {further : γ → δ → Prop} {first : Search α}
  {second : Search β} {goOn : α → Search γ} {resume : β → Search δ}

/-- Results that are there already agree if they stand in the relation. -/
theorem ofPure {result : α} {counterpart : β} (holds : related result counterpart) :
    Agree related (pure result) (pure counterpart) := by
  intro found other ended otherEnded
  rw [ended.of_pure, otherEnded.of_pure]
  exact holds

/-- Searches that agree and go on to agree do so one after the other. -/
theorem bind (before : Agree related first second)
    (after : ∀ result counterpart, related result counterpart →
      Agree further (goOn result) (resume counterpart)) :
    Agree further (first >>= goOn) (second >>= resume) := by
  intro found other ended otherEnded
  -- Both have come past a first result, and these stand in the first relation.
  obtain ⟨result, resultEnded, ended⟩ := ended.of_bind
  obtain ⟨counterpart, counterpartEnded, otherEnded⟩ := otherEnded.of_bind
  exact after result counterpart (before _ _ resultEnded counterpartEnded) _ _ ended otherEnded

/-- Where nothing depends on the first results, only what follows has to agree. -/
theorem seq (after : ∀ result counterpart, Agree further (goOn result) (resume counterpart)) :
    Agree further (first >>= goOn) (second >>= resume) := by
  have any : Agree (fun _ _ => True) first second := fun _ _ _ _ => trivial
  exact any.bind fun result counterpart _ => after result counterpart

end Agree

variable {image : β → δ} {search : α → Search (List β)} {items : List α}

/-- A search for every item finds the images if the searches for the items that correspond do. -/
theorem Maps.gather {other : γ → Search (List δ)} {others : List γ}
    (each : List.Forall₂ (fun item counterpart => Maps image (search item) (other counterpart))
      items others) :
    Maps image (Search.gather search items) (Search.gather other others) := by
  -- The blocks of two items that correspond are put before the blocks of the others.
  induction each with
  | nil =>
    rw [gather_nil, gather_nil]
    exact .ofPure rfl
  | cons here _ rest =>
    rw [gather_cons, gather_cons]
    refine here.bind fun block blocked same => rest.bind fun blocks images sames => ?_
    exact .ofPure (by rw [same, sames, List.map_append])

/-- A search for a first item with results finds the images if the same item is the first. -/
theorem Maps.firstFound {other : α → Search (List δ)}
    (each : ∀ next ∈ items, Maps image (search next) (other next)) :
    Maps image (Search.firstFound search items) (Search.firstFound other items) := by
  induction items with
  | nil => exact .ofPure rfl
  | cons next items rest =>
    obtain ⟨here, later⟩ := List.forall_mem_cons.mp each
    rw [Search.firstFound, Search.firstFound]
    refine here.bind fun block others same => ?_
    -- There are images exactly if there are results.
    rw [same, List.isEmpty_map]
    split
    · exact rest later
    · exact .ofPure rfl

/-- Whether all that a search finds is found by another search, too. -/
abbrev Within : Search (List α) → Search (List α) → Prop :=
  Agree fun found others => found ⊆ others

/-- What is found for each item within what another search finds is so for all of them. -/
theorem Within.gather {search other : α → Search (List β)}
    (each : ∀ item ∈ items, Within (search item) (other item)) :
    Within (Search.gather search items) (Search.gather other items) := by
  induction items with
  | nil => exact .ofPure (List.Subset.refl [])
  | cons item items rest =>
    obtain ⟨here, later⟩ := List.forall_mem_cons.mp each
    rw [gather_cons, gather_cons]
    refine here.bind fun block others some => (rest later).bind fun blocks further more => ?_
    exact .ofPure (List.append_subset.mpr ⟨List.subset_append_of_subset_left _ some,
      List.subset_append_of_subset_right _ more⟩)

/-- Items that come later in the search for a first one with results take nothing away from it. -/
theorem Within.firstFound_append (each : ∀ item ∈ items, Agree (· = ·) (search item) (search item))
    (further : List α) :
    Within (Search.firstFound search items) (Search.firstFound search (items ++ further)) := by
  induction items with
  | nil =>
    -- Without items nothing is found, and that is within whatever the further ones give.
    intro found other ended _
    rw [ended.of_pure]
    exact List.nil_subset other
  | cons item items rest =>
    obtain ⟨here, later⟩ := List.forall_mem_cons.mp each
    rw [List.cons_append, Search.firstFound, Search.firstFound]
    refine here.bind fun block others same => ?_
    -- The same block has been found in both searches, and it ends both of them or neither.
    rw [same]
    split
    · exact rest later
    · exact .ofPure (List.Subset.refl others)

/-- A search for the items of two lists is one for those of the first, and then of the second. -/
theorem gather_append (search : α → Search (List β)) (before after : List α) :
    Search.gather search (before ++ after) = do
      let first ← Search.gather search before
      let second ← Search.gather search after
      return first ++ second := by
  induction before with
  | nil => simp only [List.nil_append, gather_nil, pure_bind, bind_pure]
  | cons item before rest =>
    simp only [List.cons_append, gather_cons, rest, bind_assoc, pure_bind, List.append_assoc]

/-- A search for the items of two lists finds what the searches for either of them find. -/
theorem Yields.of_gather_append {before after : List α} {found : List β}
    (ended : Yields (Search.gather search (before ++ after)) found) :
    ∃ first second, Yields (Search.gather search before) first ∧
      Yields (Search.gather search after) second ∧ found = first ++ second := by
  rw [gather_append] at ended
  obtain ⟨first, firstEnded, ended⟩ := ended.of_bind
  obtain ⟨second, secondEnded, ended⟩ := ended.of_bind
  exact ⟨first, second, firstEnded, secondEnded, ended.of_pure⟩

end PhraseGrammar.Search
