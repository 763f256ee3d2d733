import PhraseGrammar.Proofs.HeadRoles

/-! The head of a phrase of phrases is that of the first head slot that the search fills. -/

namespace PhraseGrammar

/-- Whether the slot at an index gives the head of a phrase that has its base at the anchor. -/
inductive Pattern.GivesHead (pattern : Pattern) (anchor : Nat) : Nat → Prop where
  /-- The slot of the base gives the head if it has the role. -/
  | base (isHead : pattern.isHeadAt anchor) : pattern.GivesHead anchor anchor
  /-- Without the role there, the nearest head slot before it gives the head. -/
  | before {index : Nat} (dependent : ¬pattern.isHeadAt anchor) (earlier : index < anchor)
      (isHead : pattern.isHeadAt index)
      (nearest : ∀ between, index < between → between < anchor → ¬pattern.isHeadAt between) :
      pattern.GivesHead anchor index
  /-- Without the role before it either, the nearest head slot behind it gives the head. -/
  | behind {index : Nat} (dependent : ¬pattern.isHeadAt anchor) (later : anchor < index)
      (none : ∀ other, other < anchor → ¬pattern.isHeadAt other) (isHead : pattern.isHeadAt index)
      (nearest : ∀ between, anchor < between → between < index → ¬pattern.isHeadAt between) :
      pattern.GivesHead anchor index

/-- Whether a phrase has the head that the runs for the slots of its pattern give it. -/
structure Extractor.HeadedBy (extractor : Extractor) (sentence : Sentence) (pattern : Pattern)
    (anchor : Nat) (runs : List Span) (phrase : Phrase) : Prop where
  /-- There is no head exactly if no slot has the role of the head. -/
  headless : phrase.head = none ↔ ∀ component ∈ pattern.components, ¬component.isHead
  /-- Otherwise the head is that of the slot that gives it, and lies in the run for this slot. -/
  headed : (∃ component ∈ pattern.components, component.isHead) →
    ∃ index component run head, pattern.GivesHead anchor index ∧
      pattern.component? index = some component ∧ runs[index]? = some run ∧
      phrase.head = some head ∧ extractor.HeadAt sentence component run head

/-- Whether a phrase comes from a binding of its pattern around a phrase of words, head included. -/
def Extractor.BoundWithHead (extractor : Extractor) (sentence : Sentence) (leaves : List Phrase)
    (phrase : Phrase) : Prop :=
  ∃ pattern ∈ extractor.registry.compositePatterns, phrase.pattern = pattern.name ∧
    ∃ base ∈ leaves, ∃ anchor runs, Admissible base pattern anchor ∧
      extractor.Binding sentence leaves base pattern anchor runs phrase.span ∧
      extractor.HeadedBy sentence pattern anchor runs phrase

namespace Pattern

variable {pattern : Pattern} {anchor : Nat}

/-- A pattern has a head slot exactly if there is one at some index. -/
theorem exists_isHeadAt_iff :
    (∃ index, pattern.isHeadAt index) ↔ ∃ component ∈ pattern.components, component.isHead := by
  constructor
  · rintro ⟨index, isHead⟩
    obtain ⟨component, stands, isHead⟩ := (Option.any_eq_true ..).mp isHead
    exact ⟨component, List.mem_of_getElem? stands, isHead⟩
  · rintro ⟨component, member, isHead⟩
    obtain ⟨index, stands⟩ := List.mem_iff_getElem?.mp member
    exact ⟨index, (Option.any_eq_true ..).mpr ⟨component, stands, isHead⟩⟩

/-- On the way to the left a stop has the role of the head if its slot has. -/
theorem any_isHead_route_left {place : Nat} (inside : anchor < pattern.length)
    (near : place < anchor) :
    ((pattern.route anchor)[place]?).any (fun stop => stop.component.isHead) =
      pattern.isHeadAt (anchor - 1 - place) := by
  rw [getElem?_route_left inside near, Option.any_map]
  rfl

/-- On the way to the right a stop has the role of the head if its slot has. -/
theorem any_isHead_route_right {place : Nat} (inside : anchor < pattern.length)
    (far : anchor ≤ place) :
    ((pattern.route anchor)[place]?).any (fun stop => stop.component.isHead) =
      pattern.isHeadAt (place + 1) := by
  rw [getElem?_route_right inside far, Option.any_map]
  rfl

end Pattern

/-- The first head slot of a route has the role of the head, and no stop before it has. -/
theorem isHead_of_firstHead? {route : List Stop} {place : Nat}
    (first : firstHead? route = some place) :
    (route[place]?).any (fun stop => stop.component.isHead) ∧
      ∀ earlier, earlier < place →
        ¬(route[earlier]?).any fun stop => stop.component.isHead := by
  obtain ⟨inside, isHead, none⟩ := List.findIdx?_eq_some_iff_getElem.mp first
  refine ⟨by rw [List.getElem?_eq_getElem inside]; exact isHead, fun earlier before => ?_⟩
  rw [List.getElem?_eq_getElem (Nat.lt_trans before inside)]
  exact none earlier before

namespace Pattern

variable {pattern : Pattern} {anchor : Nat}

/-- If the base does not give the head, the first head slot on the route around it does. -/
theorem givesHead_of_firstHead? {place : Nat} {stop : Stop} (inside : anchor < pattern.length)
    (dependent : ¬pattern.isHeadAt anchor)
    (first : firstHead? (pattern.route anchor) = some place)
    (stands : (pattern.route anchor)[place]? = some stop) :
    pattern.GivesHead anchor stop.index := by
  obtain ⟨isHead, none⟩ := isHead_of_firstHead? first
  rcases Nat.lt_or_ge place anchor with near | far
  · -- Slots between the one found and the base have their stops before it on the route.
    rw [any_isHead_route_left inside near] at isHead
    rw [getElem?_route_left inside near, Option.map_eq_some_iff] at stands
    obtain ⟨component, _, rfl⟩ := stands
    refine .before dependent (show anchor - 1 - place < anchor by omega) isHead ?_
    intro between after before
    have after : anchor - 1 - place < between := after
    have refused := none (anchor - 1 - between) (by omega)
    rwa [any_isHead_route_left inside (by omega), show anchor - 1 - (anchor - 1 - between) = between
      by omega] at refused
  · rw [any_isHead_route_right inside far] at isHead
    rw [getElem?_route_right inside far, Option.map_eq_some_iff] at stands
    obtain ⟨component, _, rfl⟩ := stands
    refine .behind dependent (show anchor < place + 1 by omega) ?_ isHead ?_
    · -- All slots before the base have been passed on the way to the left.
      intro other before
      have refused := none (anchor - 1 - other) (by omega)
      rwa [any_isHead_route_left inside (by omega), show anchor - 1 - (anchor - 1 - other) = other
        by omega] at refused
    · intro between after before
      have before : between < place + 1 := before
      have refused := none (between - 1) (by omega)
      rwa [any_isHead_route_right inside (by omega), Nat.sub_add_cancel (by omega)] at refused

/-- A route around a slot without the role has a head slot if there is one in the pattern. -/
theorem exists_firstHead? (inside : anchor < pattern.length) (dependent : ¬pattern.isHeadAt anchor)
    (some : ∃ component ∈ pattern.components, component.isHead) :
    ∃ place stop, firstHead? (pattern.route anchor) = .some place ∧
      (pattern.route anchor)[place]? = .some stop := by
  cases first : firstHead? (pattern.route anchor) with
  | some place =>
    obtain ⟨within, _⟩ := List.findIdx?_eq_some_iff_getElem.mp first
    exact ⟨place, _, rfl, List.getElem?_eq_getElem within⟩
  | none =>
    obtain ⟨index, isHead⟩ := exists_isHeadAt_iff.mpr some
    obtain ⟨component, stands, isHead⟩ := (Option.any_eq_true ..).mp isHead
    have listed : (component, index) ∈ pattern.components.zipIdx :=
      List.mk_mem_zipIdx_iff_getElem?.mpr stands
    have apart : index ≠ anchor := by
      rintro rfl
      exact dependent (by rw [isHeadAt, stands]; exact isHead)
    -- The route passes every slot but that of the base, and so this one.
    obtain ⟨stop, onRoute, rfl⟩ := exists_mem_route inside listed apart
    have refused := List.findIdx?_eq_none_iff.mp first stop onRoute
    exact absurd isHead (by rw [refused]; exact Bool.false_ne_true)

end Pattern

section Along

variable {extractor : Extractor} {sentence : Sentence} {leaves : List Phrase} {route : List Stop}
  {runs : List Span} {before after : Phrase × MatchStatus}

/-- Once the head has been looked at, the slots of a route leave it alone. -/
theorem along_keeps_head (along : Along (Taken extractor sentence leaves) route runs before after)
    (checked : before.2.headChecked = true) : after.1.head = before.1.head := by
  induction route generalizing runs before with
  | nil =>
    cases runs with
    | nil => rw [show before = after from along]
    | cons run runs => exact absurd along id
  | cons stop route rest =>
    cases runs with
    | nil => exact absurd along id
    | cons run runs =>
      obtain ⟨middle, taken, along⟩ := along
      obtain ⟨kept, stillChecked, _⟩ := taken.unheaded (by simp [checked])
      exact (rest along (stillChecked.trans checked)).trans kept

/-- As long as the head has not been looked at, the first head slot of a route gives it. -/
theorem along_gives_head (along : Along (Taken extractor sentence leaves) route runs before after)
    (unchecked : before.2.headChecked = false) {place : Nat} {stop : Stop}
    (first : firstHead? route = some place) (stands : route[place]? = some stop) :
    ∃ run head, runs[place]? = some run ∧ after.1.head = some head ∧
      extractor.HeadAt sentence stop.component run head := by
  induction route generalizing runs before place with
  | nil => cases stands
  | cons next route rest =>
    cases runs with
    | nil => exact absurd along id
    | cons run runs =>
      obtain ⟨middle, taken, along⟩ := along
      rw [firstHead?_cons] at first
      split at first
      · -- The head is given here, and the slots after this one leave it alone.
        rename_i isHead
        cases first
        cases stands
        obtain ⟨checked, _, head, same, headAt⟩ := taken.headed isHead unchecked
        exact ⟨run, head, rfl, (along_keeps_head along checked).trans same, headAt⟩
      · rename_i dependent
        obtain ⟨place, later, rfl⟩ := Option.map_eq_some_iff.mp first
        obtain ⟨_, stillUnchecked, _⟩ := taken.unheaded fun both => dependent both.1
        exact rest along (stillUnchecked.trans unchecked) later stands

end Along

namespace Extractor

variable {extractor : Extractor} {sentence : Sentence} {leaves : List Phrase} {pattern : Pattern}
  {base phrase : Phrase}

/-- A phrase that is taken together around a base has the head that the runs give it. -/
theorem headedBy_of_along {anchor : Nat} {slot : ModelSlot} {status ended : MatchStatus}
    {runs : List Span} (isLeaf : extractor.IsLeaf sentence base)
    (index : pattern.modelSlotIndex? base.pattern = some anchor)
    (stands : pattern.component? anchor = some (.model slot))
    (passes : baseStatus? pattern slot base = some status)
    (along : Along (Taken extractor sentence leaves) (pattern.route anchor) runs
      (seed pattern slot base, status) (phrase, ended)) :
    extractor.HeadedBy sentence pattern anchor (runsAround anchor base.span runs) phrase := by
  obtain ⟨inside, other, standsToo, named⟩ := Pattern.model_of_modelSlotIndex? index
  cases stands.symm.trans standsToo
  have role := Pattern.isHeadAt_of_model stands
  have checked := headChecked_of_baseStatus? passes
  have length := along_length along
  cases isHead : slot.condition.isHead with
  | true =>
    -- The base gives the head, and no other slot changes it.
    obtain ⟨head, same, headAt⟩ := isLeaf.headAt named.symm
    have kept : phrase.head = some head := by
      refine (along_keeps_head along (by rw [checked, isHead, Bool.or_true])).trans ?_
      show (if slot.condition.isHead then base.head else none) = some head
      rw [isHead, if_pos rfl, same]
    have member := List.mem_of_getElem? stands
    refine ⟨iff_of_false (by rw [kept]; exact Option.some_ne_none head)
      fun none => none _ member isHead, fun _ => ?_⟩
    exact ⟨anchor, .model slot, base.span, head, .base (by rw [role, isHead]), stands,
      Pattern.getElem?_runsAround_anchor inside length, kept, headAt⟩
  | false =>
    have dependent : ¬pattern.isHeadAt anchor := by rw [role, isHead]; exact Bool.false_ne_true
    by_cases some : ∃ component ∈ pattern.components, component.isHead
    · obtain ⟨place, stop, first, there⟩ := Pattern.exists_firstHead? inside dependent some
      -- A pattern with a head slot starts out with a head that is still to be looked at.
      have unchecked : status.headChecked = false := by
        rw [checked, isHead, Bool.or_false, Option.isNone_eq_false_iff,
          Pattern.headIndex?, List.findIdx?_isSome, List.any_eq_true]
        exact some
      obtain ⟨run, head, isRun, same, headAt⟩ := along_gives_head along unchecked first there
      constructor
      · refine iff_of_false (by rw [same]; exact Option.some_ne_none head) fun none => ?_
        obtain ⟨component, member, isHead⟩ := some
        exact none component member isHead
      · intro _
        refine ⟨stop.index, stop.component, run, head,
          Pattern.givesHead_of_firstHead? inside dependent first there, ?_, ?_, same, headAt⟩
        · exact Pattern.component?_of_mem_route (List.mem_of_getElem? there)
        · rw [Pattern.getElem?_runsAround inside length there]
          exact isRun
    · -- Without a head slot the head is never set.
      have none : ∀ component ∈ pattern.components, ¬component.isHead := by simpa using some
      have headless : pattern.headIndex? = .none :=
        List.findIdx?_eq_none_iff.mpr (by simpa using none)
      have kept : phrase.head = .none := by
        refine (along_keeps_head along (by rw [checked, headless]; rfl)).trans ?_
        show (if slot.condition.isHead then base.head else .none) = .none
        rw [isHead, if_neg Bool.false_ne_true]
      exact ⟨iff_of_true kept none, fun found => absurd found some⟩

/-- Whatever the pass for phrases of phrases finds has grown from some phrase of words. -/
theorem candidate_of_compositePass {found : List Phrase}
    (ended : (extractor.compositePass sentence leaves).Yields found) (member : phrase ∈ found) :
    ∃ number base pattern candidates, leaves[number]? = some base ∧
      pattern ∈ extractor.registry.compositePatterns ∧
      (compositeCandidates extractor.registry (extractor.surroundings sentence) (.ofList leaves)
        base number pattern).Yields candidates ∧ phrase ∈ candidates := by
  obtain ⟨candidates, gathered, ended⟩ := ended.of_bind
  obtain ⟨blocks, each, rfl⟩ := gathered.of_gather
  rw [ended.of_pure] at member
  obtain ⟨block, isBlock, listed⟩ :=
    List.mem_flatten.mp ((Phrase.dropEchoes_sublist _).subset member)
  obtain ⟨⟨base, number⟩, isBase, blockEnded⟩ := exists_of_mem_forall₂ each isBlock
  -- A block that is not empty is what the first pattern with any phrase has found.
  rcases blockEnded.of_firstFound with ⟨rfl, _⟩ | ⟨before, pattern, after, split, _, found, _⟩
  · cases listed
  · refine ⟨number, base, pattern, block, List.mem_zipIdx_iff_getElem?.mp isBase, ?_, found, listed⟩
    rw [split]
    exact List.mem_append_right before List.mem_cons_self

/-- A phrase of phrases comes from a binding around a phrase of words, and so does its head. -/
theorem boundWithHead_of_compositePass {found : List Phrase}
    (isLeaf : ∀ leaf ∈ leaves, extractor.IsLeaf sentence leaf)
    (ended : (extractor.compositePass sentence leaves).Yields found) (member : phrase ∈ found) :
    extractor.BoundWithHead sentence leaves phrase := by
  obtain ⟨number, base, pattern, candidates, isBase, registered, ended, listed⟩ :=
    candidate_of_compositePass ended member
  have isListed := List.mem_of_getElem? isBase
  rcases compositeCandidates_explored isLeaf isBase ended with
    ⟨rfl, _⟩ | ⟨anchor, slot, status, admissible, inside, stands, passes, underway, sound, _⟩
  · cases listed
  · obtain ⟨runs, counted, along⟩ := sound phrase listed
    -- The runs along the route are those of a binding, once that of the base is put among them.
    obtain ⟨grown, _, named⟩ := along_taken underway.faithful along
    exact ⟨pattern, registered, named, base, isListed, anchor, _, admissible,
      Pattern.binding_runsAround inside grown,
      headedBy_of_along (isLeaf base isListed) admissible.1 stands passes along⟩

end Extractor

/-- Phrases of phrases have the heads of their bindings, and the head check refuses no leaf. -/
theorem extract_headed {patterns : List Pattern} {limit : Nat} {registry : Registry}
    (built : Registry.build patterns limit = .ok registry) {options : MatchOptions}
    {stopWords : StopWords} {sentence : Sentence} {extraction : Extraction}
    (ended : Extractor.extract ⟨registry, options, stopWords⟩ sentence = .ok extraction) :
    (∀ phrase ∈ extraction.complex,
        Extractor.BoundWithHead ⟨registry, options, stopWords⟩ sentence extraction.simple phrase) ∧
      ∀ leaf ∈ extraction.simple, ∃ referenced, registry.byName? leaf.pattern = some referenced ∧
        ∀ number pattern,
          (Extractor.attempt ⟨registry, options, stopWords⟩ sentence extraction.simple number
            pattern).headMatches referenced leaf := by
  obtain ⟨simple, complex, simpleEnded, complexEnded, rfl⟩ := Extractor.yields_of_extract ended
  have isLeaf := Extractor.isLeaf_of_leafPass (Registry.sound_of_build built) simpleEnded
  constructor
  · intro phrase member
    -- What stays after the reduction was found by the pass.
    exact Extractor.boundWithHead_of_compositePass isLeaf complexEnded
      (Extractor.reduce_subset _ _ member)
  · intro leaf member
    -- The pattern of a phrase of words is registered, and its head meets it.
    obtain ⟨referenced, _, _, _, named, _⟩ := (isLeaf leaf member).headed
    exact ⟨referenced, named, fun number pattern => (isLeaf leaf member).headMatches rfl named⟩

/-- A grammar of nouns, and of nouns after adjectives that have the role of the head. -/
def nounQualities : List Pattern :=
  [⟨"noun", [.word { pos := .noun, condition := .ofRole .head }]⟩,
    ⟨"described noun", [.word { pos := .adjective, condition := (Condition.ofRole .head).repeated },
      .model { pattern := "noun" }]⟩]

/-- The grammar of qualities is registered. -/
theorem build_nounQualities :
    Registry.build nounQualities = .ok (.assemble nounQualities [0, 1]) :=
  build_of_nounPhrases (.cons ⟨rfl, rfl, rfl⟩ (.cons ⟨rfl, rfl, rfl⟩ .nil))

/-- The cat is the base, but black is the head, whether or not the cat is big, too. -/
theorem extract_headed_bigBlackCat : ∃ registry extraction,
    Registry.build nounQualities = .ok registry ∧
      Extractor.extract ⟨registry, { validateBoundaries := false }, .empty⟩ bigBlackCat =
        .ok extraction ∧
      extraction.complex.map (fun phrase => (phrase.text, phrase.head)) =
        [("black cat", some 1), ("big black cat", some 1)] ∧
      (∀ phrase ∈ extraction.complex,
        Extractor.BoundWithHead ⟨registry, { validateBoundaries := false }, .empty⟩ bigBlackCat
          extraction.simple phrase) ∧
      ∀ leaf ∈ extraction.simple, ∃ referenced, registry.byName? leaf.pattern = some referenced ∧
        ∀ number pattern,
          (Extractor.attempt ⟨registry, { validateBoundaries := false }, .empty⟩ bigBlackCat
            extraction.simple number pattern).headMatches referenced leaf := by
  obtain ⟨extraction, ended, heads⟩ : ∃ extraction,
      Extractor.extract ⟨.assemble nounQualities [0, 1], { validateBoundaries := false }, .empty⟩
          bigBlackCat = .ok extraction ∧
        extraction.complex.map (fun phrase => (phrase.text, phrase.head)) =
          [("black cat", some 1), ("big black cat", some 1)] := ⟨_, rfl, rfl⟩
  exact ⟨_, extraction, build_nounQualities, ended, heads, extract_headed build_nounQualities ended⟩

end PhraseGrammar
