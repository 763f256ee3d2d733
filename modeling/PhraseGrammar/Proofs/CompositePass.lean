import PhraseGrammar.Proofs.CompositeWalk
import PhraseGrammar.Proofs.LeafPass

/-! The pass for phrases of phrases finds the spans where a pattern can be bound, and no others. -/

namespace PhraseGrammar

variable {extractor : Extractor} {sentence : Sentence} {leaves : List Phrase} {pattern : Pattern}
  {base : Phrase} {anchor : Nat}

/-- The slot that a pattern has for phrases of some pattern is its first one for them. -/
theorem Pattern.model_of_modelSlotIndex? {name : String}
    (found : pattern.modelSlotIndex? name = some anchor) :
    anchor < pattern.length ∧
      ∃ slot, pattern.component? anchor = some (.model slot) ∧ slot.pattern = name := by
  obtain ⟨inside, refers, _⟩ := List.findIdx?_eq_some_iff_getElem.mp found
  refine ⟨inside, ?_⟩
  have stands : pattern.component? anchor = some pattern.components[anchor] :=
    List.getElem?_eq_getElem inside
  -- A slot for a word refers to no pattern at all.
  cases component : pattern.components[anchor] with
  | word slot => simp [component, Component.references] at refers
  | model slot =>
    exact ⟨slot, by rw [stands, component], by simpa [component, Component.references] using refers⟩

namespace Extractor

/-- A phrase of words passes as the base if some reading has the attributes and no more is asked. -/
theorem baseStatus?_eq_none_iff {slot : ModelSlot} :
    baseStatus? pattern slot base = none ↔
      ¬((∃ token ∈ base.tokens, ∃ reading ∈ token.readings,
          slot.condition.matchesAttributes reading) ∧ slot.condition.additional.isEmpty) := by
  -- A first reading with the attributes is found exactly if there is any.
  have tagged : base.row.findSome? slot.condition.acceptedReading? = none ↔
      ¬∃ token ∈ base.tokens, ∃ reading ∈ token.readings,
        slot.condition.matchesAttributes reading := by
    rw [← TokenRow.findSome?_toList, List.findSome?_eq_none_iff]
    simp [Condition.acceptedReading?, Phrase.tokens]
  unfold baseStatus?
  dsimp only
  cases accepted : base.row.findSome? slot.condition.acceptedReading? with
  | none => exact iff_of_true rfl fun both => tagged.mp accepted both.1
  | some reading =>
    have tagged := not_not.mp (mt tagged.mpr (by rw [accepted]; exact Option.some_ne_none reading))
    -- With a reading at hand it is the demands that decide.
    cases none : slot.condition.additional.isEmpty <;> simp [tagged]

/-- A phrase of words that passes as the base starts with all other slots still to be filled. -/
theorem underway_seed {slot : ModelSlot} {status : MatchStatus} (inside : anchor < pattern.length)
    (stands : pattern.component? anchor = some (.model slot))
    (faithful : base.Faithful extractor sentence)
    (passes : baseStatus? pattern slot base = some status) :
    Underway extractor sentence pattern base.span (pattern.route anchor) (seed pattern slot base)
      status := by
  -- The head of the base, if it is taken over, lies in the base.
  have head_inside : ∀ head, (if slot.condition.isHead then base.head else none) = some head →
      base.span.first ≤ head ∧ head ≤ base.span.last := by
    intro head same
    split at same
    · exact faithful.head_inside head same
    · cases same
  have consumed : pattern.length ≤ 1 + (pattern.route anchor).length := by
    have length := Pattern.length_route inside
    omega
  unfold baseStatus? at passes
  dsimp only at passes
  split at passes
  · cases passes
  · rename_i reading accepted
    split at passes
    · -- Only here is there a status: a reading has been found, and no more is demanded.
      rename_i none
      cases passes
      have lexicon := Additional.matchesReading_of_isEmpty none reading
      refine ⟨faithful.relabel pattern.name head_inside, ⟨Nat.le_refl _, Nat.le_refl _⟩, lexicon,
        ?_, ?_, consumed⟩
      · -- Without a head slot the head counts as matched, and otherwise it is recorded as such.
        cases slot.condition.isHead <;> cases pattern.headIndex? <;>
          simp [MatchStatus.start, MatchStatus.headless, MatchStatus.recordHead]
      · cases role : slot.condition.isHead with
        | true =>
          left
          cases pattern.headIndex? <;>
            simp [MatchStatus.start, MatchStatus.headless, MatchStatus.recordHead]
        | false =>
          cases index : pattern.headIndex? with
          | none => exact .inl rfl
          | some head =>
            -- The slot of the base is not the head slot, so the route passes that one.
            obtain ⟨within, isHead, _⟩ := List.findIdx?_eq_some_iff_getElem.mp index
            have listed : (pattern.components[head], head) ∈ pattern.components.zipIdx :=
              List.mk_mem_zipIdx_iff_getElem?.mpr (List.getElem?_eq_getElem within)
            have apart : head ≠ anchor := by
              rintro rfl
              have same : some pattern.components[head] = some (.model slot) :=
                (List.getElem?_eq_getElem within).symm.trans stands
              have roles := congrArg Component.isHead (Option.some.inj same)
              exact absurd (isHead.symm.trans (roles.trans role)) (by decide)
            obtain ⟨stop, onRoute, same⟩ := Pattern.exists_mem_route inside listed apart
            exact .inr ⟨stop, onRoute, by rw [same]; exact isHead⟩
    · cases passes

/-- Growing a base finds nothing, or it finds what its route leads to from the base. -/
theorem compositeCandidates_explored {number : Nat} {found : List Phrase}
    (isLeaf : ∀ leaf ∈ leaves, extractor.IsLeaf sentence leaf)
    (isBase : leaves[number]? = some base)
    (ended : (compositeCandidates extractor.registry (extractor.surroundings sentence)
      (.ofList leaves) base number pattern).Yields found) :
    (found = [] ∧ ∀ anchor, ¬Admissible base pattern anchor) ∨
      ∃ anchor slot status, Admissible base pattern anchor ∧ anchor < pattern.length ∧
        pattern.component? anchor = some (.model slot) ∧
        baseStatus? pattern slot base = some status ∧
        Underway extractor sentence pattern base.span (pattern.route anchor)
          (seed pattern slot base) status ∧
        (∀ phrase ∈ found, ∃ runs ended,
          Along (Taken extractor sentence leaves) (pattern.route anchor) runs
            (seed pattern slot base, status) (phrase, ended)) ∧
        Covers extractor sentence leaves found (pattern.route anchor) base.span := by
  have faithful := (isLeaf base (List.mem_of_getElem? isBase)).faithful
  unfold compositeCandidates at ended
  cases index : pattern.modelSlotIndex? base.pattern with
  | none =>
    rw [index] at ended
    -- The pattern has no slot for the base.
    refine .inl ⟨ended.of_pure, fun anchor admissible => ?_⟩
    rw [admissible.1] at index
    cases index
  | some anchor =>
    obtain ⟨inside, slot, stands, _⟩ := Pattern.model_of_modelSlotIndex? index
    simp only [index, stands, Option.bind_some, Component.model?] at ended
    cases passes : baseStatus? pattern slot base with
    | none =>
      rw [passes] at ended
      -- The base does not pass for the slot that there is for it.
      refine .inl ⟨ended.of_pure, ?_⟩
      rintro other ⟨same, otherSlot, there, tagged, asksNoMore⟩
      cases index.symm.trans same
      cases stands.symm.trans there
      exact baseStatus?_eq_none_iff.mp passes ⟨tagged, asksNoMore⟩
    | some status =>
      rw [passes] at ended
      obtain ⟨_, _, ended⟩ := ended.of_bind
      obtain ⟨findings, walked, ended⟩ := ended.of_bind
      have underway := underway_seed inside stands faithful passes
      -- At first no trial has been made, and nothing is known.
      have settled : Settled extractor sentence leaves [] ∅ (pattern.route anchor) :=
        settled_empty _
      obtain ⟨explored, covers⟩ := walk_explores isLeaf isBase (pattern.pairwise_route anchor) _ _ _
        _ _ _ underway settled walked
      have admissible : Admissible base pattern anchor := by
        refine ⟨index, slot, stands, ?_⟩
        by_contra refused
        rw [baseStatus?_eq_none_iff.mpr refused] at passes
        cases passes
      rw [ended.of_pure]
      exact .inr ⟨anchor, slot, status, admissible, inside, stands, passes, underway,
        explored.sound, covers⟩

/-- A base is grown into a pattern over the spans over which it can be bound, and over no others. -/
theorem compositeCandidates_reading {number : Nat} {found : List Phrase}
    (isLeaf : ∀ leaf ∈ leaves, extractor.IsLeaf sentence leaf)
    (isBase : leaves[number]? = some base)
    (ended : (compositeCandidates extractor.registry (extractor.surroundings sentence)
      (.ofList leaves) base number pattern).Yields found) :
    (∀ phrase ∈ found, phrase.Faithful extractor sentence ∧ phrase.pattern = pattern.name ∧
        extractor.Binds sentence leaves base pattern phrase.span) ∧
      ∀ span, extractor.Binds sentence leaves base pattern span →
        ∃ phrase ∈ found, phrase.span = span := by
  rcases compositeCandidates_explored isLeaf isBase ended with
    ⟨rfl, refused⟩ | ⟨anchor, slot, status, admissible, inside, _, _, underway, sound, covers⟩
  · refine ⟨by simp, ?_⟩
    rintro span ⟨anchor, runs, admissible, _⟩
    exact absurd admissible (refused anchor)
  · constructor
    · intro phrase member
      -- What was taken on the way is a way to bind the pattern.
      obtain ⟨runs, ended, along⟩ := sound phrase member
      obtain ⟨grown, faithful, named⟩ := along_taken underway.faithful along
      obtain ⟨runs, binding⟩ := (Pattern.grown_route_iff inside).mp ⟨runs, grown⟩
      exact ⟨faithful, named, anchor, runs, admissible, binding⟩
    · rintro span ⟨other, runs, ⟨same, _⟩, binding⟩
      -- There is one slot only that the base can fill.
      cases admissible.1.symm.trans same
      -- A way to bind the pattern is one along the route, and the search covers them all.
      obtain ⟨runs, grown⟩ := (Pattern.grown_route_iff inside).mpr ⟨runs, binding⟩
      exact covers runs span grown

/-- Whether phrases are those of the first pattern over some span of which a base can be bound. -/
def CompositeReading (extractor : Extractor) (sentence : Sentence) (leaves : List Phrase)
    (base : Phrase) (block : List Phrase) : Prop :=
  (block = [] ∧ ∀ pattern ∈ extractor.registry.compositePatterns, ∀ span,
      ¬extractor.Binds sentence leaves base pattern span) ∨
    ∃ before pattern after, extractor.registry.compositePatterns = before ++ pattern :: after ∧
      (∀ other ∈ before, ∀ span, ¬extractor.Binds sentence leaves base other span) ∧
      block ≠ [] ∧
      -- Every phrase comes from a binding, and every binding gives a phrase.
      (∀ phrase ∈ block, phrase.Faithful extractor sentence ∧ phrase.pattern = pattern.name ∧
        extractor.Binds sentence leaves base pattern phrase.span) ∧
      ∀ span, extractor.Binds sentence leaves base pattern span →
        ∃ phrase ∈ block, phrase.span = span

/-- The first pattern that finds any phrase is the first one that can be bound at all. -/
theorem firstFound_reading {number : Nat} {block : List Phrase}
    (isLeaf : ∀ leaf ∈ leaves, extractor.IsLeaf sentence leaf)
    (isBase : leaves[number]? = some base)
    (ended : (Search.firstFound (compositeCandidates extractor.registry
      (extractor.surroundings sentence) (.ofList leaves) base number)
      extractor.registry.compositePatterns).Yields block) :
    extractor.CompositeReading sentence leaves base block := by
  -- A pattern that can be bound has something to be found.
  have unbound : ∀ pattern, (compositeCandidates extractor.registry
      (extractor.surroundings sentence) (.ofList leaves) base number pattern).Yields [] →
      ∀ span, ¬extractor.Binds sentence leaves base pattern span := by
    intro pattern none span binds
    obtain ⟨phrase, member, _⟩ := (compositeCandidates_reading isLeaf isBase none).2 span binds
    cases member
  rcases ended.of_firstFound with ⟨rfl, none⟩ | ⟨before, pattern, after, split, none, some, found⟩
  · exact .inl ⟨rfl, fun pattern member => unbound pattern (none pattern member)⟩
  · obtain ⟨sound, complete⟩ := compositeCandidates_reading isLeaf isBase some
    have earlier : ∀ other ∈ before, ∀ span, ¬extractor.Binds sentence leaves base other span :=
      fun other member => unbound other (none other member)
    exact .inr ⟨before, pattern, after, split, earlier, found, sound, complete⟩

/-- The pass finds what its reading says for each phrase of words in turn, and drops echoes. -/
theorem compositePass_yields {out : List Phrase}
    (isLeaf : ∀ leaf ∈ leaves, extractor.IsLeaf sentence leaf)
    (ended : (extractor.compositePass sentence leaves).Yields out) :
    ∃ blocks, List.Forall₂ (extractor.CompositeReading sentence leaves) leaves blocks ∧
      out = Phrase.dropEchoes blocks.flatten := by
  obtain ⟨candidates, gathered, ended⟩ := ended.of_bind
  obtain ⟨blocks, matched, rfl⟩ := gathered.of_gather
  refine ⟨blocks, ?_, ended.of_pure⟩
  -- The phrases of words are numbered in order, so that each is found under its number.
  have numbered := (List.forall₂_and_left _ _).mpr ⟨fun _ member => member, matched⟩
  have readings := numbered.imp fun next block ⟨listed, found⟩ =>
    firstFound_reading isLeaf (List.mem_zipIdx_iff_getElem?.mp listed) found
  rwa [← List.forall₂_map_left_iff, List.zipIdx_map_fst] at readings

/-- What the other pass finds are phrases of words as this one relies on them. -/
theorem isLeaf_of_leafPass (sound : extractor.registry.Sound)
    (ended : (extractor.leafPass sentence).Yields leaves) :
    ∀ leaf ∈ leaves, extractor.IsLeaf sentence leaf := by
  intro leaf member
  obtain ⟨pattern, isLeaf, named, head, slot, token, headed, isHead, stands, fits⟩ :=
    headed_of_leafPass sound ended member
  -- The pattern is looked up again by its name, which no other one has.
  have registered := (List.mem_filter.mp isLeaf).1
  exact ⟨(leafPass_yields sound ended).2 leaf member, pattern, head, slot, token,
    by rw [named]; exact sound.byName?_name pattern registered, headed, isHead, stands, fits⟩

end Extractor

/-- The pass for phrases of phrases computes its reading from what the pass for words has found. -/
theorem compositePass_reading {patterns : List Pattern} {limit : Nat} {registry : Registry}
    (built : Registry.build patterns limit = .ok registry) {options : MatchOptions}
    {stopWords : StopWords} {sentence : Sentence} {start between before after : Budget}
    {leaves out : List Phrase}
    (found : Extractor.leafPass ⟨registry, options, stopWords⟩ sentence start =
      .ok leaves between)
    (ended : Extractor.compositePass ⟨registry, options, stopWords⟩ sentence leaves before =
      .ok out after) :
    ∃ blocks,
      List.Forall₂ (Extractor.CompositeReading ⟨registry, options, stopWords⟩ sentence leaves)
        leaves blocks ∧
      out.map Phrase.occurrence =
        (blocks.flatten.map Phrase.occurrence).destutter Occurrence.Differs := by
  have sound := Registry.sound_of_build built
  have isLeaf := Extractor.isLeaf_of_leafPass sound ⟨start, between, found⟩
  obtain ⟨blocks, readings, rfl⟩ := Extractor.compositePass_yields isLeaf ⟨before, after, ended⟩
  exact ⟨blocks, readings, Phrase.map_occurrence_dropEchoes _⟩

/-- Of a black cat the pass finds the whole. -/
theorem compositePass_reading_blackCat : ∃ registry leaves out,
    Registry.build nounPhrases = .ok registry ∧
      (∃ after, Extractor.leafPass ⟨registry, {}, .empty⟩ blackCat (.ofOptions {}) =
        .ok leaves after) ∧
      (∃ after, Extractor.compositePass ⟨registry, {}, .empty⟩ blackCat leaves (.ofOptions {}) =
        .ok out after) ∧
      out.map Phrase.text = ["black cat"] ∧
      ∃ blocks,
        List.Forall₂ (Extractor.CompositeReading ⟨registry, {}, .empty⟩ blackCat leaves)
          leaves blocks ∧
        out.map Phrase.occurrence =
          (blocks.flatten.map Phrase.occurrence).destutter Occurrence.Differs := by
  obtain ⟨leaves, out, _, _, found, ended, texts⟩ : ∃ leaves out between after,
      Extractor.leafPass ⟨.assemble nounPhrases [0, 1], {}, .empty⟩ blackCat (.ofOptions {}) =
        .ok leaves between ∧
      Extractor.compositePass ⟨.assemble nounPhrases [0, 1], {}, .empty⟩ blackCat leaves
        (.ofOptions {}) = .ok out after ∧
      out.map Phrase.text = ["black cat"] := ⟨_, _, _, _, rfl, rfl, rfl⟩
  exact ⟨_, leaves, out, build_nounPhrases, ⟨_, found⟩, ⟨_, ended⟩, texts,
    compositePass_reading build_nounPhrases found ended⟩

end PhraseGrammar
