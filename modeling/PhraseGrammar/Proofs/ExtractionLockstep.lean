import PhraseGrammar.Proofs.BoundaryReduction
import PhraseGrammar.Proofs.CompositeLockstep
import PhraseGrammar.Proofs.Extraction

/-! Grammars that are alike find the same phrases, and only the heads may depend on the roles. -/

namespace PhraseGrammar

open Search

variable {settled : String → Prop} {pattern other : Pattern}

/-- The slots around one of them are filled in the same order in patterns that are alike. -/
theorem Pattern.Alike.route (alike : pattern.Alike other) (anchor : Nat) :
    List.Forall₂ Stop.Alike (pattern.route anchor) (other.route anchor) := by
  have numbered := forall₂_zipIdx alike.components 0
  have stops (side : Side) (slot counterpart : Component × Nat)
      (both : slot.1.Alike counterpart.1 ∧ slot.2 = counterpart.2) :
      (pattern.stop side slot).Alike (other.stop side counterpart) := by
    obtain ⟨component, index⟩ := both
    exact ⟨rfl, index, component, by simp only [Pattern.stop, index, alike.length]⟩
  exact List.rel_append
    (List.rel_map (stops .left) (List.rel_reverse (List.forall₂_take anchor numbered)))
    (List.rel_map (stops .right) (List.forall₂_drop (anchor + 1) numbered))

/-- Whether two phrases are the same, but for their heads unless their pattern is settled. -/
def Phrase.AlikeIfSettled (settled : String → Prop) (phrase other : Phrase) : Prop :=
  phrase.AlikeButHead (settled phrase.pattern) other

/-- Whether two extractions are the same but for heads of phrases of phrases. -/
structure Extraction.AlikeButHeads (settled : String → Prop) (extraction other : Extraction) :
    Prop where
  /-- The phrases of words are the same. -/
  simple : extraction.simple = other.simple
  /-- The phrases of phrases are the same, and so are their heads if their patterns are settled. -/
  complex : List.Forall₂ (Phrase.AlikeIfSettled settled) extraction.complex other.complex

/-- Extractions that are the same but for heads are the same if all the patterns are settled. -/
theorem Extraction.AlikeButHeads.eq {extraction other : Extraction}
    (alike : extraction.AlikeButHeads settled other)
    (all : ∀ phrase ∈ extraction.complex, settled phrase.pattern) : extraction = other := by
  have same : List.Forall₂ Eq extraction.complex other.complex := by
    refine ((List.forall₂_and_left _ _).mpr ⟨all, alike.complex⟩).imp ?_
    rintro phrase _ ⟨isSettled, head, rfl, agree⟩
    rw [agree isSettled]
  rw [List.forall₂_eq_eq_eq] at same
  cases extraction
  cases other
  rw [Extraction.mk.injEq]
  exact ⟨alike.simple, same⟩

/-- Whether a pattern has a slot with the role of the head at an index. -/
def Pattern.isHeadAt (pattern : Pattern) (index : Nat) : Bool :=
  (pattern.component? index).any Component.isHead

/-- A slot has the role of the head exactly if its condition says so. -/
theorem Pattern.isHeadAt_of_model {slot : ModelSlot} {index : Nat}
    (stands : pattern.component? index = some (.model slot)) :
    pattern.isHeadAt index = slot.condition.isHead := by
  rw [isHeadAt, stands]
  rfl

/-- Whether two patterns have their head filled by the same slot, whichever slot the base fills. -/
def Pattern.HeadsAlike (pattern other : Pattern) : Prop :=
  ∀ name anchor, pattern.modelSlotIndex? name = some anchor →
    pattern.isHeadAt anchor = other.isHeadAt anchor ∧
      (pattern.isHeadAt anchor ∨
        firstHead? (pattern.route anchor) = firstHead? (other.route anchor))

/-- Whether two patterns are alike, and have their head filled by one slot if they are settled. -/
structure Pattern.AlikeWithHeads (settled : String → Prop) (pattern other : Pattern) : Prop
    extends pattern.Alike other where
  /-- The same slot fills the head of a settled pattern. -/
  heads : settled pattern.name → pattern.HeadsAlike other

/-- The patterns of words of grammars that are alike correspond one by one. -/
theorem Registry.Alike.leafPatterns {registry twin : Registry} (alike : registry.Alike twin) :
    List.Forall₂ Pattern.Alike registry.leafPatterns twin.leafPatterns :=
  List.rel_filter (fun _ _ alike => iff_of_eq (by simp only [alike.namedAlike.isLeaf]))
    alike.patterns

namespace Extractor

variable {registry twin : Registry} {options : MatchOptions} {stopWords : StopWords}
  {sentence : Sentence} {leaves : List Phrase} {base : Phrase} {number : Nat}

/-- The head of a base counts if the slot has its role, and without a head slot there is none. -/
theorem headChecked_of_baseStatus? {slot : ModelSlot} {status : MatchStatus}
    (passes : baseStatus? pattern slot base = some status) :
    status.headChecked = (pattern.headIndex?.isNone || slot.condition.isHead) := by
  unfold baseStatus? at passes
  dsimp only at passes
  split at passes
  · cases passes
  · split at passes
    · cases passes
      cases pattern.headIndex? <;> cases slot.condition.isHead <;> rfl
    · cases passes

/-- A base passes for slots that are alike, or for neither. -/
theorem baseStatus?_alike {slot counterpart : ModelSlot} (slots : slot.Alike counterpart) :
    baseStatus? pattern slot base = none ↔ baseStatus? other counterpart base = none := by
  rw [baseStatus?_eq_none_iff, baseStatus?_eq_none_iff, slots.condition.matchesAttributes,
    slots.isEmpty]

/-- What lies around each place is the same for grammars that are alike. -/
theorem surroundings_alike (alike : registry.Alike twin) :
    surroundings ⟨registry, options, stopWords⟩ sentence =
      surroundings ⟨twin, options, stopWords⟩ sentence := by
  have admitted : admits ⟨registry, options, stopWords⟩ = admits ⟨twin, options, stopWords⟩ := by
    funext token
    rw [admits, admits, alike.isUsable]
    rfl
  rw [surroundings, surroundings, admitted]

/-- The pass for phrases of words is the same search in grammars that are alike. -/
theorem leafPass_alike (alike : registry.Alike twin) :
    leafPass ⟨registry, options, stopWords⟩ sentence =
      leafPass ⟨twin, options, stopWords⟩ sentence := by
  have found (around : Surroundings) (token : Token) (position : Nat) :
      gather (around.leafCandidates token position) registry.leafPatterns =
        gather (around.leafCandidates token position) twin.leafPatterns :=
    gather_congr (alike.leafPatterns.imp fun _ _ both =>
      Surroundings.leafCandidates_alike both token position)
  simp only [leafPass, surroundings_alike alike, alike.isHeadCandidate, found]

/-- Every phrase of words has a head that meets its pattern, as the search asks for it. -/
theorem headsMatch_of_isLeaf {extractor : Extractor}
    (isLeaf : ∀ leaf ∈ leaves, extractor.IsLeaf sentence leaf) (side : Side) (span : Span) :
    (extractor.attempt sentence leaves number pattern).HeadsMatch
      ((LeafIndex.ofList leaves).adjacent side span) := by
  rintro ⟨leaf, place⟩ member referenced found
  have listed := (LeafIndex.mem_adjacent_ofList.mp member).1
  exact (isLeaf leaf (List.mem_of_getElem? listed)).headMatches rfl found

/-- A base starts out abreast in patterns that are alike. -/
theorem abreast_seed {extractor twin : Extractor} {anchor : Nat} {slot counterpart : ModelSlot}
    {status resumed : MatchStatus} {same : Prop} (alike : pattern.Alike other)
    (heads : same → pattern.HeadsAlike other)
    (faithful : base.Faithful extractor sentence) (faithfulToo : base.Faithful twin sentence)
    (index : pattern.modelSlotIndex? base.pattern = some anchor)
    (stands : pattern.component? anchor = some (.model slot))
    (standsToo : other.component? anchor = some (.model counterpart))
    (passes : baseStatus? pattern slot base = some status)
    (passesToo : baseStatus? other counterpart base = some resumed) :
    Abreast same pattern.length (pattern.route anchor) (other.route anchor)
      (seed pattern slot base) (seed other counterpart base) status resumed := by
  have inside := (Pattern.model_of_modelSlotIndex? index).1
  have awaits := (underway_seed inside stands faithful passes).awaits
  have awaitsToo := (underway_seed (alike.length ▸ inside) standsToo faithfulToo passesToo).awaits
  rw [← alike.length] at awaitsToo
  -- Where heads are to be the same, the base gives the head in both patterns or in neither.
  have both (holds : same) : slot.condition.isHead = counterpart.condition.isHead ∧
      (slot.condition.isHead = true ∨
        firstHead? (pattern.route anchor) = firstHead? (other.route anchor)) := by
    have agree := heads holds base.pattern anchor index
    rw [Pattern.isHeadAt_of_model stands, Pattern.isHeadAt_of_model standsToo] at agree
    exact agree
  refine ⟨⟨_, by rw [seed, seed, alike.name], fun holds => ?_⟩, awaits, awaitsToo,
    fun holds => ?_⟩
  · rw [seed, (both holds).1]
  · obtain ⟨role, first⟩ := both holds
    rw [headChecked_of_baseStatus? passes, headChecked_of_baseStatus? passesToo, alike.headIndex?,
      role]
    refine ⟨rfl, ?_⟩
    rcases first with isHead | first
    · exact .inl (by rw [← role, isHead, Bool.or_true])
    · exact .inr first

section Leaves

variable (alike : registry.Alike twin)
  (isLeaf : ∀ leaf ∈ leaves, IsLeaf ⟨registry, options, stopWords⟩ sentence leaf)
  (isLeafToo : ∀ leaf ∈ leaves, IsLeaf ⟨twin, options, stopWords⟩ sentence leaf)
include alike isLeaf isLeafToo

/-- A base is grown into patterns that are alike in lockstep. -/
theorem compositeCandidates_alike {same : Prop} (patterns : pattern.Alike other)
    (heads : same → pattern.HeadsAlike other) (isBase : leaves[number]? = some base) :
    Lockstep (List.Forall₂ (Phrase.AlikeButHead same))
      (compositeCandidates registry (surroundings ⟨registry, options, stopWords⟩ sentence)
        (.ofList leaves) base number pattern)
      (compositeCandidates twin (surroundings ⟨twin, options, stopWords⟩ sentence)
        (.ofList leaves) base number other) := by
  have listed := List.mem_of_getElem? isBase
  have attempts : (attempt ⟨registry, options, stopWords⟩ sentence leaves number pattern).Alike
      (attempt ⟨twin, options, stopWords⟩ sentence leaves number other) :=
    ⟨surroundings_alike alike, rfl, rfl, patterns.length, alike.byName?,
      headsMatch_of_isLeaf isLeaf, headsMatch_of_isLeaf isLeafToo⟩
  unfold compositeCandidates
  rw [← patterns.modelSlotIndex? base.pattern]
  cases index : pattern.modelSlotIndex? base.pattern with
  | none => exact .ofPure .nil
  | some anchor =>
    obtain ⟨inside, slot, stands, _⟩ := Pattern.model_of_modelSlotIndex? index
    obtain ⟨counterpart, standsToo, slots⟩ := patterns.exists_model stands
    simp only [stands, standsToo, Option.bind_some, Component.model?]
    -- The base passes for both slots or for neither.
    cases passes : baseStatus? pattern slot base with
    | none =>
      rw [(baseStatus?_alike slots).mp passes]
      exact .ofPure .nil
    | some status =>
      cases passesToo : baseStatus? other counterpart base with
      | none =>
        rw [(baseStatus?_alike slots).mpr passesToo] at passes
        cases passes
      | some resumed =>
        have abreast := abreast_seed patterns heads (isLeaf base listed).faithful
          (isLeafToo base listed).faithful index stands standsToo passes passesToo
        refine .seq fun _ => ?_
        refine (Attempt.walk_lockstep attempts (patterns.route anchor) _ _ _ _ 1 ∅ abreast).bind
          fun findings findingsToo found => ?_
        exact .ofPure found.found

/-- What a base is grown into has the same heads in both grammars if the pattern is settled. -/
theorem compositeCandidates_lockstep (patterns : pattern.AlikeWithHeads settled other)
    (isBase : leaves[number]? = some base) :
    Lockstep (List.Forall₂ (Phrase.AlikeIfSettled settled))
      (compositeCandidates registry (surroundings ⟨registry, options, stopWords⟩ sentence)
        (.ofList leaves) base number pattern)
      (compositeCandidates twin (surroundings ⟨twin, options, stopWords⟩ sentence)
        (.ofList leaves) base number other) := by
  refine (compositeCandidates_alike alike isLeaf isLeafToo patterns.toAlike patterns.heads
    isBase).yields.imp fun found others ⟨both, ended⟩ => ?_
  -- Every phrase that is found is one of this pattern.
  have named := (compositeCandidates_reading isLeaf isBase ended).1
  refine ((List.forall₂_and_left _ _).mpr ⟨named, both⟩).imp fun phrase counterpart both => ?_
  rw [Phrase.AlikeIfSettled, both.1.2.1]
  exact both.2

/-- The passes for phrases of phrases are in lockstep, and find the same but for the heads. -/
theorem compositePass_lockstep
    (patterns : List.Forall₂ (Pattern.AlikeWithHeads settled) registry.patterns twin.patterns) :
    Lockstep (List.Forall₂ (Phrase.AlikeIfSettled settled))
      (compositePass ⟨registry, options, stopWords⟩ sentence leaves)
      (compositePass ⟨twin, options, stopWords⟩ sentence leaves) := by
  have composite : List.Forall₂ (Pattern.AlikeWithHeads settled) registry.compositePatterns
      twin.compositePatterns :=
    List.rel_filter (fun _ _ alike => iff_of_eq (by simp only [alike.namedAlike.isLeaf])) patterns
  unfold compositePass
  refine (Lockstep.gather (List.forall₂_same.mpr fun next member => Lockstep.firstFound ?_)).bind
    fun found others alike => .ofPure
      (Phrase.rel_dropEchoes (fun _ _ both => congrArg TokenRow.text both.row) alike)
  exact composite.imp fun pattern other both =>
    compositeCandidates_lockstep alike isLeaf isLeafToo both
      (List.mem_zipIdx_iff_getElem?.mp member)

end Leaves

/-- Both passes together are in lockstep. -/
theorem search_lockstep (alike : registry.Alike twin) (sound : registry.Sound)
    (soundToo : twin.Sound)
    (patterns : List.Forall₂ (Pattern.AlikeWithHeads settled) registry.patterns twin.patterns) :
    Lockstep (Extraction.AlikeButHeads settled)
      (search ⟨registry, options, stopWords⟩ sentence)
      (search ⟨twin, options, stopWords⟩ sentence) := by
  have leaves : leafPass ⟨registry, options, stopWords⟩ sentence =
      leafPass ⟨twin, options, stopWords⟩ sentence := leafPass_alike alike
  unfold search
  rw [← leaves]
  refine (Lockstep.refl _).yields.bind fun simple _ ⟨same, ended⟩ => ?_
  subst same
  have isLeaf := isLeaf_of_leafPass sound ended
  have isLeafToo := isLeaf_of_leafPass soundToo (leaves ▸ ended)
  refine (compositePass_lockstep alike isLeaf isLeafToo patterns).bind
    fun complex complexToo found => .ofPure ⟨rfl, ?_⟩
  unfold reduce
  dsimp only
  split
  · exact Phrase.rel_reduceBoundaries (fun _ _ both => both.span) found
  · exact found

end Extractor

/-- Searches in lockstep under the same limits are cut off for one cause, or end alike. -/
theorem Extractor.extract_of_lockstep {related : Extraction → Extraction → Prop}
    {extractor other : Extractor} {sentence twin : Sentence}
    (both : Lockstep related (extractor.search sentence) (other.search twin))
    (limits : Budget.ofOptions extractor.options = .ofOptions other.options) :
    (∃ abort, extractor.extract sentence = .error abort ∧ other.extract twin = .error abort) ∨
    ∃ extraction counterpart, extractor.extract sentence = .ok extraction ∧
      other.extract twin = .ok counterpart ∧ related extraction counterpart := by
  have ended := both (.ofOptions extractor.options)
  unfold extract EStateM.run
  rw [← limits]
  generalize extractor.search sentence (.ofOptions extractor.options) = one at ended ⊢
  generalize other.search twin (.ofOptions extractor.options) = two at ended ⊢
  cases ended with
  | ok holds => exact .inr ⟨_, _, rfl, rfl, holds⟩
  | error => exact .inl ⟨_, rfl, rfl⟩

/-- Extractions are cut off for one cause, or find the same but for the heads. -/
theorem extract_lockstep {registry twin : Registry} (alike : registry.Alike twin)
    (sound : registry.Sound) (soundToo : twin.Sound)
    (patterns : List.Forall₂ (Pattern.AlikeWithHeads settled) registry.patterns twin.patterns)
    (options : MatchOptions) (stopWords : StopWords) (sentence : Sentence) :
    (∃ abort, Extractor.extract ⟨registry, options, stopWords⟩ sentence = .error abort ∧
      Extractor.extract ⟨twin, options, stopWords⟩ sentence = .error abort) ∨
    ∃ extraction counterpart,
      Extractor.extract ⟨registry, options, stopWords⟩ sentence = .ok extraction ∧
      Extractor.extract ⟨twin, options, stopWords⟩ sentence = .ok counterpart ∧
      extraction.AlikeButHeads settled counterpart :=
  Extractor.extract_of_lockstep (Extractor.search_lockstep alike sound soundToo patterns) rfl

end PhraseGrammar
