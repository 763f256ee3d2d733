import PhraseGrammar.Proofs.ExtractionLockstep

/-! Head slots behind the first one of a pattern can only change the heads of phrases of phrases. -/

namespace PhraseGrammar

namespace Condition

/-- The condition as one of a dependent slot if it was one of a head slot. -/
def demoted (condition : Condition) : Condition :=
  { condition with role := if condition.isHead then .dependent else condition.role }

/-- A condition that is not one of a head slot stays as it is. -/
theorem demoted_eq_self {condition : Condition} (dependent : condition.isHead = false) :
    condition.demoted = condition := by
  rw [demoted, dependent]
  rfl

end Condition

namespace Component

/-- The slot as a dependent one if it was a head slot. -/
def demoted : Component → Component
  | .word slot => .word { slot with condition := slot.condition.demoted }
  | .model slot => .model { slot with condition := slot.condition.demoted }

/-- The slots with the first head slot kept, and all later ones made dependent. -/
def keepFirstHead : List Component → List Component
  | [] => []
  | component :: components =>
    component :: if component.isHead then components.map demoted else keepFirstHead components

variable {component : Component} {components : List Component}

/-- A slot that is not a head slot stays as it is. -/
theorem demoted_eq_self (dependent : component.isHead = false) : component.demoted = component := by
  cases component with
  | word slot => rw [demoted, slot.condition.demoted_eq_self dependent]
  | model slot => rw [demoted, slot.condition.demoted_eq_self dependent]

/-- A slot is filled like itself. -/
theorem alike_refl (component : Component) : component.Alike component := by
  cases component with
  | word slot => exact .word ⟨rfl, rfl, rfl, rfl⟩
  | model slot => exact .model ⟨rfl, ⟨rfl, rfl, rfl⟩, rfl⟩

/-- A demoted slot is filled as before. -/
theorem alike_demoted (component : Component) : component.Alike component.demoted := by
  cases component with
  | word slot => exact .word ⟨rfl, rfl, rfl, rfl⟩
  | model slot => exact .model ⟨rfl, ⟨rfl, rfl, rfl⟩, rfl⟩

/-- Every slot is filled as before, whether or not it is demoted. -/
theorem alike_keepFirstHead (components : List Component) :
    List.Forall₂ Alike components (keepFirstHead components) := by
  induction components with
  | nil => exact .nil
  | cons component components rest =>
    refine .cons component.alike_refl ?_
    split
    · rw [List.forall₂_map_right_iff]
      exact List.forall₂_same.mpr fun component _ => component.alike_demoted
    · exact rest

/-- The first head slot stays the first one. -/
theorem findIdx?_keepFirstHead (components : List Component) :
    (keepFirstHead components).findIdx? isHead = components.findIdx? isHead := by
  induction components with
  | nil => rfl
  | cons component components rest =>
    rw [keepFirstHead, List.findIdx?_cons, List.findIdx?_cons]
    split
    · rfl
    · rw [rest]

/-- Slots that follow others keep their first head slot if there is none before them. -/
theorem keepFirstHead_append (before after : List Component) :
    keepFirstHead (before ++ after) = keepFirstHead before ++
      if before.any isHead then after.map demoted else keepFirstHead after := by
  induction before with
  | nil => rfl
  | cons component before rest =>
    rw [List.cons_append, keepFirstHead, keepFirstHead, List.any_cons, List.cons_append]
    -- Everything behind a first head slot is demoted, the slots of both parts alike.
    cases component.isHead with
    | true => simp only [if_true, List.map_append, Bool.true_or]
    | false => simp only [Bool.false_eq_true, if_false, Bool.false_or, rest]

/-- Slots with no two head slots among them stay as they are. -/
theorem keepFirstHead_eq_self (single : components.countP isHead ≤ 1) :
    keepFirstHead components = components := by
  induction components with
  | nil => rfl
  | cons component components rest =>
    rw [keepFirstHead]
    cases role : component.isHead with
    | true =>
      -- The one head slot is found, so that there is none left to demote.
      rw [List.countP_cons_of_pos role] at single
      have none := List.countP_eq_zero.mp (Nat.le_zero.mp (Nat.le_of_succ_le_succ single))
      rw [if_pos rfl, List.map_congr_left fun component member =>
        demoted_eq_self (Bool.eq_false_iff.mpr (none component member)), List.map_id']
    | false =>
      rw [List.countP_cons_of_neg (by simp [role])] at single
      rw [if_neg Bool.false_ne_true, rest single]

/-- With no two head slots up to a slot, the same slot outwards from there is the first of them. -/
theorem exists_keepFirstHead_eq {before behind : List Component}
    (single : (before ++ [component]).countP isHead ≤ 1) :
    ∃ rest, keepFirstHead (before ++ component :: behind) = before ++ component :: rest ∧
      (component.isHead ∨ (before.reverse ++ behind).findIdx? isHead =
        (before.reverse ++ rest).findIdx? isHead) := by
  -- The slots up to this one stay as they are, and only those behind it may change.
  refine ⟨if (before ++ [component]).any isHead then behind.map demoted else keepFirstHead behind,
    ?_, ?_⟩
  · rw [List.append_cons, keepFirstHead_append, keepFirstHead_eq_self single, List.append_assoc,
      List.singleton_append]
  · cases role : component.isHead with
    | true => exact .inl rfl
    | false =>
      right
      rw [List.findIdx?_append, List.findIdx?_append, List.any_append, List.any_cons, role]
      cases earlier : before.any isHead with
      | true =>
        -- A head slot before this one comes first in both.
        obtain ⟨place, found⟩ : ∃ place, before.reverse.findIdx? isHead = some place := by
          rw [← Option.isSome_iff_exists, List.findIdx?_isSome, List.any_reverse, earlier]
        rw [found]
        rfl
      | false =>
        -- The first head slot of all lies behind this one, and stays the first one.
        rw [if_neg (by simp), findIdx?_keepFirstHead]

end Component

namespace Pattern

variable {pattern : Pattern}

/-- The pattern without the head role of the slots behind its first head slot. -/
def withOneHead (pattern : Pattern) : Pattern :=
  { pattern with components := Component.keepFirstHead pattern.components }

/-- Whether no two head slots stand at or before a slot that the base can fill. -/
def HeadSettled (pattern : Pattern) : Prop :=
  -- The slots are filled from the base outwards, to the left first, so that only these matter.
  ∀ name ∈ pattern.references, ∀ anchor ∈ pattern.modelSlotIndex? name,
    (pattern.components.take (anchor + 1)).countP Component.isHead ≤ 1

instance (pattern : Pattern) : Decidable pattern.HeadSettled :=
  inferInstanceAs (Decidable (∀ name ∈ pattern.references,
    ∀ anchor ∈ pattern.modelSlotIndex? name, _ ≤ 1))

/-- The slots of a pattern are filled as before with only one head slot kept. -/
theorem alike_withOneHead (pattern : Pattern) : pattern.Alike pattern.withOneHead where
  name := rfl
  components := Component.alike_keepFirstHead pattern.components
  headIndex? := (Component.findIdx?_keepFirstHead pattern.components).symm

/-- The slots of a pattern are those before the one at an index, that one, and those behind it. -/
theorem components_split {component : Component} {index : Nat}
    (stands : pattern.component? index = some component) :
    pattern.components =
      pattern.components.take index ++ component :: pattern.components.drop (index + 1) := by
  obtain ⟨inside, same⟩ := List.getElem?_eq_some_iff.mp stands
  rw [← same, ← List.drop_eq_getElem_cons inside, List.take_append_drop]

/-- The first head slot of a route is the first one among its slots. -/
theorem firstHead?_route (pattern : Pattern) (anchor : Nat) :
    firstHead? (pattern.route anchor) =
      ((pattern.components.take anchor).reverse ++ pattern.components.drop (anchor + 1)).findIdx?
        Component.isHead := by
  have slots : (pattern.route anchor).map Stop.component =
      (pattern.components.take anchor).reverse ++ pattern.components.drop (anchor + 1) := by
    have kept (side : Side) : Stop.component ∘ pattern.stop side = Prod.fst := rfl
    have route_eq : pattern.route anchor =
        (pattern.components.zipIdx.take anchor).reverse.map (pattern.stop .left) ++
          (pattern.components.zipIdx.drop (anchor + 1)).map (pattern.stop .right) := rfl
    rw [route_eq, List.map_append, List.map_map, List.map_map, kept, kept, List.map_reverse,
      List.map_take, List.map_drop, List.zipIdx_map_fst]
  rw [← slots, List.findIdx?_map]
  rfl

/-- Where the head is settled, the same slot fills it with only one head slot kept. -/
theorem HeadSettled.headsAlike (settled : pattern.HeadSettled) :
    pattern.HeadsAlike pattern.withOneHead := by
  intro name anchor index
  obtain ⟨inside, slot, stands, refers⟩ := model_of_modelSlotIndex? index
  have single := settled name
    (mem_references.mpr ⟨slot, List.mem_of_getElem? stands, refers⟩) anchor index
  rw [List.take_add_one, ← component?, stands, Option.toList_some] at single
  obtain ⟨rest, kept, same⟩ := Component.exists_keepFirstHead_eq single
  rw [← components_split stands] at kept
  have length : (pattern.components.take anchor).length = anchor :=
    List.length_take_of_le (Nat.le_of_lt inside)
  have standsToo : pattern.withOneHead.component? anchor = some (.model slot) := by
    rw [component?, withOneHead, kept, List.getElem?_append_right length.le, length, Nat.sub_self,
      List.getElem?_cons_zero]
  have before : pattern.withOneHead.components.take anchor = pattern.components.take anchor := by
    rw [withOneHead, kept, List.take_left' length]
  have behind : pattern.withOneHead.components.drop (anchor + 1) = rest := by
    rw [withOneHead, kept, ← List.drop_drop, List.drop_left' length]
    rfl
  rw [isHeadAt_of_model stands, isHeadAt_of_model standsToo, firstHead?_route, firstHead?_route,
    before, behind]
  exact ⟨rfl, same⟩

end Pattern

namespace Registry

variable {patterns : List Pattern} {limit : Nat} {registry : Registry}

/-- Whether every registered pattern of a name has its head settled. -/
def HeadSettled (registry : Registry) (name : String) : Prop :=
  ∀ pattern ∈ registry.patterns, pattern.name = name → pattern.HeadSettled

/-- Settled patterns have their head filled by the same slot with only one head slot kept. -/
theorem alikeWithHeads_withOneHead (registry : Registry) :
    List.Forall₂ (Pattern.AlikeWithHeads registry.HeadSettled) registry.patterns
      (registry.patterns.map Pattern.withOneHead) := by
  rw [List.forall₂_map_right_iff]
  exact List.forall₂_same.mpr fun pattern member =>
    ⟨pattern.alike_withOneHead, fun settled => (settled pattern member rfl).headsAlike⟩

/-- A grammar builds as before with only one head slot of each pattern kept. -/
theorem exists_build_withOneHead (built : build patterns limit = .ok registry) :
    ∃ twin, build (patterns.map Pattern.withOneHead) limit = .ok twin ∧ registry.Alike twin ∧
      twin.patterns = registry.patterns.map Pattern.withOneHead := by
  have alike : List.Forall₂ Pattern.Alike patterns (patterns.map Pattern.withOneHead) := by
    rw [List.forall₂_map_right_iff]
    exact List.forall₂_same.mpr fun pattern _ => pattern.alike_withOneHead
  have builtToo := build_congr (alike.imp fun _ _ both => both.namedAlike) limit
  rw [built, Except.map] at builtToo
  refine ⟨_, builtToo, alike_of_build alike built builtToo, ?_⟩
  rw [patterns_of_build built, patterns_of_build builtToo]

end Registry

/-- Without its later head slots a grammar finds the same phrases, and the same heads if settled. -/
theorem extract_withOneHead {patterns : List Pattern} {limit : Nat} {registry : Registry}
    (built : Registry.build patterns limit = .ok registry) :
    ∃ twin, Registry.build (patterns.map Pattern.withOneHead) limit = .ok twin ∧
      ∀ options stopWords sentence,
        ((∃ abort,
            Extractor.extract ⟨registry, options, stopWords⟩ sentence = .error abort ∧
            Extractor.extract ⟨twin, options, stopWords⟩ sentence = .error abort) ∨
          ∃ extraction counterpart,
            Extractor.extract ⟨registry, options, stopWords⟩ sentence = .ok extraction ∧
            Extractor.extract ⟨twin, options, stopWords⟩ sentence = .ok counterpart ∧
            extraction.AlikeButHeads registry.HeadSettled counterpart) ∧
        ((∀ pattern ∈ patterns, pattern.HeadSettled) →
          Extractor.extract ⟨registry, options, stopWords⟩ sentence =
            Extractor.extract ⟨twin, options, stopWords⟩ sentence) := by
  obtain ⟨twin, builtToo, alike, kept⟩ := Registry.exists_build_withOneHead built
  have heads := registry.alikeWithHeads_withOneHead
  rw [← kept] at heads
  refine ⟨twin, builtToo, fun options stopWords sentence => ?_⟩
  have found := extract_lockstep alike (Registry.sound_of_build built)
    (Registry.sound_of_build builtToo) heads options stopWords sentence
  refine ⟨found, fun all => ?_⟩
  rcases found with ⟨abort, ended, endedToo⟩ | ⟨extraction, counterpart, ended, endedToo, same⟩
  · rw [ended, endedToo]
  · -- The pattern of every phrase is settled, as all of them are.
    have settled (name : String) : registry.HeadSettled name := fun pattern member _ =>
      all pattern (Registry.patterns_of_build built ▸ member)
    rw [ended, endedToo, same.eq fun phrase _ => settled phrase.pattern]

/-- Grammars with the names and references of the small one build as it does. -/
theorem build_of_nounPhrases {others : List Pattern}
    (alike : List.Forall₂ Pattern.NamedAlike nounPhrases others) :
    Registry.build others = .ok (.assemble others [0, 1]) := by
  rw [Registry.build_congr alike, build_nounPhrases]
  rfl

/-- A grammar of nouns and described nouns the noun of which is followed by a second head slot. -/
def trailingHead : List Pattern :=
  [⟨"noun", [.word { pos := .noun, condition := .ofRole .head }]⟩,
    ⟨"described noun", [.model { pattern := "noun", condition := .ofRole .head },
      .word { pos := .adjective, condition := .ofRole .head }]⟩]

/-- A sentence of a noun and an adjective. -/
def courtMartial : Sentence where
  document := 1
  id := 2
  tokens := [⟨"court", [⟨.noun, .empty, .ofText "court", .one⟩]⟩,
    ⟨"martial", [⟨.adjective, .empty, .ofText "martial", .one⟩]⟩]

/-- The court is the head of the court martial, whether or not the adjective has the role, too. -/
theorem extract_withOneHead_courtMartial : ∃ registry twin extraction,
    Registry.build trailingHead = .ok registry ∧
      Registry.build (trailingHead.map Pattern.withOneHead) = .ok twin ∧
      trailingHead.map Pattern.withOneHead ≠ trailingHead ∧
      Extractor.extract ⟨registry, { validateBoundaries := false }, .empty⟩ courtMartial =
        .ok extraction ∧
      extraction.complex.map (fun phrase => (phrase.text, phrase.head)) =
        [("court martial", some 0)] ∧
      Extractor.extract ⟨twin, { validateBoundaries := false }, .empty⟩ courtMartial =
        .ok extraction := by
  have built : Registry.build trailingHead = .ok (.assemble trailingHead [0, 1]) :=
    build_of_nounPhrases (.cons ⟨rfl, rfl, rfl⟩ (.cons ⟨rfl, rfl, rfl⟩ .nil))
  have settled : ∀ pattern ∈ trailingHead, pattern.HeadSettled := by decide
  obtain ⟨twin, builtToo, both⟩ := extract_withOneHead built
  obtain ⟨extraction, ended, texts⟩ : ∃ extraction,
      Extractor.extract ⟨.assemble trailingHead [0, 1], { validateBoundaries := false }, .empty⟩
          courtMartial = .ok extraction ∧
        extraction.complex.map (fun phrase => (phrase.text, phrase.head)) =
          [("court martial", some 0)] := ⟨_, rfl, rfl⟩
  exact ⟨_, twin, extraction, built, builtToo, by decide, ended, texts,
    ((both _ _ _).2 settled).symm.trans ended⟩

/-- A grammar of nouns and described nouns the noun of which comes after a first head slot. -/
def leadingHead : List Pattern :=
  [⟨"noun", [.word { pos := .noun, condition := .ofRole .head }]⟩,
    ⟨"described noun", [.word { pos := .adjective, condition := .ofRole .head },
      .model { pattern := "noun", condition := .ofRole .head }]⟩]

/-- The cat is the head of the black cat, as the base is filled first, until it loses the role. -/
theorem extract_heeds_later_head : ∃ registry twin extraction counterpart,
    Registry.build leadingHead = .ok registry ∧
      Registry.build (leadingHead.map Pattern.withOneHead) = .ok twin ∧
      Extractor.extract ⟨registry, { validateBoundaries := false }, .empty⟩ blackCat =
        .ok extraction ∧
      Extractor.extract ⟨twin, { validateBoundaries := false }, .empty⟩ blackCat =
        .ok counterpart ∧
      extraction.complex.map (fun phrase => (phrase.text, phrase.head)) =
        [("black cat", some 1)] ∧
      counterpart.complex.map (fun phrase => (phrase.text, phrase.head)) =
        [("black cat", some 0)] :=
  ⟨_, _, _, _, build_of_nounPhrases (.cons ⟨rfl, rfl, rfl⟩ (.cons ⟨rfl, rfl, rfl⟩ .nil)),
    build_of_nounPhrases (.cons ⟨rfl, rfl, rfl⟩ (.cons ⟨rfl, rfl, rfl⟩ .nil)), rfl, rfl, rfl, rfl⟩

end PhraseGrammar
