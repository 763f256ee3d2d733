import PhraseGrammar.Proofs.HeadRoles
import PhraseGrammar.Proofs.NestingDepth

/-! Themes say no more than that a slot for a phrase is constrained, where no lexeme says so anyway. -/

namespace PhraseGrammar

/-- The condition with other themes. -/
def Condition.withThemes (condition : Condition) (themes : List String) : Condition :=
  { condition with additional := { condition.additional with themes } }

/-- Whether two slots are the same but for their themes. -/
inductive Component.SameButThemes : Component → Component → Prop
  /-- The themes of a slot for a word may be any. -/
  | word (slot : WordSlot) (themes : List String) :
    SameButThemes (.word slot) (.word { slot with condition := slot.condition.withThemes themes })
  /-- Those of a slot for a phrase stay there or stay away if no lexeme is wanted. -/
  | model (slot : ModelSlot) (themes : List String)
    (constrained : slot.condition.additional.lexeme = none →
      (slot.condition.additional.themes = [] ↔ themes = [])) :
    SameButThemes (.model slot) (.model { slot with condition := slot.condition.withThemes themes })

/-- Whether two patterns are the same but for the themes of their slots. -/
structure Pattern.SameButThemes (pattern other : Pattern) : Prop where
  /-- The name is the same. -/
  name : pattern.name = other.name
  /-- The slots correspond one by one. -/
  components : List.Forall₂ Component.SameButThemes pattern.components other.components

namespace Condition

variable (condition : Condition) (themes : List String)

/-- Other themes leave the readings that meet a condition as they are. -/
theorem alike_withThemes : condition.Alike (condition.withThemes themes) where
  tag := rfl
  lexeme := rfl
  repeats := rfl

/-- With a lexeme there is a demand whatever the themes are, and without one if there is a theme. -/
theorem isEmpty_withThemes (constrained : condition.additional.lexeme = none →
    (condition.additional.themes = [] ↔ themes = [])) :
    condition.additional.isEmpty = (condition.withThemes themes).additional.isEmpty := by
  unfold Additional.isEmpty withThemes
  dsimp only
  cases lexeme : condition.additional.lexeme with
  | some form => rfl
  | none =>
    rw [Option.isNone_none, Bool.true_and, Bool.true_and, Bool.eq_iff_iff, List.isEmpty_iff,
      List.isEmpty_iff]
    exact constrained lexeme

end Condition

namespace Component.SameButThemes

variable {component other : Component}

/-- Slots that differ in themes alone are filled alike. -/
theorem alike (same : component.SameButThemes other) : component.Alike other := by
  cases same with
  | word slot themes => exact .word ⟨rfl, slot.condition.alike_withThemes themes⟩
  | model slot themes constrained =>
    exact .model ⟨rfl, slot.condition.alike_withThemes themes,
      slot.condition.isEmpty_withThemes themes constrained⟩

/-- Slots that differ in themes alone have the same role. -/
theorem isHead (same : component.SameButThemes other) : component.isHead = other.isHead := by
  cases same <;> rfl

end Component.SameButThemes

namespace Pattern.SameButThemes

variable {pattern other : Pattern}

/-- The first slot with the role of the head is the same among slots that differ in themes alone. -/
theorem findIdx?_isHead {components others : List Component}
    (same : List.Forall₂ Component.SameButThemes components others) :
    components.findIdx? Component.isHead = others.findIdx? Component.isHead := by
  induction same with
  | nil => rfl
  | cons here _ rest => rw [List.findIdx?_cons, List.findIdx?_cons, here.isHead, rest]

/-- Patterns that differ in themes alone are filled alike. -/
theorem alike (same : pattern.SameButThemes other) : pattern.Alike other where
  name := same.name
  components := same.components.imp fun _ _ both => both.alike
  headIndex? := findIdx?_isHead same.components

/-- Whichever slot the base fills, the head is filled by the same slot of both patterns. -/
theorem headsAlike (same : pattern.SameButThemes other) : pattern.HeadsAlike other := by
  intro name anchor index
  constructor
  · -- The slots that the base fills have the same role.
    have slots := rel_getElem?_of_forall₂ same.components anchor
    unfold isHeadAt component?
    generalize pattern.components[anchor]? = slot at slots ⊢
    generalize other.components[anchor]? = counterpart at slots ⊢
    cases slots with
    | none => rfl
    | some both => exact both.isHead
  · -- So do those around them, in the order in which they are filled.
    right
    rw [firstHead?_route, firstHead?_route]
    exact findIdx?_isHead (List.rel_append
      (List.rel_reverse (List.forall₂_take anchor same.components))
      (List.forall₂_drop (anchor + 1) same.components))

end Pattern.SameButThemes

/-- Grammars that differ in themes alone make the same search, step by step, and end it alike. -/
theorem extract_sameButThemes {patterns others : List Pattern} {limit greater : Nat}
    {registry twin : Registry} (same : List.Forall₂ Pattern.SameButThemes patterns others)
    (built : Registry.build patterns limit = .ok registry)
    (builtToo : Registry.build others greater = .ok twin) (options : MatchOptions)
    (stopWords : StopWords) (sentence : Sentence) :
    (∀ budget,
      (Extractor.search ⟨registry, options, stopWords⟩ sentence).run budget =
        (Extractor.search ⟨twin, options, stopWords⟩ sentence).run budget) ∧
    Extractor.extract ⟨registry, options, stopWords⟩ sentence =
      Extractor.extract ⟨twin, options, stopWords⟩ sentence := by
  have alike : registry.Alike twin :=
    Registry.alike_of_build (same.imp fun _ _ both => both.alike) built builtToo
  -- As no role differs, every head is found in the same slot.
  have heads : List.Forall₂ (Pattern.AlikeWithHeads fun _ => True) registry.patterns
      twin.patterns := by
    rw [Registry.patterns_of_build built, Registry.patterns_of_build builtToo]
    exact same.imp fun _ _ both => ⟨both.alike, fun _ => both.headsAlike⟩
  have searches : Extractor.search ⟨registry, options, stopWords⟩ sentence =
      Extractor.search ⟨twin, options, stopWords⟩ sentence :=
    ((Extractor.search_lockstep alike (Registry.sound_of_build built)
      (Registry.sound_of_build builtToo) heads).imp
        fun _ _ found => found.eq fun _ _ => trivial).eq
  refine ⟨fun budget => by rw [searches], ?_⟩
  unfold Extractor.extract
  rw [searches]

/-- A grammar of nouns, of kinds of them, which have a theme, and of described nouns. -/
def themedPhrases (noun kind quality : List String) : List Pattern :=
  [⟨"noun", [.word { pos := .noun, condition := (Condition.ofRole .head).withThemes noun }]⟩,
    ⟨"kind", [.word { pos := .adjective },
      .model { pattern := "noun", condition := (Condition.ofRole .head).withThemes kind }]⟩,
    ⟨"described noun", [
      .word { pos := .adjective, condition := (Condition.ofRole .dependent).withThemes quality },
      .model { pattern := "noun", condition := .ofRole .head }]⟩]

/-- The themed grammar is registered, whatever its themes are. -/
theorem build_themedPhrases (noun kind quality : List String) :
    Registry.build (themedPhrases noun kind quality) =
      .ok (.assemble (themedPhrases noun kind quality) [0, 1, 1]) := by
  have flat : Registry.Flat (themedPhrases noun kind quality) := by
    -- Only the name of the noun is referred to.
    intro pattern member name listed
    refine ⟨_, List.mem_cons_self, ?_, rfl⟩
    simp only [themedPhrases, List.mem_cons, List.not_mem_nil, or_false] at member
    rcases member with rfl | rfl | rfl
    · cases listed
    · exact (List.mem_singleton.mp listed).symm
    · exact (List.mem_singleton.mp listed).symm
  exact Registry.build_of_flat (Registry.checkNames_eq_none_iff.mp rfl) flat (by decide)

/-- The black cat is described whatever the themes are, and no kind of cat, as its slot has some. -/
theorem extract_sameButThemes_blackCat : ∃ registry twin extraction,
    Registry.build (themedPhrases ["animal"] ["species"] []) = .ok registry ∧
      Registry.build (themedPhrases [] ["breed", "sort"] ["colour"]) = .ok twin ∧
      Extractor.extract ⟨registry, { validateBoundaries := false }, .empty⟩ blackCat =
        .ok extraction ∧
      extraction.complex.map (fun phrase => (phrase.pattern, phrase.text)) =
        [("described noun", "black cat")] ∧
      Extractor.extract ⟨twin, { validateBoundaries := false }, .empty⟩ blackCat =
        .ok extraction := by
  have same : List.Forall₂ Pattern.SameButThemes (themedPhrases ["animal"] ["species"] [])
      (themedPhrases [] ["breed", "sort"] ["colour"]) := by
    refine .cons ⟨rfl, .cons (.word _ []) .nil⟩ (.cons ⟨rfl, ?_⟩ (.cons ⟨rfl, ?_⟩ .nil))
    · -- The slot for a noun that is a kind has themes on both sides.
      refine .cons (.word _ []) (.cons (.model _ ["breed", "sort"] fun _ => ?_) .nil)
      simp [Condition.withThemes]
    · exact .cons (.word _ ["colour"]) (.cons (.model _ [] fun _ => Iff.rfl) .nil)
  have built := build_themedPhrases ["animal"] ["species"] []
  have builtToo := build_themedPhrases [] ["breed", "sort"] ["colour"]
  obtain ⟨extraction, ended, texts⟩ : ∃ extraction,
      Extractor.extract ⟨.assemble (themedPhrases ["animal"] ["species"] []) [0, 1, 1],
          { validateBoundaries := false }, .empty⟩ blackCat = .ok extraction ∧
        extraction.complex.map (fun phrase => (phrase.pattern, phrase.text)) =
          [("described noun", "black cat")] := ⟨_, rfl, rfl⟩
  exact ⟨_, _, extraction, built, builtToo, ended, texts,
    (extract_sameButThemes same built builtToo _ _ _).2.symm.trans ended⟩

end PhraseGrammar
