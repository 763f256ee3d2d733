import PhraseGrammar.Proofs.LeafPass

/-! Patterns that differ in roles and themes alone take the same words, and build the same way. -/

namespace PhraseGrammar

/-- Whether the same readings meet two conditions, which may differ in role and themes. -/
structure Condition.Alike (condition other : Condition) : Prop where
  /-- The same attributes are wanted. -/
  tag : condition.tag = other.tag
  /-- The same lexeme is wanted, or none. -/
  lexeme : condition.additional.lexeme = other.additional.lexeme
  /-- Both slots may be filled again, or neither. -/
  repeats : condition.additional.repeats = other.additional.repeats

/-- Whether the same tokens meet two slots. -/
structure WordSlot.Alike (slot other : WordSlot) : Prop where
  /-- The part of speech is the same. -/
  pos : slot.pos = other.pos
  /-- The same readings meet the conditions. -/
  condition : slot.condition.Alike other.condition

/-- Whether the same phrases meet two slots. -/
structure ModelSlot.Alike (slot other : ModelSlot) : Prop where
  /-- Both refer to one pattern. -/
  pattern : slot.pattern = other.pattern
  /-- The same readings meet the conditions. -/
  condition : slot.condition.Alike other.condition
  /-- Both demand something beyond the attributes, or neither does. -/
  isEmpty : slot.condition.additional.isEmpty = other.condition.additional.isEmpty

/-- Whether two slots are of one kind and filled alike. -/
inductive Component.Alike : Component → Component → Prop
  | word {slot other : WordSlot} (alike : slot.Alike other) : Alike (.word slot) (.word other)
  | model {slot other : ModelSlot} (alike : slot.Alike other) : Alike (.model slot) (.model other)

/-- Slots that are alike are both for words or both for phrases. -/
theorem Component.Alike.cases {component other : Component} (alike : component.Alike other) :
    (∃ slot counterpart, component = .word slot ∧ other = .word counterpart ∧
      slot.Alike counterpart) ∨
    ∃ slot counterpart, component = .model slot ∧ other = .model counterpart ∧
      slot.Alike counterpart := by
  cases alike with
  | word alike => exact .inl ⟨_, _, rfl, rfl, alike⟩
  | model alike => exact .inr ⟨_, _, rfl, rfl, alike⟩

/-- Whether two patterns have one name, slots that are filled alike, and their head in one place. -/
structure Pattern.Alike (pattern other : Pattern) : Prop where
  /-- The name is the same. -/
  name : pattern.name = other.name
  /-- The slots correspond one by one. -/
  components : List.Forall₂ Component.Alike pattern.components other.components
  /-- The first slot with the role of the head is the same. -/
  headIndex? : pattern.headIndex? = other.headIndex?

/-- Whether two patterns cannot be told apart by their names and what they refer to. -/
structure Pattern.NamedAlike (pattern other : Pattern) : Prop where
  /-- The name is the same. -/
  name : pattern.name = other.name
  /-- Both have slots, or neither has. -/
  isEmpty : pattern.isEmpty = other.isEmpty
  /-- The references are the same. -/
  references : pattern.references = other.references

/-- What stands at a place of two lists that correspond does so, too. -/
theorem rel_getElem?_of_forall₂ {α β : Type} {related : α → β → Prop} {items : List α}
    {others : List β} (each : List.Forall₂ related items others) (index : Nat) :
    Option.Rel related items[index]? others[index]? := by
  induction each generalizing index with
  | nil => exact .none
  | cons here _ rest =>
    cases index with
    | zero => exact .some here
    | succ index => exact rest index

/-- Some item passes a test if one that corresponds passes the test that is the same for it. -/
theorem any_of_forall₂ {α β : Type} {related : α → β → Prop} {items : List α} {others : List β}
    {test : α → Bool} {check : β → Bool} (each : List.Forall₂ related items others)
    (same : ∀ item counterpart, related item counterpart → test item = check counterpart) :
    items.any test = others.any check := by
  induction each with
  | nil => rfl
  | cons here _ rest => rw [List.any_cons, List.any_cons, same _ _ here, rest]

namespace Condition.Alike

variable {condition other : Condition}

/-- Themes rule out no reading, so that the lexeme alone counts beyond the attributes. -/
theorem matchesAdditional (alike : condition.Alike other) :
    condition.additional.matchesReading = other.additional.matchesReading := by
  funext reading
  simp only [Additional.matchesReading, Additional.matchesLexeme, Additional.matchesThemes,
    alike.lexeme]

/-- The same readings have the wanted attributes. -/
theorem matchesAttributes (alike : condition.Alike other) :
    condition.matchesAttributes = other.matchesAttributes := by
  funext reading
  rw [Condition.matchesAttributes, Condition.matchesAttributes, alike.tag]

/-- The same tokens have a reading with the wanted attributes. -/
theorem acceptsToken (alike : condition.Alike other) :
    condition.acceptsToken = other.acceptsToken := by
  funext token
  rw [Condition.acceptsToken, Condition.acceptsToken, alike.matchesAttributes]

end Condition.Alike

namespace WordSlot.Alike

variable {slot other : WordSlot}

/-- The same tokens meet both slots. -/
theorem matchesToken (alike : slot.Alike other) (token : Token) :
    slot.matchesToken token = other.matchesToken token := by
  simp only [WordSlot.matchesToken, Condition.matchesToken, Condition.matchesReading, alike.pos,
    alike.condition.matchesAttributes, alike.condition.matchesAdditional]

/-- Both slots may be filled again, or neither. -/
theorem isRepeated (alike : slot.Alike other) :
    slot.condition.isRepeated = other.condition.isRepeated :=
  alike.condition.repeats

end WordSlot.Alike

namespace Pattern

variable {pattern other : Pattern}

namespace Alike

/-- The slots of both patterns are as many. -/
theorem length (alike : pattern.Alike other) : pattern.length = other.length :=
  alike.components.length_eq

/-- The slots at an index are filled alike, or there is none in either pattern. -/
theorem component? (alike : pattern.Alike other) (index : Nat) :
    Option.Rel Component.Alike (pattern.component? index) (other.component? index) :=
  rel_getElem?_of_forall₂ alike.components index

/-- Where one pattern has a slot for a phrase, the other one has a slot for the same phrases. -/
theorem exists_model (alike : pattern.Alike other) {index : Nat} {slot : ModelSlot}
    (stands : pattern.component? index = some (.model slot)) :
    ∃ counterpart, other.component? index = some (.model counterpart) ∧ slot.Alike counterpart := by
  have slots := alike.component? index
  rw [stands] at slots
  generalize other.component? index = found at slots ⊢
  cases slots with
  | some alike =>
    cases alike with
    | model alike => exact ⟨_, rfl, alike⟩

/-- The slots for words correspond one by one. -/
theorem wordSlots (alike : pattern.Alike other) :
    List.Forall₂ WordSlot.Alike pattern.wordSlots other.wordSlots := by
  unfold Pattern.wordSlots
  refine List.rel_filterMap (fun component counterpart alike => ?_) alike.components
  cases alike with
  | word alike => exact .some alike
  | model alike => exact .none

/-- The head words are met by the same tokens, or neither pattern has one. -/
theorem headWord? (alike : pattern.Alike other) :
    Option.Rel WordSlot.Alike pattern.headWord? other.headWord? := by
  rw [headWord?_eq, headWord?_eq, alike.headIndex?]
  cases other.headIndex? with
  | none => exact .none
  | some head =>
    rw [Option.bind_some, Option.bind_some]
    have slots := alike.component? head
    generalize pattern.component? head = slot at slots ⊢
    generalize other.component? head = counterpart at slots ⊢
    cases slots with
    | none => exact .none
    | some alike =>
      cases alike with
      | word alike => exact .some alike
      | model alike => exact .none

/-- The same names are referred to in the same order. -/
theorem references (alike : pattern.Alike other) : pattern.references = other.references := by
  unfold Pattern.references
  have each := alike.components
  generalize pattern.components = components at each ⊢
  generalize other.components = others at each ⊢
  induction each with
  | nil => rfl
  | cons here _ rest =>
    cases here with
    | word alike => simpa [Component.model?] using rest
    | model alike => simpa [Component.model?, alike.pattern] using rest

/-- Patterns that are alike cannot be told apart by names and references. -/
theorem namedAlike (alike : pattern.Alike other) : pattern.NamedAlike other where
  name := alike.name
  isEmpty := by
    rw [isEmpty, isEmpty, Bool.eq_iff_iff, List.isEmpty_iff_length_eq_zero,
      List.isEmpty_iff_length_eq_zero, alike.components.length_eq]
  references := alike.references

/-- A phrase fills the same slot of both patterns. -/
theorem modelSlotIndex? (alike : pattern.Alike other) (name : String) :
    pattern.modelSlotIndex? name = other.modelSlotIndex? name := by
  unfold Pattern.modelSlotIndex?
  have each := alike.components
  generalize pattern.components = components at each ⊢
  generalize other.components = others at each ⊢
  induction each with
  | nil => rfl
  | cons here _ rest =>
    rw [List.findIdx?_cons, List.findIdx?_cons, rest]
    cases here with
    | word alike => rfl
    | model alike => rw [Component.references, Component.references, alike.pattern]

end Alike

/-- Patterns with the same references are of one kind. -/
theorem NamedAlike.isLeaf (alike : pattern.NamedAlike other) : pattern.isLeaf = other.isLeaf := by
  rw [Bool.eq_iff_iff, isLeaf_iff_references, isLeaf_iff_references, alike.references]

end Pattern

section Growth

variable {side : Side} {phrase : Phrase} {outward : List (Token × Nat)}

/-- The last slot of a side is filled by the same tokens. -/
theorem Phrase.growLast_alike {slot other : WordSlot} (alike : slot.Alike other) :
    phrase.growLast side slot outward = phrase.growLast side other outward := by
  induction outward generalizing phrase with
  | nil => rfl
  | cons next outward rest =>
    simp only [growLast, alike.matchesToken, alike.isRepeated, rest]

/-- The slots of a side are filled by the same tokens. -/
theorem Phrase.grow_alike {slots others : List WordSlot}
    (alike : List.Forall₂ WordSlot.Alike slots others) :
    phrase.grow side slots outward = phrase.grow side others outward := by
  -- The induction is on the slots, each but the last one taking one token.
  induction alike generalizing phrase outward with
  | nil => rfl
  | cons here more rest =>
    cases more with
    | nil => exact growLast_alike here
    | cons next more =>
      cases outward with
      | nil => rfl
      | cons first outward => simp only [grow, here.matchesToken, rest]

/-- The same phrases grow out of a head. -/
theorem Surroundings.leafCandidates_alike {around : Surroundings} {pattern other : Pattern}
    (alike : pattern.Alike other) (token : Token) (position : Nat) :
    around.leafCandidates token position pattern = around.leafCandidates token position other := by
  have grown (head : Nat) (anchor : Phrase) :
      around.growBoth pattern head anchor = around.growBoth other head anchor := by
    have left := List.rel_reverse (List.forall₂_take head alike.wordSlots)
    have right := List.forall₂_drop (head + 1) alike.wordSlots
    simp only [growBoth, alike.length, Phrase.grow_alike left, Phrase.grow_alike right]
  unfold leafCandidates
  have heads := alike.headWord?
  rw [alike.headIndex?, alike.name]
  generalize pattern.headWord? = slot at heads ⊢
  generalize other.headWord? = counterpart at heads ⊢
  -- Both patterns have a head word that the token meets, or neither has.
  cases heads with
  | none => cases other.headIndex? <;> rfl
  | some alike =>
    cases other.headIndex? with
    | none => rfl
    | some head => simp only [alike.matchesToken, grown]

end Growth

namespace Registry

variable {patterns others : List Pattern} {limit : Nat} {registry other : Registry}

section Building

variable (alike : List.Forall₂ Pattern.NamedAlike patterns others)
include alike

/-- The names are the same. -/
theorem map_name_congr : patterns.map Pattern.name = others.map Pattern.name := by
  induction alike with
  | nil => rfl
  | cons here _ rest => rw [List.map_cons, List.map_cons, here.name, rest]

/-- The check of the names has the same outcome. -/
theorem checkNames_congr (earlier : List String) :
    checkNames earlier patterns = checkNames earlier others := by
  induction alike generalizing earlier with
  | nil => rfl
  | cons here _ rest => simp only [checkNames, here.isEmpty, here.name, rest]

/-- The same numbers are found for all names. -/
theorem indexOf?_congr (name : String) :
    (Directory.ofPatterns patterns).indexOf? name =
      (Directory.ofPatterns others).indexOf? name := by
  rw [Directory.indexOf?, Directory.indexOf?, Directory.ofPatterns, Directory.ofPatterns,
    Directory.getElem?_ofNumbered, Directory.getElem?_ofNumbered]
  -- The numbers go on from wherever they start.
  generalize 0 = start
  induction alike generalizing start with
  | nil => rfl
  | @cons pattern counterpart _ _ here _ rest =>
    simp only [List.zipIdx_cons, List.find?_cons, here.name]
    cases decide (counterpart.name = name) with
    | true => rfl
    | false => exact rest (start + 1)

/-- Linking adds the same references, or it names the same unknown one. -/
theorem linkPatterns_congr {directory counterpart : Directory}
    (same : ∀ name, directory.indexOf? name = counterpart.indexOf? name) (id : Nat)
    (graph : ReferenceGraph) :
    linkPatterns directory id graph patterns = linkPatterns counterpart id graph others := by
  have references {pattern other : Pattern} (named : pattern.name = other.name) (id : Nat)
      (graph : ReferenceGraph) (names : List String) :
      linkReferences directory pattern id graph names =
        linkReferences counterpart other id graph names := by
    induction names generalizing graph with
    | nil => rfl
    | cons name names rest => simp only [linkReferences, same, named, rest]
  induction alike generalizing id graph with
  | nil => rfl
  | cons here _ rest =>
    simp only [linkPatterns, references here.name, here.references, rest]

/-- Building has the same outcome, but for the patterns themselves. -/
theorem build_congr (limit : Nat) :
    build others limit =
      (build patterns limit).map fun registry => assemble others registry.nesting := by
  have names := map_name_congr alike
  have linked : link others = link patterns :=
    (linkPatterns_congr alike (indexOf?_congr alike) 0 {}).symm
  have nested (depths : List (Nat × Nat)) :
      nestingOf others limit depths = nestingOf patterns limit depths := by
    simp only [nestingOf, names, alike.length_eq]
  have named (id : Nat) : nameAt others id = nameAt patterns id := by
    rw [nameAt, nameAt, ← List.getElem?_map, ← List.getElem?_map, names]
  unfold build
  rw [checkNames_congr alike, linked]
  -- Every check has the same outcome, and the nesting is the same in the end.
  cases checkNames [] others with
  | some fault => rfl
  | none =>
    cases link patterns with
    | error fault => rfl
    | ok graph =>
      dsimp only
      cases graph.nestingDepths with
      | error id => simp only [named, Except.map]
      | ok depths =>
        simp only [nested]
        cases nestingOf patterns limit depths <;> rfl

end Building

/-- Whether two registries have patterns that are alike, and know the same about them. -/
structure Alike (registry other : Registry) : Prop where
  /-- The patterns correspond one by one. -/
  patterns : List.Forall₂ Pattern.Alike registry.patterns other.patterns
  /-- The same tokens can be heads. -/
  isHeadCandidate : registry.isHeadCandidate = other.isHeadCandidate
  /-- The same tokens are usable. -/
  isUsable : registry.isUsable = other.isUsable
  /-- The same names are known. -/
  byName? : ∀ name, (registry.byName? name).isSome = (other.byName? name).isSome

/-- Registries of patterns that are alike are alike. -/
theorem alike_of_build {greater : Nat} (alike : List.Forall₂ Pattern.Alike patterns others)
    (built : build patterns limit = .ok registry) (builtOther : build others greater = .ok other) :
    registry.Alike other := by
  obtain ⟨_, _, nesting, rfl⟩ := of_build built
  obtain ⟨_, _, depths, rfl⟩ := of_build builtOther
  -- The slots that correspond have the same part of speech.
  have heads (pos : PartOfSpeech) :
      (patterns.any fun pattern => pattern.headWord?.any fun slot => slot.pos = pos) =
        others.any fun pattern => pattern.headWord?.any fun slot => slot.pos = pos := by
    refine any_of_forall₂ alike fun pattern other alike => ?_
    have slots := alike.headWord?
    generalize pattern.headWord? = slot at slots ⊢
    generalize other.headWord? = counterpart at slots ⊢
    cases slots with
    | none => rfl
    | some alike => rw [Option.any_some, Option.any_some, alike.pos]
  have words (pos : PartOfSpeech) :
      (patterns.any fun pattern => pattern.wordSlots.any fun slot => slot.pos = pos) =
        others.any fun pattern => pattern.wordSlots.any fun slot => slot.pos = pos :=
    any_of_forall₂ alike fun pattern other alike =>
      any_of_forall₂ alike.wordSlots fun slot counterpart alike => by rw [alike.pos]
  have named : List.Forall₂ Pattern.NamedAlike patterns others :=
    alike.imp fun _ _ alike => alike.namedAlike
  refine ⟨alike, funext fun token => ?_, funext fun token => ?_, fun name => ?_⟩
  · simp only [isHeadCandidate, isHeadPos, assemble, heads]
  · simp only [isUsable, isUsedPos, assemble, words]
  · -- A name is known if it has a number.
    have same := congrArg Option.isSome (indexOf?_congr named name)
    simpa [Directory.indexOf?, byName?, assemble] using same

end Registry

end PhraseGrammar
