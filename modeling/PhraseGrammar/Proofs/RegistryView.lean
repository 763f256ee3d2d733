import PhraseGrammar.Proofs.LeafPass

/-! Whatever is asked of a registry, the answer is about the patterns that it was built from. -/

namespace PhraseGrammar

/-- Whether a part of speech is that of the first slot with the role of the head, a slot for a word. -/
def Pattern.HasHeadPos (pattern : Pattern) (pos : PartOfSpeech) : Prop :=
  ∃ before slot after, pattern.components = before ++ .word slot :: after ∧
    (∀ component ∈ before, component.condition.role ≠ .head) ∧ slot.condition.role = .head ∧
    slot.pos = pos

/-- Whether some slot for a word has that part of speech. -/
def Pattern.HasWordPos (pattern : Pattern) (pos : PartOfSpeech) : Prop :=
  ∃ slot, Component.word slot ∈ pattern.components ∧ slot.pos = pos

namespace Pattern

variable {pattern : Pattern} {pos : PartOfSpeech}

/-- A pattern is one of words exactly if none of its slots takes a phrase. -/
theorem isLeaf_iff_forall : pattern.isLeaf ↔ ∀ slot, Component.model slot ∉ pattern.components := by
  rw [isLeaf_iff_references, List.eq_nil_iff_forall_not_mem]
  constructor
  · intro none slot member
    exact none slot.pattern (mem_references.mpr ⟨slot, member, rfl⟩)
  · intro none name listed
    obtain ⟨slot, member, _⟩ := mem_references.mp listed
    exact none slot member

/-- It is one of phrases exactly if some slot takes one. -/
theorem not_isLeaf_iff_exists :
    (!pattern.isLeaf) = true ↔ ∃ slot, Component.model slot ∈ pattern.components := by
  rw [Bool.not_eq_true', ← Bool.not_eq_true, isLeaf_iff_forall, not_forall]
  simp only [Decidable.not_not]

/-- The head word is the first slot with the role of the head, where that is a slot for a word. -/
theorem headWord?_eq_some_iff {slot : WordSlot} :
    pattern.headWord? = some slot ↔ ∃ before after,
      pattern.components = before ++ .word slot :: after ∧
      (∀ component ∈ before, component.condition.role ≠ .head) ∧ slot.condition.role = .head := by
  rw [headWord?, Option.bind_eq_some_iff]
  constructor
  · rintro ⟨component, found, word⟩
    obtain ⟨isHead, before, after, split, none⟩ := List.find?_eq_some_iff_append.mp found
    cases component with
    | model other => cases word
    | word other =>
      cases word
      refine ⟨before, after, split, fun component member isHeadToo => ?_, of_decide_eq_true isHead⟩
      -- A slot before it with the role of the head would be the first one.
      have := none component member
      rw [Component.isHead, Condition.isHead, decide_eq_true isHeadToo] at this
      cases this
  · rintro ⟨before, after, split, none, isHead⟩
    refine ⟨.word slot, List.find?_eq_some_iff_append.mpr ⟨decide_eq_true isHead, before, after,
      split, fun component member => ?_⟩, rfl⟩
    rw [Component.isHead, Condition.isHead, decide_eq_false (none component member)]
    rfl

/-- The head word has a part of speech exactly if the first slot with the role of the head has it. -/
theorem any_headWord?_iff :
    (pattern.headWord?.any fun slot => slot.pos = pos) = true ↔ pattern.HasHeadPos pos := by
  rw [Option.any_eq_true]
  constructor
  · rintro ⟨slot, found, same⟩
    obtain ⟨before, after, split, none, isHead⟩ := headWord?_eq_some_iff.mp found
    exact ⟨before, slot, after, split, none, isHead, of_decide_eq_true same⟩
  · rintro ⟨before, slot, after, split, none, isHead, same⟩
    exact ⟨slot, headWord?_eq_some_iff.mpr ⟨before, after, split, none, isHead⟩,
      decide_eq_true same⟩

/-- Among the slots for words one has a part of speech exactly if one of all slots does. -/
theorem any_wordSlots_iff :
    (pattern.wordSlots.any fun slot => slot.pos = pos) = true ↔ pattern.HasWordPos pos := by
  rw [List.any_eq_true]
  constructor
  · rintro ⟨slot, member, same⟩
    exact ⟨slot, mem_wordSlots.mp member, of_decide_eq_true same⟩
  · rintro ⟨slot, member, same⟩
    exact ⟨slot, mem_wordSlots.mpr member, decide_eq_true same⟩

end Pattern

/-- The list of all parts of speech has them in order, each once. -/
theorem PartOfSpeech.pairwise_all : all.Pairwise fun pos later => pos.code < later.code := by
  decide

namespace Registry

/-- Whether a list has those of some patterns that have a property, each once and in order. -/
structure Selects (patterns : List Pattern) (property : Pattern → Prop) (listed : List Pattern) :
    Prop where
  /-- The order is that of the patterns. -/
  ordered : listed.Sublist patterns
  /-- No pattern is listed twice. -/
  once : listed.Nodup
  /-- Those with the property are listed, and no others. -/
  mem : ∀ pattern, pattern ∈ listed ↔ pattern ∈ patterns ∧ property pattern

/-- Whether a list has the parts of speech with a property, each once and in their fixed order. -/
structure Sorts (property : PartOfSpeech → Prop) (listed : List PartOfSpeech) : Prop where
  /-- The order is the fixed one, and none comes twice. -/
  ordered : listed.Pairwise fun pos later => pos.code < later.code
  /-- Those with the property are listed, and no others. -/
  mem : ∀ pos, pos ∈ listed ↔ property pos

/-- Whether a depth is one more than the greatest that is listed for what a pattern refers to. -/
def Surmounts (registry : Registry) (pattern : Pattern) (depth : Nat) : Prop :=
  ∃ deepest, depth = deepest + 1 ∧
    IsGreatest {count | ∃ slot target, Component.model slot ∈ pattern.components ∧
      registry.idOf? slot.pattern = some target ∧ registry.nestingDepth? target = some count} deepest

/-- Whether every query of a registry is answered by the patterns of a list. -/
structure Represents (registry : Registry) (patterns : List Pattern) (limit : Nat) : Prop where
  /-- Written as a set it has the patterns in order. -/
  toSet : ∀ version, registry.toSet version = ⟨version, patterns⟩
  /-- The number of a pattern is its index, and there is none past the end. -/
  get? : ∀ id, registry.get? id = patterns[id]?
  /-- A name has the number of the pattern with it. -/
  idOf? : ∀ name id,
    registry.idOf? name = some id ↔ ∃ pattern, patterns[id]? = some pattern ∧ pattern.name = name
  /-- By a name the pattern with it is found. -/
  byName? : ∀ name pattern,
    registry.byName? name = some pattern ↔ pattern ∈ patterns ∧ pattern.name = name
  /-- The patterns of words are those without a slot for a phrase. -/
  leafPatterns : Selects patterns (fun pattern => ∀ slot, Component.model slot ∉ pattern.components)
    registry.leafPatterns
  /-- The patterns of phrases are those with one. -/
  compositePatterns : Selects patterns
    (fun pattern => ∃ slot, Component.model slot ∈ pattern.components) registry.compositePatterns
  /-- Every slot for a phrase refers to a pattern that is found. -/
  resolves : ∀ pattern ∈ patterns, ∀ slot, Component.model slot ∈ pattern.components →
    ∃ target, registry.byName? slot.pattern = some target
  /-- The depth of a pattern is zero exactly for one of words, surmounts those of what it refers to
  otherwise, and is within the limit. -/
  nestingDepth? : ∀ id pattern, patterns[id]? = some pattern →
    ∃ depth, registry.nestingDepth? id = some depth ∧ depth ≤ limit ∧
      (depth = 0 ↔ pattern.isLeaf) ∧ (pattern.isLeaf = false → registry.Surmounts pattern depth)
  /-- A head has a part of speech if the first head slot of some pattern is one for a word with it. -/
  isHeadPos : ∀ pos, registry.isHeadPos pos ↔ ∃ pattern ∈ patterns, pattern.HasHeadPos pos
  /-- A part of speech is used if some slot for a word has it. -/
  isUsedPos : ∀ pos, registry.isUsedPos pos ↔ ∃ pattern ∈ patterns, pattern.HasWordPos pos
  /-- The parts of speech of heads are sorted. -/
  headPos : Sorts (fun pos => registry.isHeadPos pos) registry.headPos
  /-- The parts of speech that are used are sorted. -/
  usedPos : Sorts (fun pos => registry.isUsedPos pos) registry.usedPos

variable {patterns : List Pattern} {limit : Nat} {registry : Registry}

/-- What a test passes is selected by the property that it decides. -/
theorem selects_filter (nodup : patterns.Nodup) {test : Pattern → Bool} {property : Pattern → Prop}
    (decides : ∀ pattern, test pattern = true ↔ property pattern) :
    Selects patterns property (patterns.filter test) where
  ordered := List.filter_sublist
  once := nodup.filter test
  mem pattern := by rw [List.mem_filter, decides]

/-- The parts of speech that some pattern passes a test with are those with the property it decides. -/
theorem mem_posWhere (test : PartOfSpeech → Pattern → Bool) (property : PartOfSpeech → Pattern → Prop)
    (decides : ∀ pos pattern, test pos pattern = true ↔ property pos pattern) (pos : PartOfSpeech) :
    pos ∈ posWhere (fun pos => patterns.any (test pos)) ↔
      ∃ pattern ∈ patterns, property pos pattern := by
  rw [posWhere, List.mem_filter, List.any_eq_true]
  simp only [decides, PartOfSpeech.mem_all, true_and]

/-- The parts of speech that pass a test are in their fixed order. -/
theorem pairwise_posWhere (test : PartOfSpeech → Bool) :
    (posWhere test).Pairwise fun pos later => pos.code < later.code :=
  PartOfSpeech.pairwise_all.sublist List.filter_sublist

/-- The pattern found by a name is the first one with it. -/
theorem byName?_assemble (patterns : List Pattern) (nesting : List Nat) (name : String) :
    (assemble patterns nesting).byName? name = patterns.find? fun pattern => pattern.name = name := by
  -- A numbered pattern is looked up by its name, whatever its number is.
  rw [byName?, assemble, Directory.ofPatterns, Directory.getElem?_ofNumbered]
  conv_rhs => rw [← List.zipIdx_map_fst 0 patterns, List.find?_map]
  rfl

/-- The pattern found by a name is the only one with it. -/
theorem byName?_iff (built : build patterns limit = .ok registry) {name : String}
    {pattern : Pattern} :
    registry.byName? name = some pattern ↔ pattern ∈ patterns ∧ pattern.name = name := by
  constructor
  · obtain ⟨_, _, nesting, rfl⟩ := of_build built
    intro found
    rw [byName?_assemble] at found
    exact ⟨List.mem_of_find?_eq_some found, by simpa using List.find?_some found⟩
  · rintro ⟨member, rfl⟩
    rw [← patterns_of_build built] at member
    exact (sound_of_build built).byName?_name pattern member

/-- The parts of speech of heads are those that head words have. -/
theorem headPos_of_build (built : build patterns limit = .ok registry) :
    registry.headPos = posWhere fun pos =>
      patterns.any fun pattern => pattern.headWord?.any fun slot => slot.pos = pos := by
  obtain ⟨_, _, nesting, rfl⟩ := of_build built
  rfl

/-- The parts of speech that are used are those that slots for words have. -/
theorem usedPos_of_build (built : build patterns limit = .ok registry) :
    registry.usedPos = posWhere fun pos =>
      patterns.any fun pattern => pattern.wordSlots.any fun slot => slot.pos = pos := by
  obtain ⟨_, _, nesting, rfl⟩ := of_build built
  rfl

/-- The number of a name is that of the pattern with it. -/
theorem idOf?_iff (built : build patterns limit = .ok registry) {name : String} {id : Nat} :
    registry.idOf? name = some id ↔
      ∃ pattern, patterns[id]? = some pattern ∧ pattern.name = name := by
  obtain ⟨named, _, nesting, rfl⟩ := of_build built
  exact named.indexOf?_eq_some_iff

/-- The listed depth of a number is that of the pattern with it. -/
theorem nestingDepth?_iff (built : build patterns limit = .ok registry) {id depth : Nat} :
    registry.nestingDepth? id = some depth ↔ id < patterns.length ∧ HasDepth patterns id depth := by
  obtain ⟨nesting, rfl, length, depths⟩ := nesting_of_build built
  constructor
  · intro listed
    obtain ⟨inside, _⟩ := List.getElem?_eq_some_iff.mp listed
    exact ⟨length ▸ inside, (depths id depth listed).1⟩
  · rintro ⟨inside, hasDepth⟩
    -- Some depth is listed, and a pattern has no other one.
    have listed : nesting[id]? = some _ := List.getElem?_eq_getElem (length ▸ inside)
    rw [hasDepth.unique (depths id _ listed).1]
    exact listed

/-- A pattern refers to the numbers of the names that its slots have. -/
theorem refers_iff (built : build patterns limit = .ok registry) {id target : Nat}
    {pattern : Pattern} (stands : patterns[id]? = some pattern) :
    Refers patterns id target ↔ ∃ slot, Component.model slot ∈ pattern.components ∧
      registry.idOf? slot.pattern = some target := by
  constructor
  · rintro ⟨source, other, here, there, listed⟩
    cases stands.symm.trans here
    -- The name that is listed is that of a slot, and of the pattern with the number.
    obtain ⟨slot, member, same⟩ := Pattern.mem_references.mp listed
    exact ⟨slot, member, (idOf?_iff built).mpr ⟨other, there, same.symm⟩⟩
  · rintro ⟨slot, member, found⟩
    obtain ⟨other, there, same⟩ := (idOf?_iff built).mp found
    exact ⟨pattern, other, stands, there, Pattern.mem_references.mpr ⟨slot, member, same.symm⟩⟩

/-- The depth of a pattern of phrases surmounts the depths listed for what it refers to. -/
theorem surmounts_of_build (built : build patterns limit = .ok registry) {id depth : Nat}
    {pattern : Pattern} (stands : patterns[id]? = some pattern) (composite : pattern.isLeaf = false)
    (hasDepth : HasDepth patterns id depth) : registry.Surmounts pattern depth := by
  have resolved := (of_build built).2.1 pattern (List.mem_of_getElem? stands)
  -- What a pattern refers to is registered, and so has a depth.
  have inside : ∀ target, Refers patterns id target → target < patterns.length := by
    rintro target ⟨_, other, _, there, _⟩
    exact (List.getElem?_eq_some_iff.mp there).1
  obtain ⟨deepest, same, greatest⟩ := hasDepth.eq_succ (exists_refers resolved stands composite)
    fun target refers =>
      let ⟨count, _, deep⟩ := hasDepth_of_build built (inside target refers)
      ⟨count, deep⟩
  refine ⟨deepest, same, ?_⟩
  convert greatest using 1
  ext count
  constructor
  · rintro ⟨slot, target, member, found, listed⟩
    exact ⟨target, (refers_iff built stands).mpr ⟨slot, member, found⟩,
      ((nestingDepth?_iff built).mp listed).2⟩
  · rintro ⟨target, refers, deep⟩
    obtain ⟨slot, member, found⟩ := (refers_iff built stands).mp refers
    exact ⟨slot, target, member, found,
      (nestingDepth?_iff built).mpr ⟨inside target refers, deep⟩⟩

/-- A registry that is built represents its patterns. -/
theorem represents_of_build (built : build patterns limit = .ok registry) :
    registry.Represents patterns limit where
  toSet version := by rw [toSet, patterns_of_build built]
  get? id := by rw [get?, patterns_of_build built]
  idOf? name id := idOf?_iff built
  byName? name pattern := byName?_iff built
  leafPatterns := by
    -- Patterns that are told apart by their names are listed once each.
    rw [leafPatterns, patterns_of_build built]
    exact selects_filter (of_build built).1.nodup.of_map fun pattern => Pattern.isLeaf_iff_forall
  compositePatterns := by
    rw [compositePatterns, patterns_of_build built]
    exact selects_filter (of_build built).1.nodup.of_map fun pattern =>
      Pattern.not_isLeaf_iff_exists
  resolves pattern member slot isSlot := by
    obtain ⟨target, isTarget, same⟩ := List.mem_map.mp ((of_build built).2.1 pattern member slot isSlot)
    exact ⟨target, (byName?_iff built).mpr ⟨isTarget, same⟩⟩
  nestingDepth? id pattern stands := by
    obtain ⟨nesting, rfl, length, depths⟩ := nesting_of_build built
    have inside : id < nesting.length := length ▸ (List.getElem?_eq_some_iff.mp stands).1
    obtain ⟨hasDepth, within⟩ := depths id nesting[id] (List.getElem?_eq_getElem inside)
    refine ⟨nesting[id], List.getElem?_eq_getElem inside, within, ⟨fun zero => ?_, fun isLeaf => ?_⟩,
      fun composite => surmounts_of_build built stands composite hasDepth⟩
    · -- A pattern of phrases would surmount something.
      by_contra composite
      obtain ⟨_, same, _⟩ :=
        surmounts_of_build built stands (Bool.eq_false_iff.mpr composite) hasDepth
      omega
    · exact hasDepth.unique (hasDepth_zero stands isLeaf)
  isHeadPos pos := by
    rw [isHeadPos, headPos_of_build built, List.contains_iff_mem]
    exact mem_posWhere _ (fun pos pattern => pattern.HasHeadPos pos)
      (fun _ _ => Pattern.any_headWord?_iff) pos
  isUsedPos pos := by
    rw [isUsedPos, usedPos_of_build built, List.contains_iff_mem]
    exact mem_posWhere _ (fun pos pattern => pattern.HasWordPos pos)
      (fun _ _ => Pattern.any_wordSlots_iff) pos
  headPos := by
    refine ⟨?_, fun pos => List.contains_iff_mem.symm⟩
    rw [headPos_of_build built]
    exact pairwise_posWhere _
  usedPos := by
    refine ⟨?_, fun pos => List.contains_iff_mem.symm⟩
    rw [usedPos_of_build built]
    exact pairwise_posWhere _

/-- The small grammar is represented, with one level of phrases over nouns. -/
theorem represents_of_build_nounPhrases : ∃ registry, build nounPhrases = .ok registry ∧
    registry.Represents nounPhrases defaultMaxNesting ∧
    registry.nestingDepth? 1 = some 1 ∧ registry.headPos = [.noun] ∧
    registry.usedPos = [.noun, .adjective] :=
  ⟨_, build_nounPhrases, represents_of_build build_nounPhrases, rfl, rfl, rfl⟩

end Registry

end PhraseGrammar
