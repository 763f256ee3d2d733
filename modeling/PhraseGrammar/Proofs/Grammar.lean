import Mathlib.Data.List.Induction
import Mathlib.Data.List.Nodup
import PhraseGrammar.Registry

/-! Patterns that pass the checks of names and slots can be told apart and looked up by name. -/

namespace PhraseGrammar

namespace Pattern

variable {pattern : Pattern}

/-- A pattern of words has its slots for words and no others. -/
theorem components_of_isLeaf (leaf : pattern.isLeaf) :
    pattern.components = pattern.wordSlots.map .word := by
  -- The kind of a pattern asks every slot in turn.
  have words : ∀ component ∈ pattern.components, component.model? = none := by
    simpa [isLeaf, kind] using leaf
  unfold wordSlots
  generalize pattern.components = components at words ⊢
  induction components with
  | nil => rfl
  | cons component components rest =>
    obtain ⟨here, later⟩ := List.forall_mem_cons.mp words
    cases component with
    | word slot =>
      rw [List.filterMap_cons, Component.word?, List.map_cons, ← rest later]
    | model slot => cases here

/-- The slot at the index of the head is the first one with the role of the head. -/
theorem component?_headIndex? {head : Nat} (found : pattern.headIndex? = some head) :
    pattern.component? head = pattern.components.find? Component.isHead := by
  obtain ⟨inside, isHead, earlier⟩ := List.findIdx?_eq_some_iff_getElem.mp found
  rw [component?, List.getElem?_eq_getElem inside]
  -- Both searches stop at the first slot with the role of the head.
  symm
  refine List.find?_eq_some_iff_getElem.mpr ⟨isHead, head, inside, rfl, fun index before => ?_⟩
  simpa using earlier index before

/-- The head word of a pattern is looked up at the index of the head. -/
theorem headWord?_eq :
    pattern.headWord? = pattern.headIndex?.bind fun head =>
      (pattern.component? head).bind Component.word? := by
  cases index : pattern.headIndex? with
  | none =>
    -- Without a slot with the role of the head there is no head word.
    have none := List.findIdx?_eq_none_iff.mp index
    rw [headWord?, List.find?_eq_none.mpr (by simpa using none)]
    rfl
  | some head => rw [Option.bind_some, component?_headIndex? index, headWord?]

/-- The head of a pattern of words is a slot for a word. -/
theorem headWord?_of_isLeaf (leaf : pattern.isLeaf) {head : Nat}
    (found : pattern.headIndex? = some head) :
    ∃ slot, pattern.headWord? = some slot ∧ pattern.component? head = some (.word slot) := by
  have same := component?_headIndex? found
  obtain ⟨inside, _⟩ := List.findIdx?_eq_some_iff_getElem.mp found
  -- What stands there is one of the slots, all of which are for words.
  obtain ⟨component, stands⟩ : ∃ component, pattern.component? head = some component :=
    ⟨_, List.getElem?_eq_getElem inside⟩
  have member := List.mem_of_getElem? stands
  rw [components_of_isLeaf leaf, List.mem_map] at member
  obtain ⟨slot, _, rfl⟩ := member
  refine ⟨slot, ?_, stands⟩
  rw [headWord?, ← same, stands]
  rfl

/-- The names that a pattern refers to are those of its slots for phrases. -/
theorem mem_references {name : String} :
    name ∈ pattern.references ↔
      ∃ slot, Component.model slot ∈ pattern.components ∧ slot.pattern = name := by
  rw [references, List.mem_filterMap]
  constructor
  · rintro ⟨component, member, same⟩
    cases component with
    | word slot => cases same
    | model slot => exact ⟨slot, member, Option.some.inj same⟩
  · rintro ⟨slot, member, same⟩
    exact ⟨.model slot, member, congrArg some same⟩

/-- The slots for words of a pattern are those among its slots. -/
theorem mem_wordSlots {slot : WordSlot} :
    slot ∈ pattern.wordSlots ↔ Component.word slot ∈ pattern.components := by
  rw [wordSlots, List.mem_filterMap]
  constructor
  · rintro ⟨component, member, same⟩
    cases component with
    | word other => exact Option.some.inj same ▸ member
    | model other => cases same
  · intro member
    exact ⟨.word slot, member, rfl⟩

/-- A pattern of words is one that refers to no pattern. -/
theorem isLeaf_iff_references : pattern.isLeaf ↔ pattern.references = [] := by
  -- A slot gives a name exactly if it makes the pattern one of phrases.
  simp [isLeaf, kind, references]

/-- A pattern with a head word has a slot with the role of the head. -/
theorem isSome_headIndex? {slot : WordSlot} (isHead : pattern.headWord? = some slot) :
    pattern.headIndex?.isSome := by
  obtain ⟨component, found, _⟩ := Option.bind_eq_some_iff.mp isHead
  rw [headIndex?, List.findIdx?_isSome, List.any_eq_true]
  exact ⟨component, List.mem_of_find?_eq_some found, List.find?_some found⟩

end Pattern

namespace Registry

variable {patterns : List Pattern} {limit : Nat} {registry : Registry}

/-- Whether a pattern that follows others has no slot or the name of one of them. -/
def Spoiled (before : List Pattern) (pattern : Pattern) : Prop :=
  pattern.components = [] ∨ pattern.name ∈ before.map Pattern.name

/-- Whether every pattern has a slot and a name that no earlier one has. -/
def WellNamed (patterns : List Pattern) : Prop :=
  ∀ before pattern after, patterns = before ++ pattern :: after → ¬Spoiled before pattern

/-- Patterns with one more at the end are well named if they are, and it is not spoiled by them. -/
theorem wellNamed_concat {pattern : Pattern} :
    WellNamed (patterns ++ [pattern]) ↔ WellNamed patterns ∧ ¬Spoiled patterns pattern := by
  constructor
  · intro named
    -- A part of the shorter list is one of the longer list, too.
    refine ⟨fun before other after split => ?_, named patterns pattern [] rfl⟩
    exact named before other (after ++ [pattern]) (by rw [split]; simp)
  · rintro ⟨named, clean⟩ before other after split
    -- A pattern of the longer list is the new one, or it has the new one behind it.
    rcases List.eq_nil_or_concat after with rfl | ⟨most, last, rfl⟩
    · obtain ⟨rfl, same⟩ := List.append_inj' split rfl
      rwa [← List.singleton_inj.mp same]
    · have shorter : patterns ++ [pattern] = (before ++ other :: most) ++ [last] := by
        rw [split]; simp
      exact named before other most (List.append_inj' shorter rfl).1

/-- Patterns are well named, or there is a first spoiled one among them. -/
theorem wellNamed_or_spoiled (patterns : List Pattern) :
    WellNamed patterns ∨ ∃ before pattern after, patterns = before ++ pattern :: after ∧
      WellNamed before ∧ Spoiled before pattern := by
  -- Patterns are added at the end, so that a spoiled one found before stays the first.
  induction patterns using List.reverseRecOn with
  | nil => exact .inl fun before pattern after split => by simp at split
  | append_singleton patterns pattern rest =>
    rcases rest with named | ⟨before, first, after, split, named, spoiled⟩
    · by_cases spoiled : Spoiled patterns pattern
      · exact .inr ⟨patterns, pattern, [], rfl, named, spoiled⟩
      · exact .inl (wellNamed_concat.mpr ⟨named, spoiled⟩)
    · exact .inr ⟨before, first, after ++ [pattern], by rw [split]; simp, named, spoiled⟩

/-- The check goes through well named patterns to those after them. -/
theorem checkNames_append (named : WellNamed patterns) (rest : List Pattern) :
    checkNames [] (patterns ++ rest) = checkNames (patterns.map Pattern.name).reverse rest := by
  -- The check has the names before a pattern in reverse, the latest first.
  induction patterns using List.reverseRecOn generalizing rest with
  | nil => rfl
  | append_singleton patterns pattern ih =>
    obtain ⟨named, clean⟩ := wellNamed_concat.mp named
    obtain ⟨some, fresh⟩ := not_or.mp clean
    rw [List.append_assoc, List.singleton_append, ih named, checkNames,
      if_neg (by simpa [Pattern.isEmpty] using some), if_neg (by simpa using fresh),
      List.map_append, List.reverse_append]
    rfl

/-- The check finds fault with the first spoiled pattern, for its slots before its name. -/
theorem checkNames_spoiled {pattern : Pattern} (named : WellNamed patterns)
    (spoiled : Spoiled patterns pattern) (after : List Pattern) :
    checkNames [] (patterns ++ pattern :: after) =
      some (if pattern.components = [] then .emptyPattern pattern.name
        else .duplicatePattern pattern.name) := by
  rw [checkNames_append named, checkNames]
  -- A pattern without a slot is refused whatever its name is.
  by_cases none : pattern.components = []
  · simp [Pattern.isEmpty, none]
  · have taken : pattern.name ∈ (patterns.map Pattern.name).reverse :=
      List.mem_reverse.mpr (spoiled.resolve_left none)
    rw [if_neg (by simpa [Pattern.isEmpty] using none), if_pos taken, if_neg none]

/-- The check passes well named patterns and no others. -/
theorem checkNames_eq_none_iff : checkNames [] patterns = none ↔ WellNamed patterns := by
  constructor
  · intro passed
    rcases wellNamed_or_spoiled patterns with
      named | ⟨before, pattern, after, rfl, named, spoiled⟩
    · exact named
    · -- A first spoiled pattern would not have passed.
      rw [checkNames_spoiled named spoiled] at passed
      cases passed
  · intro named
    have whole := checkNames_append named []
    rwa [List.append_nil] at whole

/-- No two well named patterns have the same name. -/
theorem WellNamed.nodup (named : WellNamed patterns) : (patterns.map Pattern.name).Nodup := by
  induction patterns using List.reverseRecOn with
  | nil => exact List.nodup_nil
  | append_singleton patterns pattern rest =>
    obtain ⟨named, clean⟩ := wellNamed_concat.mp named
    -- The name that is added is not among those before it.
    rw [List.map_append, List.map_singleton, ← List.concat_eq_append]
    exact (rest named).concat (not_or.mp clean).2

/-- The number found for a name is that of a pattern with that name. -/
theorem indexOf?_eq_some {name : String} {id : Nat}
    (found : (Directory.ofPatterns patterns).indexOf? name = some id) :
    ∃ pattern, patterns[id]? = some pattern ∧ pattern.name = name := by
  rw [Directory.indexOf?, Directory.ofPatterns, Directory.getElem?_ofNumbered,
    Option.map_eq_some_iff] at found
  obtain ⟨⟨pattern, number⟩, found, rfl⟩ := found
  -- The entry that is found has the name, and stands in the list under its number.
  have named : pattern.name = name := by simpa using List.find?_some found
  exact ⟨pattern, List.mk_mem_zipIdx_iff_getElem?.mp (List.mem_of_find?_eq_some found), named⟩

/-- A number is found for a name exactly if some pattern has it. -/
theorem indexOf?_eq_none_iff {name : String} :
    (Directory.ofPatterns patterns).indexOf? name = none ↔ name ∉ patterns.map Pattern.name := by
  rw [Directory.indexOf?, Directory.ofPatterns, Directory.getElem?_ofNumbered,
    Option.map_eq_none_iff, List.find?_eq_none, List.mem_map]
  constructor
  · rintro none ⟨pattern, member, same⟩
    -- A pattern with the name would be found under its number.
    obtain ⟨id, found⟩ := List.mem_iff_getElem?.mp member
    exact none (pattern, id) (List.mk_mem_zipIdx_iff_getElem?.mpr found) (by simpa using same)
  · intro none entry member same
    exact none ⟨entry.1, List.fst_mem_of_mem_zipIdx member, by simpa using same⟩

end Registry

end PhraseGrammar
