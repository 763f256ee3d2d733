import PhraseGrammar.Proofs.Grammar
import PhraseGrammar.Proofs.ReferenceGraph

/-! Building a registry accepts the well formed grammars and names the first fault of any other. -/

namespace PhraseGrammar.Registry

variable {patterns : List Pattern} {limit : Nat} {registry : Registry}

/-- Whether some pattern has a name. -/
def Known (patterns : List Pattern) (name : String) : Prop :=
  name ∈ patterns.map Pattern.name

/-- Whether every slot for a phrase among some slots refers to a pattern that there is. -/
def Resolved (patterns : List Pattern) (components : List Component) : Prop :=
  ∀ slot, Component.model slot ∈ components → Known patterns slot.pattern

/-- Whether the pattern with one number has a slot that refers to the pattern with another. -/
def Refers (patterns : List Pattern) (source target : Nat) : Prop :=
  ∃ a b, patterns[source]? = some a ∧ patterns[target]? = some b ∧ b.name ∈ a.references

/-- Whether a depth is the length of the longest chain of references from a pattern. -/
def HasDepth (patterns : List Pattern) (id depth : Nat) : Prop :=
  IsGreatest {count | Chain (Refers patterns) count id} depth

/-! Linking. -/

/-- Slots are resolved exactly if the names that they refer to are known. -/
theorem resolved_iff {pattern : Pattern} :
    Resolved patterns pattern.components ↔ ∀ name ∈ pattern.references, Known patterns name := by
  constructor
  · intro resolved name member
    -- A name that is referred to is the one of some slot.
    obtain ⟨slot, isSlot, rfl⟩ := Pattern.mem_references.mp member
    exact resolved slot isSlot
  · intro known slot member
    exact known _ (Pattern.mem_references.mpr ⟨slot, member, rfl⟩)

/-- Slots are resolved, or there is a first one among them that is not. -/
theorem resolved_or_unknown (patterns : List Pattern) (components : List Component) :
    Resolved patterns components ∨ ∃ earlier slot later,
      components = earlier ++ .model slot :: later ∧ Resolved patterns earlier ∧
        ¬Known patterns slot.pattern := by
  -- Slots are added at the end, so that one found before stays the first.
  induction components using List.reverseRecOn with
  | nil => exact .inl fun slot member => absurd member List.not_mem_nil
  | append_singleton components component rest =>
    rcases rest with resolved | ⟨earlier, slot, later, split, resolved, unknown⟩
    · by_cases known : Resolved patterns [component]
      · refine .inl fun slot member => ?_
        rcases List.mem_append.mp member with member | member
        · exact resolved slot member
        · exact known slot member
      · cases component with
        | word slot => exact absurd (fun slot member => by simp at member) known
        | model slot =>
          -- All slots before the new one are resolved, so it is the first.
          refine .inr ⟨components, slot, [], rfl, resolved, fun named => known ?_⟩
          intro other member
          cases List.mem_singleton.mp member
          exact named
    · exact .inr ⟨earlier, slot, later ++ [component], by rw [split]; simp, resolved, unknown⟩

/-- There is a first pattern whose slots are not resolved if there is any. -/
theorem exists_first_unresolved {registered : List Pattern}
    (bad : ¬∀ pattern ∈ patterns, Resolved registered pattern.components) :
    ∃ before pattern after, patterns = before ++ pattern :: after ∧
      (∀ other ∈ before, Resolved registered other.components) ∧
        ¬Resolved registered pattern.components := by
  -- The first pattern is the one, or it comes before the one in the rest.
  induction patterns with
  | nil => exact absurd (fun _ member => absurd member List.not_mem_nil) bad
  | cons pattern patterns ih =>
    by_cases here : Resolved registered pattern.components
    · rw [List.forall_mem_cons, not_and] at bad
      obtain ⟨before, other, after, split, resolved, broken⟩ := ih (bad here)
      exact ⟨pattern :: before, other, after, by rw [split, List.cons_append],
        List.forall_mem_cons.mpr ⟨here, resolved⟩, broken⟩
    · exact ⟨[], pattern, patterns, rfl, fun _ member => absurd member List.not_mem_nil, here⟩

section Linking

variable {directory : Directory} {pattern : Pattern} {id : Nat} {graph grown : ReferenceGraph}

/-- The references of a pattern are added to a graph that names the pattern. -/
theorem linkReferences_ok {names : List String}
    (linked : linkReferences directory pattern id graph names = .ok grown) (closed : graph.Closed)
    (named : id ∈ graph.nodes) :
    grown.Closed ∧
      (∀ other, other ∈ grown.nodes ↔
        other ∈ graph.nodes ∨ ∃ name ∈ names, directory.indexOf? name = some other) ∧
      (∀ source target, grown.Refers source target ↔ graph.Refers source target ∨
        (source = id ∧ ∃ name ∈ names, directory.indexOf? name = some target)) ∧
      ∀ name ∈ names, directory.indexOf? name ≠ none := by
  -- Each name adds its reference to the graph that those before it have left.
  induction names generalizing graph with
  | nil =>
    cases linked
    exact ⟨closed, by simp, by simp, by simp⟩
  | cons name names rest =>
    rw [linkReferences] at linked
    cases known : directory.indexOf? name with
    | none => simp [known] at linked
    | some target =>
      simp only [known] at linked
      have still : id ∈ (graph.addReference id target).nodes :=
        ReferenceGraph.mem_nodes_addReference.mpr (.inl named)
      obtain ⟨closed, nodes, edges, all⟩ := rest linked (closed.addReference id target) still
      refine ⟨closed, fun other => ?_, fun source other => ?_, ?_⟩
      · rw [nodes, ReferenceGraph.mem_nodes_addReference]
        grind
      · rw [edges, ReferenceGraph.refers_addReference]
        grind
      · exact List.forall_mem_cons.mpr ⟨by simp [known], all⟩

/-- A first unknown name ends the linking of a pattern. -/
theorem linkReferences_unknown {earlier : List String} {name : String}
    (known : ∀ other ∈ earlier, directory.indexOf? other ≠ none)
    (unknown : directory.indexOf? name = none) (later : List String) :
    linkReferences directory pattern id graph (earlier ++ name :: later) =
      .error (.unknownReference pattern.name name) := by
  -- The known names before it are passed, whatever they do to the graph.
  induction earlier generalizing graph with
  | nil => simp [linkReferences, unknown]
  | cons other earlier rest =>
    obtain ⟨here, known⟩ := List.forall_mem_cons.mp known
    obtain ⟨target, found⟩ := Option.ne_none_iff_exists'.mp here
    simp only [List.cons_append, linkReferences, found]
    exact rest known

/-- A pattern all of whose names are known is linked. -/
theorem exists_linkReferences {names : List String}
    (known : ∀ name ∈ names, directory.indexOf? name ≠ none) :
    ∃ grown, linkReferences directory pattern id graph names = .ok grown := by
  induction names generalizing graph with
  | nil => exact ⟨graph, rfl⟩
  | cons name names rest =>
    obtain ⟨here, known⟩ := List.forall_mem_cons.mp known
    obtain ⟨target, found⟩ := Option.ne_none_iff_exists'.mp here
    simp only [linkReferences, found]
    exact rest known

/-- Patterns are added to a graph with their numbers and their references. -/
theorem linkPatterns_ok {rest : List Pattern}
    (linked : linkPatterns directory id graph rest = .ok grown) (closed : graph.Closed) :
    grown.Closed ∧
      (∀ other, other ∈ grown.nodes ↔ other ∈ graph.nodes ∨ ∃ numbered ∈ rest.zipIdx id,
        other = numbered.2 ∨
          ∃ name ∈ numbered.1.references, directory.indexOf? name = some other) ∧
      (∀ source target, grown.Refers source target ↔ graph.Refers source target ∨
        ∃ numbered ∈ rest.zipIdx id, source = numbered.2 ∧
          ∃ name ∈ numbered.1.references, directory.indexOf? name = some target) ∧
      ∀ pattern ∈ rest, ∀ name ∈ pattern.references, directory.indexOf? name ≠ none := by
  -- Each pattern is added with its references before the next one.
  induction rest generalizing id graph with
  | nil =>
    cases linked
    exact ⟨closed, by simp, by simp, by simp⟩
  | cons pattern rest ih =>
    rw [linkPatterns] at linked
    cases here : linkReferences directory pattern id (graph.addPattern id) pattern.references with
    | error fault => simp [here] at linked
    | ok middle =>
      simp only [here] at linked
      have named : id ∈ (graph.addPattern id).nodes :=
        ReferenceGraph.mem_nodes_addPattern.mpr (.inr rfl)
      obtain ⟨closed, nodes, edges, known⟩ := linkReferences_ok here (closed.addPattern id) named
      obtain ⟨closed, laterNodes, laterEdges, all⟩ := ih linked closed
      refine ⟨closed, fun other => ?_, fun source target => ?_,
        List.forall_mem_cons.mpr ⟨known, all⟩⟩
      · rw [laterNodes, nodes, ReferenceGraph.mem_nodes_addPattern, List.zipIdx_cons,
          List.exists_mem_cons_iff]
        simp only [or_assoc]
      · rw [laterEdges, edges, ReferenceGraph.Refers, ReferenceGraph.edges_addPattern,
          ← ReferenceGraph.Refers, List.zipIdx_cons, List.exists_mem_cons_iff, or_assoc]

/-- A first unknown name in a pattern after those whose names are known ends the linking. -/
theorem linkPatterns_unknown {before after : List Pattern}
    (known : ∀ other ∈ before, ∀ name ∈ other.references, directory.indexOf? name ≠ none)
    {earlier later : List String} {name : String}
    (split : pattern.references = earlier ++ name :: later)
    (earlierKnown : ∀ other ∈ earlier, directory.indexOf? other ≠ none)
    (unknown : directory.indexOf? name = none) :
    linkPatterns directory id graph (before ++ pattern :: after) =
      .error (.unknownReference pattern.name name) := by
  -- The patterns before it are linked, whatever they do to the graph.
  induction before generalizing id graph with
  | nil =>
    rw [List.nil_append, linkPatterns, split, linkReferences_unknown earlierKnown unknown]
  | cons other before rest =>
    obtain ⟨here, known⟩ := List.forall_mem_cons.mp known
    obtain ⟨grown, linked⟩ : ∃ grown, linkReferences directory other id (graph.addPattern id)
        other.references = .ok grown := exists_linkReferences here
    simp only [List.cons_append, linkPatterns, linked]
    exact rest known

/-- Patterns all of whose names are known are linked. -/
theorem exists_linkPatterns {rest : List Pattern}
    (known : ∀ pattern ∈ rest, ∀ name ∈ pattern.references, directory.indexOf? name ≠ none) :
    ∃ grown, linkPatterns directory id graph rest = .ok grown := by
  induction rest generalizing id graph with
  | nil => exact ⟨graph, rfl⟩
  | cons pattern rest ih =>
    obtain ⟨here, known⟩ := List.forall_mem_cons.mp known
    obtain ⟨grown, linked⟩ : ∃ grown, linkReferences directory pattern id (graph.addPattern id)
        pattern.references = .ok grown := exists_linkReferences here
    simp only [linkPatterns, linked]
    exact ih known

end Linking

/-- A number is found for a name exactly if the name is known. -/
theorem indexOf?_ne_none_iff {name : String} :
    (Directory.ofPatterns patterns).indexOf? name ≠ none ↔ Known patterns name := by
  rw [ne_eq, indexOf?_eq_none_iff, Known, Decidable.not_not]

/-- The number found for a name of well named patterns is that of the pattern with that name. -/
theorem WellNamed.indexOf?_eq_some_iff (named : WellNamed patterns) {name : String} {id : Nat} :
    (Directory.ofPatterns patterns).indexOf? name = some id ↔
      ∃ pattern, patterns[id]? = some pattern ∧ pattern.name = name := by
  refine ⟨indexOf?_eq_some, ?_⟩
  rintro ⟨pattern, found, rfl⟩
  have known : Known patterns pattern.name := List.mem_map_of_mem (List.mem_of_getElem? found)
  obtain ⟨other, listed⟩ := Option.ne_none_iff_exists'.mp (indexOf?_ne_none_iff.mpr known)
  obtain ⟨same, there, equal⟩ := indexOf?_eq_some listed
  -- The names are in different places if the numbers are different.
  have nodup := named.nodup
  have left : (patterns.map Pattern.name)[other]? = some pattern.name := by
    rw [List.getElem?_map, there, Option.map_some, equal]
  have right : (patterns.map Pattern.name)[id]? = some pattern.name := by
    rw [List.getElem?_map, found, Option.map_some]
  have inside := (List.getElem?_eq_some_iff.mp left).1
  rw [listed, (List.getElem?_inj inside nodup).mp (left.trans right.symm)]

/-- The linked graph has the number of every pattern and the references between them. -/
theorem link_ok (named : WellNamed patterns) {graph : ReferenceGraph}
    (linked : link patterns = .ok graph) :
    graph.Closed ∧ (∀ id, id ∈ graph.nodes ↔ id < patterns.length) ∧
      graph.Refers = Refers patterns ∧
      ∀ pattern ∈ patterns, Resolved patterns pattern.components := by
  obtain ⟨closed, nodes, edges, known⟩ := linkPatterns_ok linked ReferenceGraph.closed_empty
  refine ⟨closed, fun id => ?_, ?_, fun pattern member => ?_⟩
  · -- A number is that of a pattern, which is added or referred to.
    rw [nodes]
    constructor
    · rintro (none | ⟨⟨pattern, number⟩, member, rfl | ⟨name, _, found⟩⟩)
      · exact absurd none List.not_mem_nil
      · exact (List.getElem?_eq_some_iff.mp (List.mk_mem_zipIdx_iff_getElem?.mp member)).1
      · obtain ⟨target, there, _⟩ := indexOf?_eq_some found
        exact (List.getElem?_eq_some_iff.mp there).1
    · intro inside
      exact .inr ⟨(patterns[id], id),
        List.mk_mem_zipIdx_iff_getElem?.mpr (List.getElem?_eq_getElem inside), .inl rfl⟩
  · -- References by name are references by number, as no name is used twice.
    funext source target
    rw [eq_iff_iff, edges]
    constructor
    · rintro (none | ⟨⟨pattern, number⟩, member, rfl, name, listed, found⟩)
      · exact absurd none List.not_mem_nil
      · obtain ⟨other, there, same⟩ := indexOf?_eq_some found
        exact ⟨pattern, other, List.mk_mem_zipIdx_iff_getElem?.mp member, there,
          by rw [same]; exact listed⟩
    · rintro ⟨a, b, here, there, listed⟩
      exact .inr ⟨(a, source), List.mk_mem_zipIdx_iff_getElem?.mpr here, rfl, b.name, listed,
        named.indexOf?_eq_some_iff.mpr ⟨b, there, rfl⟩⟩
  · refine resolved_iff.mpr fun name listed => ?_
    exact indexOf?_ne_none_iff.mp (known pattern member name listed)

/-- The first slot that refers to no pattern is found. -/
theorem link_unknown {before after : List Pattern} {pattern : Pattern}
    {earlier later : List Component} {slot : ModelSlot}
    (split : patterns = before ++ pattern :: after)
    (resolved : ∀ other ∈ before, Resolved patterns other.components)
    (slots : pattern.components = earlier ++ .model slot :: later)
    (earlierResolved : Resolved patterns earlier) (unknown : ¬Known patterns slot.pattern) :
    link patterns = .error (.unknownReference pattern.name slot.pattern) := by
  -- The names of the slots before come first among the names of the pattern.
  have names : pattern.references = (Pattern.mk "" earlier).references ++
      slot.pattern :: (Pattern.mk "" later).references := by
    simp only [Pattern.references, slots, List.filterMap_append]
    rfl
  have known : ∀ other ∈ before, ∀ name ∈ other.references,
      (Directory.ofPatterns patterns).indexOf? name ≠ none := by
    intro other member name listed
    exact indexOf?_ne_none_iff.mpr (resolved_iff.mp (resolved other member) name listed)
  have earlierKnown : ∀ name ∈ (Pattern.mk "" earlier).references,
      (Directory.ofPatterns patterns).indexOf? name ≠ none := by
    intro name listed
    obtain ⟨slot, isSlot, rfl⟩ := Pattern.mem_references.mp listed
    exact indexOf?_ne_none_iff.mpr (earlierResolved slot isSlot)
  -- The patterns are walked through with their own directory.
  have walked : linkPatterns (.ofPatterns patterns) 0 {} (before ++ pattern :: after) =
      .error (.unknownReference pattern.name slot.pattern) :=
    linkPatterns_unknown known names earlierKnown (indexOf?_eq_none_iff.mpr unknown)
  rwa [← split] at walked

/-- Patterns whose slots are resolved are linked. -/
theorem exists_link (resolved : ∀ pattern ∈ patterns, Resolved patterns pattern.components) :
    ∃ graph, link patterns = .ok graph :=
  exists_linkPatterns fun pattern member name listed =>
    indexOf?_ne_none_iff.mpr (resolved_iff.mp (resolved pattern member) name listed)

/-! Nesting. -/

/-- The nesting of patterns is that of their depths where all of these are within the limit. -/
theorem nestingOf_ok {depths : List (Nat × Nat)}
    (within : ∀ id < patterns.length, ReferenceGraph.depthIn depths id ≤ limit) :
    nestingOf patterns limit depths =
      .ok ((List.range patterns.length).map (ReferenceGraph.depthIn depths)) := by
  unfold nestingOf
  dsimp only
  split
  · rfl
  · rename_i first further deep
    -- A pattern that is listed is beyond the limit, which none of them is.
    have listed : first ∈ first :: further := List.mem_cons_self
    rw [← deep, List.mem_filter, decide_eq_true_eq] at listed
    obtain ⟨member, deep⟩ := listed
    obtain ⟨name, depth⟩ := first
    obtain ⟨id, inside, same⟩ := List.mem_map.mp (List.of_mem_zip member).2
    have bounded := within id (List.mem_range.mp inside)
    have deep : limit < depth := deep
    omega

/-- The patterns that are beyond the limit are listed by name and depth. -/
theorem nestingOf_error {depths : List (Nat × Nat)} {id : Nat} (inside : id < patterns.length)
    (deep : limit < ReferenceGraph.depthIn depths id) :
    ∃ first further,
      nestingOf patterns limit depths = .error (.nestingTooDeep limit first further) ∧
      first :: further = ((patterns.map Pattern.name).zip
        ((List.range patterns.length).map (ReferenceGraph.depthIn depths))).filter
          fun named => limit < named.2 := by
  unfold nestingOf
  dsimp only
  split
  · rename_i none
    rw [List.filter_eq_nil_iff] at none
    -- The pattern beyond the limit is among those that are asked.
    have member : (patterns[id].name, ReferenceGraph.depthIn depths id) ∈
        (patterns.map Pattern.name).zip
          ((List.range patterns.length).map (ReferenceGraph.depthIn depths)) := by
      rw [List.mem_iff_getElem?]
      refine ⟨id, ?_⟩
      simp [inside]
    exact absurd (by simpa using deep) (none _ member)
  · rename_i first further same
    exact ⟨first, further, rfl, same.symm⟩

/-! Building. -/

/-- A registry that is built comes from well named, resolved patterns. -/
theorem of_build (built : build patterns limit = .ok registry) :
    WellNamed patterns ∧ (∀ pattern ∈ patterns, Resolved patterns pattern.components) ∧
      ∃ nesting, registry = assemble patterns nesting := by
  unfold build at built
  -- Each check has been passed, or there would be no registry.
  cases checked : checkNames [] patterns with
  | some fault => simp [checked] at built
  | none =>
    have named := checkNames_eq_none_iff.mp checked
    cases linked : link patterns with
    | error fault => simp [checked, linked] at built
    | ok graph =>
      obtain ⟨closed, nodes, refers, resolved⟩ := link_ok named linked
      refine ⟨named, resolved, ?_⟩
      simp only [checked, linked] at built
      cases ranked : graph.nestingDepths with
      | error id => simp [ranked] at built
      | ok depths =>
        simp only [ranked] at built
        cases nested : nestingOf patterns limit depths with
        | error fault => simp [nested, Except.map] at built
        | ok nesting =>
          simp only [nested, Except.map, Except.ok.injEq] at built
          exact ⟨nesting, built.symm⟩

/-- What the passes over a sentence rely on in a registry. -/
structure Sound (registry : Registry) : Prop where
  /-- Every pattern has a slot and a name of its own. -/
  named : WellNamed registry.patterns
  /-- Every slot for a phrase refers to a pattern. -/
  resolved : ∀ pattern ∈ registry.patterns, Resolved registry.patterns pattern.components
  /-- Every pattern is found by its name. -/
  byName?_name : ∀ pattern ∈ registry.patterns, registry.byName? pattern.name = some pattern
  /-- The part of speech of every head word is known as such. -/
  isHeadPos : ∀ pattern ∈ registry.patterns, ∀ slot ∈ pattern.headWord?,
    registry.isHeadPos slot.pos

/-- A registry has the patterns that it is built from. -/
theorem patterns_of_build (built : build patterns limit = .ok registry) :
    registry.patterns = patterns := by
  obtain ⟨_, _, nesting, rfl⟩ := of_build built
  rfl

/-- A registry that is built is sound. -/
theorem sound_of_build (built : build patterns limit = .ok registry) : registry.Sound := by
  obtain ⟨named, resolved, nesting, rfl⟩ := of_build built
  refine ⟨named, resolved, fun pattern member => ?_, fun pattern member slot isHead => ?_⟩
  · -- Under the name of a pattern stands the pattern with that number, which is itself.
    obtain ⟨id, found⟩ := List.mem_iff_getElem?.mp member
    have listed := named.indexOf?_eq_some_iff.mpr ⟨pattern, found, rfl⟩
    rw [Directory.indexOf?, Option.map_eq_some_iff] at listed
    obtain ⟨⟨other, number⟩, listed, rfl⟩ := listed
    have same := listed
    rw [Directory.ofPatterns, Directory.getElem?_ofNumbered] at same
    have there := List.mk_mem_zipIdx_iff_getElem?.mp (List.mem_of_find?_eq_some same)
    cases there.symm.trans found
    change ((Directory.ofPatterns patterns)[pattern.name]?).map (·.1) = some pattern
    rw [listed, Option.map_some]
  · -- A part of speech is that of a head if some pattern has a head word of it.
    have some : patterns.any fun pattern =>
        pattern.headWord?.any fun other => other.pos = slot.pos := by
      refine List.any_eq_true.mpr ⟨pattern, member, ?_⟩
      rw [Option.mem_def.mp isHead, Option.any_some, decide_eq_true rfl]
    exact List.contains_iff_mem.mpr (List.mem_filter.mpr ⟨PartOfSpeech.mem_all _, some⟩)

/-- The part of speech of every slot for a word is known as used. -/
theorem mem_usedPos_of_build (built : build patterns limit = .ok registry) {pattern : Pattern}
    (member : pattern ∈ registry.patterns) {slot : WordSlot} (isSlot : slot ∈ pattern.wordSlots) :
    slot.pos ∈ registry.usedPos := by
  obtain ⟨_, _, nesting, rfl⟩ := of_build built
  have some : patterns.any fun pattern => pattern.wordSlots.any fun other => other.pos = slot.pos :=
    List.any_eq_true.mpr ⟨pattern, member,
      List.any_eq_true.mpr ⟨slot, isSlot, decide_eq_true rfl⟩⟩
  exact List.mem_filter.mpr ⟨PartOfSpeech.mem_all _, some⟩

/-- What is to be said about patterns: the first fault there is, in a fixed order of kinds. -/
structure Verdict (patterns : List Pattern) (limit : Nat)
    (result : Except GrammarError Registry) : Prop where
  /-- The first pattern without a slot or with the name of an earlier one comes first of all. -/
  spoiled : ¬WellNamed patterns → ∃ before pattern after, patterns = before ++ pattern :: after ∧
    WellNamed before ∧ Spoiled before pattern ∧
    result = .error (if pattern.components = [] then .emptyPattern pattern.name
      else .duplicatePattern pattern.name)
  /-- Next comes the first slot of the first pattern that refers to no pattern. -/
  unknown : WellNamed patterns → ¬(∀ pattern ∈ patterns, Resolved patterns pattern.components) →
    ∃ before pattern after earlier slot later, patterns = before ++ pattern :: after ∧
      (∀ other ∈ before, Resolved patterns other.components) ∧
      pattern.components = earlier ++ .model slot :: later ∧ Resolved patterns earlier ∧
      ¬Known patterns slot.pattern ∧
      result = .error (.unknownReference pattern.name slot.pattern)
  /-- Next comes a pattern that refers to itself, directly or through others. -/
  cyclic : WellNamed patterns → (∀ pattern ∈ patterns, Resolved patterns pattern.components) →
    (∃ id, Relation.TransGen (Refers patterns) id id) →
    ∃ id pattern, patterns[id]? = some pattern ∧ Relation.TransGen (Refers patterns) id id ∧
      result = .error (.referenceCycle pattern.name)
  /-- Next come the patterns beyond the limit, each with the length of its longest chain. -/
  deep : WellNamed patterns → (∀ pattern ∈ patterns, Resolved patterns pattern.components) →
    (¬∃ id, Relation.TransGen (Refers patterns) id id) →
    (∃ id < patterns.length, ∃ depth, HasDepth patterns id depth ∧ limit < depth) →
    ∃ first further, result = .error (.nestingTooDeep limit first further) ∧
      ∀ name depth, (name, depth) ∈ first :: further ↔
        ∃ id pattern, patterns[id]? = some pattern ∧ pattern.name = name ∧
          HasDepth patterns id depth ∧ limit < depth
  /-- The only pattern beyond the limit is the only one that is named. -/
  deepest : WellNamed patterns → (∀ pattern ∈ patterns, Resolved patterns pattern.components) →
    (¬∃ id, Relation.TransGen (Refers patterns) id id) →
    ∀ id pattern depth, patterns[id]? = some pattern → HasDepth patterns id depth →
      limit < depth →
      (∀ other < patterns.length, ∀ beyond, HasDepth patterns other beyond → limit < beyond →
        other = id) →
      result = .error (.nestingTooDeep limit (pattern.name, depth) [])
  /-- Patterns without any such fault are registered. -/
  accepted : WellNamed patterns → (∀ pattern ∈ patterns, Resolved patterns pattern.components) →
    (¬∃ id, Relation.TransGen (Refers patterns) id id) →
    (¬∃ id < patterns.length, ∃ depth, HasDepth patterns id depth ∧ limit < depth) →
    ∃ registry, result = .ok registry

/-- Well named, resolved patterns are judged by the graph of their references. -/
theorem exists_graph (named : WellNamed patterns)
    (resolved : ∀ pattern ∈ patterns, Resolved patterns pattern.components) :
    ∃ graph : ReferenceGraph, graph.Closed ∧ (∀ id, id ∈ graph.nodes ↔ id < patterns.length) ∧
      graph.Refers = Refers patterns ∧
      (∀ id, graph.nestingDepths = .error id →
        ∀ limit, build patterns limit = .error (.referenceCycle (nameAt patterns id))) ∧
      ∀ depths, graph.nestingDepths = .ok depths →
        ∀ limit, build patterns limit =
          (nestingOf patterns limit depths).map (assemble patterns) := by
  obtain ⟨graph, linked⟩ := exists_link resolved
  obtain ⟨closed, nodes, refers, _⟩ := link_ok named linked
  refine ⟨graph, closed, nodes, refers, fun id ranked limit => ?_, fun depths ranked limit => ?_⟩
  · simp only [build, checkNames_eq_none_iff.mpr named, linked, ranked]
  · simp only [build, checkNames_eq_none_iff.mpr named, linked, ranked]

/-- Patterns that lead to one that leads back to itself are refused for it. -/
theorem build_cyclic (named : WellNamed patterns)
    (resolved : ∀ pattern ∈ patterns, Resolved patterns pattern.components)
    (cyclic : ∃ id, Relation.TransGen (Refers patterns) id id) :
    ∃ id pattern, patterns[id]? = some pattern ∧ Relation.TransGen (Refers patterns) id id ∧
      build patterns limit = .error (.referenceCycle pattern.name) := by
  obtain ⟨graph, closed, nodes, refers, refused, _⟩ := exists_graph named resolved
  obtain ⟨id, reaches⟩ := cyclic
  cases ranked : graph.nestingDepths with
  | ok depths =>
    -- Depths are found only where nothing leads back to itself.
    have acyclic := (ReferenceGraph.nestingDepths_ok closed ranked).1
    rw [← refers] at reaches
    exact absurd reaches (acyclic id)
  | error source =>
    -- The pattern that is refused refers to something, so it has a number of its own.
    have back := ReferenceGraph.nestingDepths_error closed ranked
    obtain ⟨target, first, _⟩ := Relation.TransGen.head'_iff.mp back
    have inside := (nodes source).mp (closed.source_mem source target first)
    refine ⟨source, patterns[source], List.getElem?_eq_getElem inside, refers ▸ back, ?_⟩
    rw [refused source ranked, nameAt, List.getElem?_eq_getElem inside, Option.map_some,
      Option.getD_some]

/-- Without a cycle the depths of all patterns are found. -/
theorem exists_depths (named : WellNamed patterns)
    (resolved : ∀ pattern ∈ patterns, Resolved patterns pattern.components)
    (acyclic : ¬∃ id, Relation.TransGen (Refers patterns) id id) :
    ∃ depths : List (Nat × Nat),
      (∀ id < patterns.length, HasDepth patterns id (ReferenceGraph.depthIn depths id)) ∧
      ∀ limit, build patterns limit =
        (nestingOf patterns limit depths).map (assemble patterns) := by
  obtain ⟨graph, closed, nodes, refers, _, judged⟩ := exists_graph named resolved
  cases ranked : graph.nestingDepths with
  | error source =>
    -- What is refused would be a cycle, and there is none.
    have back := ReferenceGraph.nestingDepths_error closed ranked
    rw [ReferenceGraph.Reaches, refers] at back
    exact absurd ⟨source, back⟩ acyclic
  | ok depths =>
    have greatest := (ReferenceGraph.nestingDepths_ok closed ranked).2
    refine ⟨depths, fun id inside => ?_, judged depths ranked⟩
    rw [HasDepth, ← refers]
    exact greatest id ((nodes id).mpr inside)

/-- A registry lists a depth within the limit for each pattern. -/
theorem nesting_of_build (built : build patterns limit = .ok registry) :
    ∃ nesting, registry = assemble patterns nesting ∧ nesting.length = patterns.length ∧
      ∀ id depth, nesting[id]? = some depth → HasDepth patterns id depth ∧ depth ≤ limit := by
  obtain ⟨named, resolved, _⟩ := of_build built
  -- What is registered has no cycle, and nothing beyond the limit.
  have acyclic : ¬∃ id, Relation.TransGen (Refers patterns) id id := by
    intro cyclic
    have refused : ∃ fault, build patterns limit = .error fault := by
      obtain ⟨_, _, _, _, refused⟩ := build_cyclic named resolved cyclic
      exact ⟨_, refused⟩
    obtain ⟨fault, refused⟩ := refused
    cases built.symm.trans refused
  obtain ⟨depths, hasDepth, judged⟩ := exists_depths named resolved acyclic
  have within : ∀ id < patterns.length, ReferenceGraph.depthIn depths id ≤ limit := by
    intro id inside
    by_contra deep
    obtain ⟨first, further, failed, _⟩ := nestingOf_error inside (Nat.lt_of_not_le deep)
    rw [judged, failed] at built
    cases built
  rw [judged, nestingOf_ok within] at built
  cases built
  refine ⟨_, rfl, by rw [List.length_map, List.length_range], fun id depth listed => ?_⟩
  -- The depth at an index is the one found for the pattern with that number.
  obtain ⟨inside, rfl⟩ := List.getElem?_eq_some_iff.mp listed
  rw [List.length_map, List.length_range] at inside
  rw [List.getElem_map, List.getElem_range]
  exact ⟨hasDepth id inside, within id inside⟩

/-- The nesting depth of a registered pattern is the length of its longest chain of references. -/
theorem hasDepth_of_build (built : build patterns limit = .ok registry) {id : Nat}
    (inside : id < patterns.length) :
    ∃ depth, registry.nestingDepth? id = some depth ∧ HasDepth patterns id depth := by
  obtain ⟨nesting, rfl, length, depths⟩ := nesting_of_build built
  have listed : nesting[id]? = some _ := List.getElem?_eq_getElem (length ▸ inside)
  exact ⟨_, listed, (depths id _ listed).1⟩

/-- Patterns beyond the limit are refused, and listed with their depths. -/
theorem build_deep (named : WellNamed patterns)
    (resolved : ∀ pattern ∈ patterns, Resolved patterns pattern.components)
    (acyclic : ¬∃ id, Relation.TransGen (Refers patterns) id id)
    (deep : ∃ id < patterns.length, ∃ depth, HasDepth patterns id depth ∧ limit < depth) :
    ∃ first further, build patterns limit = .error (.nestingTooDeep limit first further) ∧
      (first :: further).Nodup ∧
      ∀ name depth, (name, depth) ∈ first :: further ↔
        ∃ id pattern, patterns[id]? = some pattern ∧ pattern.name = name ∧
          HasDepth patterns id depth ∧ limit < depth := by
  obtain ⟨depths, hasDepth, judged⟩ := exists_depths named resolved acyclic
  obtain ⟨id, inside, depth, greatest, beyond⟩ := deep
  rw [greatest.unique (hasDepth id inside)] at beyond
  obtain ⟨first, further, failed, listed⟩ := nestingOf_error inside beyond
  refine ⟨first, further, by rw [judged, failed]; rfl, ?_, fun name depth => ?_⟩
  · rw [listed]
    -- The names are different, so no entry is there twice.
    refine List.Nodup.filter _ (List.Nodup.of_map Prod.fst ?_)
    rw [List.map_fst_zip (by simp)]
    exact named.nodup
  · rw [listed, List.mem_filter, decide_eq_true_eq, List.mem_iff_getElem?]
    -- An entry has its name and its depth from the pattern with the same number.
    constructor
    · rintro ⟨⟨other, found⟩, beyond⟩
      obtain ⟨isName, isDepth⟩ := List.getElem?_zip_eq_some.mp found
      rw [List.getElem?_map, Option.map_eq_some_iff] at isName isDepth
      obtain ⟨pattern, there, same⟩ := isName
      obtain ⟨number, isNumber, same'⟩ := isDepth
      obtain ⟨inside, equal⟩ := List.getElem?_eq_some_iff.mp isNumber
      rw [List.length_range] at inside
      rw [List.getElem_range] at equal
      subst equal
      cases same'
      exact ⟨other, pattern, there, same, hasDepth other inside, beyond⟩
    · rintro ⟨other, pattern, there, same, greatest, beyond⟩
      have inside := (List.getElem?_eq_some_iff.mp there).1
      rw [greatest.unique (hasDepth other inside)] at beyond ⊢
      refine ⟨⟨other, List.getElem?_zip_eq_some.mpr ⟨?_, ?_⟩⟩, beyond⟩
      · rw [List.getElem?_map, there, Option.map_some, same]
      · rw [List.getElem?_map, List.getElem?_range inside, Option.map_some]

/-- Building judges patterns by their first fault and registers those that have none. -/
theorem build_verdict (patterns : List Pattern) (limit : Nat) :
    Verdict patterns limit (build patterns limit) where
  spoiled bad := by
    obtain ⟨before, pattern, after, split, named, spoiled⟩ :=
      (wellNamed_or_spoiled patterns).resolve_left bad
    refine ⟨before, pattern, after, split, named, spoiled, ?_⟩
    simp only [build, split, checkNames_spoiled named spoiled]
  unknown named bad := by
    obtain ⟨before, pattern, after, split, resolved, broken⟩ := exists_first_unresolved bad
    obtain ⟨earlier, slot, later, slots, earlierResolved, missing⟩ :=
      (resolved_or_unknown patterns pattern.components).resolve_left broken
    refine ⟨before, pattern, after, earlier, slot, later, split, resolved, slots, earlierResolved,
      missing, ?_⟩
    simp only [build, checkNames_eq_none_iff.mpr named,
      link_unknown split resolved slots earlierResolved missing]
  cyclic named resolved cyclic := build_cyclic named resolved cyclic
  deep named resolved acyclic deep := by
    obtain ⟨first, further, failed, _, listed⟩ := build_deep named resolved acyclic deep
    exact ⟨first, further, failed, listed⟩
  deepest named resolved acyclic id pattern depth found greatest beyond only := by
    have inside := (List.getElem?_eq_some_iff.mp found).1
    obtain ⟨first, further, failed, nodup, listed⟩ :=
      build_deep named resolved acyclic ⟨id, inside, depth, greatest, beyond⟩
    -- Every listed pattern is the one beyond the limit, and no entry is listed twice.
    have same : ∀ entry ∈ first :: further, entry = (pattern.name, depth) := by
      rintro ⟨name, length⟩ member
      obtain ⟨other, its, there, rfl, otherGreatest, otherBeyond⟩ :=
        (listed name length).mp member
      have otherInside := (List.getElem?_eq_some_iff.mp there).1
      obtain rfl := only other otherInside length otherGreatest otherBeyond
      cases found.symm.trans there
      rw [greatest.unique otherGreatest]
    have single : further = [] := by
      refine List.eq_nil_iff_forall_not_mem.mpr fun entry member => ?_
      have equal := (same entry (List.mem_cons_of_mem _ member)).trans
        (same first List.mem_cons_self).symm
      exact (List.nodup_cons.mp nodup).1 (equal ▸ member)
    rw [failed, single, same first List.mem_cons_self]
  accepted named resolved acyclic shallow := by
    obtain ⟨depths, hasDepth, judged⟩ := exists_depths named resolved acyclic
    have within : ∀ id < patterns.length, ReferenceGraph.depthIn depths id ≤ limit := by
      intro id inside
      refine Nat.le_of_not_lt fun beyond => shallow ⟨id, inside, _, hasDepth id inside, beyond⟩
    refine ⟨assemble patterns
      ((List.range patterns.length).map (ReferenceGraph.depthIn depths)), ?_⟩
    rw [judged, nestingOf_ok within]
    rfl

end PhraseGrammar.Registry
