import PhraseGrammar.Proofs.Registry

/-! The nesting depth of a pattern is one more than the greatest among those that it refers to. -/

namespace PhraseGrammar.Registry

variable {patterns : List Pattern} {limit id target depth : Nat} {pattern : Pattern}

/-- A pattern of words refers to no other. -/
theorem not_refers_of_isLeaf (stands : patterns[id]? = some pattern) (isLeaf : pattern.isLeaf) :
    ¬Refers patterns id target := by
  rintro ⟨source, other, there, _, listed⟩
  cases stands.symm.trans there
  rw [Pattern.isLeaf_iff_references.mp isLeaf] at listed
  exact List.not_mem_nil listed

/-- A pattern of phrases refers to some pattern where its slots are resolved. -/
theorem exists_refers (resolved : Resolved patterns pattern.components)
    (stands : patterns[id]? = some pattern) (composite : pattern.isLeaf = false) :
    ∃ target, Refers patterns id target := by
  have some : pattern.references ≠ [] := by
    intro none
    rw [Pattern.isLeaf_iff_references.mpr none] at composite
    cases composite
  -- The first name that is referred to is that of a pattern with a number.
  obtain ⟨name, listed⟩ := List.exists_mem_of_ne_nil _ some
  obtain ⟨other, isOther, rfl⟩ := List.mem_map.mp (resolved_iff.mp resolved name listed)
  obtain ⟨target, there⟩ := List.mem_iff_getElem?.mp isOther
  exact ⟨target, pattern, other, stands, there, listed⟩

/-- A pattern of words has depth zero. -/
theorem hasDepth_zero (stands : patterns[id]? = some pattern) (isLeaf : pattern.isLeaf) :
    HasDepth patterns id 0 := by
  refine ⟨trivial, fun count chain => ?_⟩
  cases count with
  | zero => exact Nat.le_refl 0
  | succ count =>
    -- A chain of one step or more would start with a reference.
    obtain ⟨target, refers, _⟩ := chain
    exact absurd refers (not_refers_of_isLeaf stands isLeaf)

/-- A pattern that refers to others has depth one if all of these have depth zero. -/
theorem hasDepth_one (some : ∃ target, Refers patterns id target)
    (each : ∀ target, Refers patterns id target → HasDepth patterns target 0) :
    HasDepth patterns id 1 := by
  constructor
  · obtain ⟨target, refers⟩ := some
    exact ⟨target, refers, trivial⟩
  · intro count chain
    cases count with
    | zero => exact Nat.zero_le 1
    | succ count =>
      -- After the first reference nothing is left of a chain.
      obtain ⟨target, refers, further⟩ := chain
      exact Nat.succ_le_succ ((each target refers).2 further)

/-- The depth of a pattern that refers to others is one more than the greatest among theirs. -/
theorem HasDepth.eq_succ (hasDepth : HasDepth patterns id depth)
    (some : ∃ target, Refers patterns id target)
    (each : ∀ target, Refers patterns id target → ∃ depth, HasDepth patterns target depth) :
    ∃ deepest, depth = deepest + 1 ∧
      IsGreatest {count | ∃ target, Refers patterns id target ∧ HasDepth patterns target count}
        deepest := by
  obtain ⟨chain, greatest⟩ := hasDepth
  -- A chain from a target is one step longer from the pattern itself.
  have longer : ∀ target count, Refers patterns id target → Chain (Refers patterns) count target →
      count + 1 ≤ depth := by
    intro target count refers chain
    exact greatest ⟨target, refers, chain⟩
  cases depth with
  | zero =>
    obtain ⟨target, refers⟩ := some
    exact absurd (longer target 0 refers trivial) (Nat.not_succ_le_zero 0)
  | succ deepest =>
    refine ⟨deepest, rfl, ?_, ?_⟩
    · -- The longest chain goes on with the longest one from its first target.
      obtain ⟨target, refers, further⟩ := chain
      obtain ⟨count, further', most⟩ := each target refers
      have below : deepest ≤ count := most further
      have above : count + 1 ≤ deepest + 1 := longer target count refers further'
      obtain rfl : count = deepest := by omega
      exact ⟨target, refers, further', most⟩
    · rintro count ⟨target, refers, further, _⟩
      exact Nat.le_of_succ_le_succ (longer target count refers further)

/-! Grammars with a depth stated for each of their patterns. -/

/-- Whether each of some patterns has the depth that is stated for it, as far as references go. -/
def Graded (graded : List (Pattern × Nat)) : Prop :=
  ∀ next ∈ graded,
    (∀ name ∈ next.1.references, ∃ other ∈ graded, other.1.name = name ∧ other.2 < next.2) ∧
      (0 < next.2 → ∃ name ∈ next.1.references, ∃ other ∈ graded,
        other.1.name = name ∧ next.2 = other.2 + 1)

instance (graded : List (Pattern × Nat)) : Decidable (Graded graded) :=
  inferInstanceAs (Decidable (∀ next ∈ graded, _ ∧ _))

namespace Graded

variable {graded : List (Pattern × Nat)} (isGraded : Graded graded)
include isGraded

/-- Every slot for a phrase refers to a pattern. -/
theorem resolved : ∀ pattern ∈ graded.map Prod.fst,
    Resolved (graded.map Prod.fst) pattern.components := by
  intro pattern member
  obtain ⟨next, listed, rfl⟩ := List.mem_map.mp member
  refine resolved_iff.mpr fun name isName => ?_
  obtain ⟨other, isOther, rfl, _⟩ := (isGraded next listed).1 name isName
  exact List.mem_map_of_mem (List.mem_map_of_mem isOther)

/-- From each pattern a chain of references has the length of the depth that is stated. -/
theorem chain {depth : Nat} (stands : graded[id]? = some (pattern, depth)) :
    Chain (Refers (graded.map Prod.fst)) depth id := by
  induction depth generalizing id pattern with
  | zero => trivial
  | succ depth rest =>
    obtain ⟨_, listed, ⟨other, below⟩, isOther, rfl, same⟩ :=
      (isGraded _ (List.mem_of_getElem? stands)).2 (Nat.succ_pos depth)
    obtain ⟨target, there⟩ := List.mem_iff_getElem?.mp isOther
    obtain rfl : depth = below := Nat.succ.inj same
    refine ⟨target, ⟨pattern, other, ?_, ?_, listed⟩, rest there⟩
    · rw [List.getElem?_map, stands, Option.map_some]
    · rw [List.getElem?_map, there, Option.map_some]

variable (named : WellNamed (graded.map Prod.fst))
include named

/-- What a pattern refers to has a lower depth. -/
theorem lower (refers : Refers (graded.map Prod.fst) id target) :
    ∃ next other, graded[id]? = some next ∧ graded[target]? = some other ∧ other.2 < next.2 := by
  obtain ⟨_, _, here, there, listed⟩ := refers
  rw [List.getElem?_map, Option.map_eq_some_iff] at here there
  obtain ⟨next, stands, rfl⟩ := here
  obtain ⟨other, found, rfl⟩ := there
  obtain ⟨same, isListed, name, less⟩ := (isGraded next (List.mem_of_getElem? stands)).1 _ listed
  -- Names tell the patterns apart, so that the one of that name is the one referred to.
  have nodup : (graded.map (Pattern.name ∘ Prod.fst)).Nodup := by
    rw [← List.map_map]
    exact named.nodup
  obtain rfl : same = other :=
    List.inj_on_of_nodup_map nodup isListed (List.mem_of_getElem? found) name
  exact ⟨next, same, stands, found, less⟩

/-- No pattern leads back to itself. -/
theorem acyclic : ¬∃ id, Relation.TransGen (Refers (graded.map Prod.fst)) id id := by
  rintro ⟨id, back⟩
  -- Along references the depths go down, so that none comes again.
  have down : ∀ target, Relation.TransGen (Refers (graded.map Prod.fst)) id target →
      ∃ next other, graded[id]? = some next ∧ graded[target]? = some other ∧ other.2 < next.2 := by
    intro target reaches
    induction reaches with
    | single refers => exact isGraded.lower named refers
    | tail _ refers before =>
      obtain ⟨next, between, stands, passed, less⟩ := before
      obtain ⟨again, other, passedToo, there, lessToo⟩ := isGraded.lower named refers
      cases passed.symm.trans passedToo
      exact ⟨next, other, stands, there, Nat.lt_trans lessToo less⟩
  obtain ⟨next, other, stands, there, less⟩ := down id back
  cases stands.symm.trans there
  exact absurd less (Nat.lt_irrefl _)

/-- The longest chain of references from a pattern has the length that is stated. -/
theorem hasDepth {next : Pattern × Nat} (stands : graded[id]? = some next) :
    HasDepth (graded.map Prod.fst) id next.2 := by
  refine ⟨isGraded.chain stands, fun count chain => ?_⟩
  induction count generalizing id next with
  | zero => exact Nat.zero_le _
  | succ count rest =>
    obtain ⟨target, refers, further⟩ := chain
    obtain ⟨again, other, standsToo, there, less⟩ := isGraded.lower named refers
    cases stands.symm.trans standsToo
    exact Nat.lt_of_le_of_lt (rest there further) less

end Graded

/-- A graded grammar builds with the depths that are stated, wherever these are allowed. -/
theorem build_of_graded {graded : List (Pattern × Nat)}
    (named : WellNamed (graded.map Prod.fst)) (isGraded : Graded graded)
    (room : ∀ next ∈ graded, next.2 ≤ limit) :
    build (graded.map Prod.fst) limit =
      .ok (assemble (graded.map Prod.fst) (graded.map Prod.snd)) := by
  obtain ⟨depths, hasDepth, judged⟩ :=
    exists_depths named isGraded.resolved (isGraded.acyclic named)
  have depth_eq : ∀ id (inside : id < graded.length),
      ReferenceGraph.depthIn depths id = graded[id].2 := by
    intro id inside
    exact (hasDepth id (by rwa [List.length_map])).unique
      (isGraded.hasDepth named (List.getElem?_eq_getElem inside))
  have within : ∀ id < (graded.map Prod.fst).length, ReferenceGraph.depthIn depths id ≤ limit := by
    intro id inside
    rw [List.length_map] at inside
    rw [depth_eq id inside]
    exact room _ (List.getElem_mem inside)
  -- The depths are listed by the numbers of the patterns, and so in their order.
  have nesting : (List.range (graded.map Prod.fst).length).map (ReferenceGraph.depthIn depths) =
      graded.map Prod.snd := by
    refine List.ext_getElem (by simp) fun id inside _ => ?_
    rw [List.length_map, List.length_range, List.length_map] at inside
    rw [List.getElem_map, List.getElem_map, List.getElem_range, depth_eq id inside]
  rw [judged, nestingOf_ok within, nesting]
  rfl

/-- Whether every name that a pattern refers to is that of a pattern of words. -/
def Flat (patterns : List Pattern) : Prop :=
  ∀ pattern ∈ patterns, ∀ name ∈ pattern.references,
    ∃ other ∈ patterns, other.name = name ∧ other.isLeaf

instance (patterns : List Pattern) : Decidable (Flat patterns) :=
  inferInstanceAs (Decidable (∀ pattern ∈ patterns, _))

/-- A pattern with its depth in a flat grammar. -/
def flatDepth (pattern : Pattern) : Pattern × Nat :=
  (pattern, if pattern.isLeaf then 0 else 1)

/-- In a flat grammar patterns of words have depth zero, and those of phrases have depth one. -/
theorem Flat.graded (flat : Flat patterns) : Graded (patterns.map flatDepth) := by
  intro next member
  obtain ⟨pattern, listed, rfl⟩ := List.mem_map.mp member
  -- Whatever is referred to is a pattern of words.
  have words : ∀ name ∈ pattern.references, ∃ other ∈ patterns.map flatDepth,
      other.1.name = name ∧ other.2 = 0 := by
    intro name isName
    obtain ⟨other, isOther, same, isLeaf⟩ := flat pattern listed name isName
    exact ⟨flatDepth other, List.mem_map_of_mem isOther, same, if_pos isLeaf⟩
  by_cases isLeaf : pattern.isLeaf
  · simp [flatDepth, isLeaf, Pattern.isLeaf_iff_references.mp isLeaf]
  · rw [flatDepth, if_neg isLeaf]
    refine ⟨fun name isName => ?_, fun _ => ?_⟩
    · obtain ⟨other, isOther, same, zero⟩ := words name isName
      exact ⟨other, isOther, same, zero ▸ Nat.zero_lt_one⟩
    · obtain ⟨name, isName⟩ := List.exists_mem_of_ne_nil _ fun none =>
        isLeaf (Pattern.isLeaf_iff_references.mpr none)
      obtain ⟨other, isOther, same, zero⟩ := words name isName
      exact ⟨name, isName, other, isOther, same, by rw [zero]⟩

/-- A flat grammar builds wherever any nesting is allowed. -/
theorem build_of_flat (named : WellNamed patterns) (flat : Flat patterns) (room : 0 < limit) :
    build patterns limit =
      .ok (assemble patterns (patterns.map fun pattern => if pattern.isLeaf then 0 else 1)) := by
  have listed : (patterns.map flatDepth).map Prod.fst = patterns := by
    rw [List.map_map]
    exact List.map_id _
  have depths : (patterns.map flatDepth).map Prod.snd =
      patterns.map fun pattern => if pattern.isLeaf then 0 else 1 := List.map_map
  have within : ∀ next ∈ patterns.map flatDepth, next.2 ≤ limit := by
    intro next member
    obtain ⟨pattern, _, rfl⟩ := List.mem_map.mp member
    rw [flatDepth]
    split
    · exact Nat.zero_le limit
    · exact room
  have built := build_of_graded (by rwa [listed]) flat.graded within
  rwa [listed, depths] at built

end PhraseGrammar.Registry
