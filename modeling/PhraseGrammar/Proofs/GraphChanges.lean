import Mathlib.Data.List.Induction
import PhraseGrammar.Proofs.ReferenceGraph

/-! A graph is told by the changes that it results from, and so are the depths of its patterns. -/

namespace PhraseGrammar.ReferenceGraph

/-- What can be done to a graph. -/
inductive Change where
  /-- A pattern is named. -/
  | pattern (id : Nat)
  /-- A reference from one pattern to another is made. -/
  | reference (source target : Nat)

namespace Change

/-- The patterns that a change names. -/
def named : Change → List Nat
  | pattern id => [id]
  | reference source target => [source, target]

/-- The graph after a change. -/
def apply (graph : ReferenceGraph) : Change → ReferenceGraph
  | pattern id => graph.addPattern id
  | reference source target => graph.addReference source target

end Change

/-- The graph that results from changes made one after the other. -/
def ofChanges (changes : List Change) : ReferenceGraph :=
  changes.foldl Change.apply {}

/-- Whether some change names a pattern. -/
def Mentioned (changes : List Change) (id : Nat) : Prop :=
  ∃ change ∈ changes, id ∈ change.named

/-- Whether some change makes a reference from one pattern to another. -/
def Stated (changes : List Change) (source target : Nat) : Prop :=
  .reference source target ∈ changes

variable {graph : ReferenceGraph} {changes : List Change}

/-- The last of the changes is made to the graph that results from those before it. -/
theorem ofChanges_concat (changes : List Change) (change : Change) :
    ofChanges (changes ++ [change]) = change.apply (ofChanges changes) := by
  -- A fold over a list with one more item at its end takes that item last.
  simp [ofChanges]

/-- A graph that results from changes is closed. -/
theorem closed_ofChanges (changes : List Change) : (ofChanges changes).Closed := by
  -- The induction adds changes at the end, where the graph made so far is closed already.
  induction changes using List.reverseRecOn with
  | nil => exact closed_empty
  | append_singleton changes change closed =>
    rw [ofChanges_concat]
    cases change with
    | pattern id => exact closed.addPattern id
    | reference source target => exact closed.addReference source target

/-- A graph names the patterns that the changes mention. -/
theorem mem_nodes_ofChanges {id : Nat} :
    id ∈ (ofChanges changes).nodes ↔ Mentioned changes id := by
  induction changes using List.reverseRecOn with
  | nil => simp [ofChanges, Mentioned]
  | append_singleton changes change rest =>
    -- What a change names is added to what the changes before it have named.
    have split : Mentioned (changes ++ [change]) id ↔
        Mentioned changes id ∨ id ∈ change.named := by
      simp only [Mentioned, List.mem_append, List.mem_singleton]
      constructor
      · rintro ⟨other, member | rfl, named⟩
        · exact .inl ⟨other, member, named⟩
        · exact .inr named
      · rintro (⟨other, member, named⟩ | named)
        · exact ⟨other, .inl member, named⟩
        · exact ⟨change, .inr rfl, named⟩
    rw [ofChanges_concat, split, ← rest]
    cases change with
    | pattern other => simp [Change.apply, Change.named, mem_nodes_addPattern]
    | reference source target => simp [Change.apply, Change.named, mem_nodes_addReference]

/-- A graph holds the references that the changes state. -/
theorem refers_ofChanges : (ofChanges changes).Refers = Stated changes := by
  funext source target
  rw [eq_iff_iff]
  induction changes using List.reverseRecOn with
  | nil => simp [ofChanges, Refers, Stated]
  | append_singleton changes change rest =>
    rw [ofChanges_concat]
    -- Only a change that makes a reference adds to the references made before.
    cases change with
    | pattern other =>
      have same : (Change.apply (ofChanges changes) (.pattern other)).Refers source target ↔
          (ofChanges changes).Refers source target := by
        simp [Change.apply, Refers, edges_addPattern]
      rw [same, rest]
      simp [Stated]
    | reference first second =>
      rw [Change.apply, refers_addReference, rest]
      simp [Stated]

/-- The depths along an order are those of its patterns. -/
theorem map_fst_depthsAlong (graph : ReferenceGraph) (order : List Nat) :
    (graph.depthsAlong order).map Prod.fst = order := by
  induction order with
  | nil => rfl
  | cons id rest ih => simp [depthsAlong, ih]

/-- Whether the depths of all references are there when the depth of a pattern is worked out. -/
def Grounded (graph : ReferenceGraph) : List Nat → Prop
  | [] => True
  | id :: rest =>
    -- The depths that can be looked up by then are those along the rest of the order.
    (∀ target ∈ graph.references id,
      ∃ depth, (graph.depthsAlong rest).lookup target = some depth) ∧ Grounded graph rest

/-- Where every pattern comes before what it refers to, no depth is missing. -/
theorem Descending.grounded {order : List Nat} (descending : graph.Descending order) :
    graph.Grounded order := by
  induction order with
  | nil => trivial
  | cons id rest ih =>
    obtain ⟨_, later, descending⟩ := descending
    refine ⟨?_, ih descending⟩
    -- A target stands in the rest of the order, and so it has a depth among those of the rest.
    intro target listed
    have member : target ∈ (graph.depthsAlong rest).map Prod.fst := by
      rw [map_fst_depthsAlong]
      exact later target (mem_references.mp listed)
    obtain ⟨entry, found, same⟩ := List.mem_map.mp member
    rw [← Option.isSome_iff_exists, List.lookup_isSome_iff]
    exact ⟨entry, found, by simp [same]⟩

/-- The depth of an entry is the one that is looked up under its name. -/
theorem depthIn_of_mem {depths : List (Nat × Nat)} {id depth : Nat}
    (once : (depths.map Prod.fst).Nodup) (member : (id, depth) ∈ depths) :
    depthIn depths id = depth := by
  obtain ⟨front, back, rfl⟩ := List.append_of_mem member
  have found : (front ++ (id, depth) :: back).lookup id = some depth := by
    rw [List.lookup_eq_some_iff]
    refine ⟨front, back, rfl, ?_⟩
    -- An entry under the same name further in front would name the pattern twice.
    intro entry inFront
    rw [bne_iff_ne]
    rintro rfl
    rw [List.map_append, List.map_cons] at once
    exact List.disjoint_of_nodup_append once (List.mem_map_of_mem inFront) List.mem_cons_self
  rw [depthIn, found, Option.getD_some]

/-- What depths say of the changes that a graph results from. -/
structure Measures (changes : List Change) (depths : List (Nat × Nat)) : Prop where
  /-- No pattern leads back to itself. -/
  acyclic : ∀ id, ¬Relation.TransGen (Stated changes) id id
  /-- No pattern has two entries. -/
  nodup : (depths.map Prod.fst).Nodup
  /-- Every pattern that was mentioned has an entry, and no other one has. -/
  entries : ∀ id, id ∈ depths.map Prod.fst ↔ Mentioned changes id
  /-- The depth of a pattern is the number of references on its longest chain. -/
  longest : ∀ id depth, (id, depth) ∈ depths →
    IsGreatest {count | Chain (Stated changes) count id} depth
  /-- Each depth was worked out from depths that were there. -/
  grounded : ∃ order, (ofChanges changes).order = .ok order ∧
    depths = (ofChanges changes).depthsAlong order ∧ (ofChanges changes).Grounded order

/-- Depths are found for a graph exactly if it has no cycle, and a pattern on a cycle otherwise. -/
theorem nestingDepths_ofChanges (changes : List Change) :
    ((∃ depths, (ofChanges changes).nestingDepths = .ok depths) ↔
      ∀ id, ¬Relation.TransGen (Stated changes) id id) ∧
    match (ofChanges changes).nestingDepths with
    | .ok depths => Measures changes depths
    | .error id => Relation.TransGen (Stated changes) id id := by
  have closed := closed_ofChanges changes
  have refers : (ofChanges changes).Refers = Stated changes := refers_ofChanges
  cases ranked : (ofChanges changes).nestingDepths with
  | error id =>
    -- The pattern that is reported is on a cycle, so that no depths are to be found.
    have back : Relation.TransGen (Stated changes) id id := refers ▸ nestingDepths_error closed ranked
    refine ⟨?_, back⟩
    constructor
    · rintro ⟨depths, found⟩
      cases found
    · intro acyclic
      exact absurd back (acyclic id)
  | ok depths =>
    obtain ⟨acyclic, greatest⟩ := nestingDepths_ok closed ranked
    rw [Reaches, refers] at acyclic
    refine ⟨iff_of_true ⟨depths, rfl⟩ acyclic, ?_⟩
    -- The depths are those along an order of all patterns, each before what it refers to.
    obtain ⟨order, ordered, rfl⟩ : ∃ order, (ofChanges changes).order = .ok order ∧
        depths = (ofChanges changes).depthsAlong order := by
      unfold nestingDepths at ranked
      cases ordered : (ofChanges changes).order with
      | error id => simp [ordered] at ranked
      | ok order =>
        simp only [ordered, Except.ok.injEq] at ranked
        exact ⟨order, rfl, ranked.symm⟩
    obtain ⟨perm, descending⟩ := order_ok closed ordered
    have names := map_fst_depthsAlong (ofChanges changes) order
    have once : order.Nodup := perm.nodup_iff.mpr closed.nodup
    refine ⟨acyclic, by rwa [names], ?_, ?_, order, ordered, rfl, descending.grounded⟩
    · intro id
      rw [names, perm.mem_iff, mem_nodes_ofChanges]
    · intro id depth member
      -- An entry can only be that of a pattern of the graph.
      have listed : id ∈ order := by
        rw [← names]
        exact List.mem_map_of_mem member
      have longest := greatest id (perm.mem_iff.mp listed)
      rwa [depthIn_of_mem (by rwa [names]) member, refers] at longest

end PhraseGrammar.ReferenceGraph
