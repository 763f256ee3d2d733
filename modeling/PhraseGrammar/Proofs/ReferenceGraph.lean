import Mathlib.Data.List.Nodup
import Mathlib.Data.List.Perm.Basic
import Mathlib.Logic.Relation
import Mathlib.Order.Bounds.Basic
import PhraseGrammar.ReferenceGraph

/-! The walk along references finds a cycle if there is one, and else orders the patterns. -/

namespace PhraseGrammar

/-- Whether that many steps of a relation can be made one after the other from a start. -/
def Chain {α : Type} (related : α → α → Prop) : Nat → α → Prop
  | 0, _ => True
  | count + 1, start => ∃ next, related start next ∧ Chain related count next

namespace ReferenceGraph

variable {graph : ReferenceGraph}

/-- Whether one pattern refers to another. -/
def Refers (graph : ReferenceGraph) (source target : Nat) : Prop :=
  (source, target) ∈ graph.edges

/-- Whether a pattern leads to another one by one reference or more. -/
abbrev Reaches (graph : ReferenceGraph) : Nat → Nat → Prop :=
  Relation.TransGen graph.Refers

/-- Every pattern is named once, and both ends of a reference are named. -/
structure Closed (graph : ReferenceGraph) : Prop where
  /-- No pattern is named twice. -/
  nodup : graph.nodes.Nodup
  /-- The source of a reference is named. -/
  source_mem : ∀ source target, graph.Refers source target → source ∈ graph.nodes
  /-- The target of a reference is named. -/
  target_mem : ∀ source target, graph.Refers source target → target ∈ graph.nodes

/-- The references of a pattern are those that it makes. -/
theorem mem_references {source target : Nat} :
    target ∈ graph.references source ↔ graph.Refers source target := by
  rw [references, List.mem_filterMap]
  constructor
  · rintro ⟨⟨first, second⟩, member, same⟩
    simp only [Option.ite_none_right_eq_some, Option.some.injEq] at same
    obtain ⟨rfl, rfl⟩ := same
    exact member
  · intro refers
    exact ⟨(source, target), refers, if_pos rfl⟩

/-- The referrers of a pattern are those that refer to it. -/
theorem mem_referrers {source target : Nat} :
    source ∈ graph.referrers target ↔ graph.Refers source target := by
  rw [referrers, List.mem_filterMap]
  constructor
  · rintro ⟨⟨first, second⟩, member, same⟩
    simp only [Option.ite_none_right_eq_some, Option.some.injEq] at same
    obtain ⟨rfl, rfl⟩ := same
    exact member
  · intro refers
    exact ⟨(source, target), refers, if_pos rfl⟩

/-- The empty graph is closed. -/
theorem closed_empty : ({} : ReferenceGraph).Closed :=
  -- There is no reference whose ends could be missing.
  ⟨List.nodup_nil, fun _ _ refers => absurd refers List.not_mem_nil,
    fun _ _ refers => absurd refers List.not_mem_nil⟩

/-- A pattern that is added is named, and those named before stay so. -/
theorem mem_nodes_addPattern {id other : Nat} :
    other ∈ (graph.addPattern id).nodes ↔ other ∈ graph.nodes ∨ other = id := by
  unfold addPattern
  split
  · rename_i known
    -- The graph stays as it is if the pattern was named before.
    refine ⟨.inl, fun named => ?_⟩
    rcases named with before | rfl
    · exact before
    · exact known
  · rw [List.mem_append, List.mem_singleton]

/-- No reference comes with a pattern. -/
theorem edges_addPattern (graph : ReferenceGraph) (id : Nat) :
    (graph.addPattern id).edges = graph.edges := by
  unfold addPattern
  split <;> rfl

/-- A closed graph stays closed when a pattern is added. -/
theorem Closed.addPattern (closed : graph.Closed) (id : Nat) : (graph.addPattern id).Closed := by
  -- No reference is new, so the ends of every one are named already.
  have same : ∀ source target, (graph.addPattern id).Refers source target →
      graph.Refers source target := by
    intro source target refers
    rwa [Refers, edges_addPattern] at refers
  refine ⟨?_, fun source target refers => ?_, fun source target refers => ?_⟩
  · unfold ReferenceGraph.addPattern
    split
    · exact closed.nodup
    · rename_i unknown
      rw [← List.concat_eq_append]
      exact closed.nodup.concat unknown
  · exact mem_nodes_addPattern.mpr (.inl (closed.source_mem source target (same _ _ refers)))
  · exact mem_nodes_addPattern.mpr (.inl (closed.target_mem source target (same _ _ refers)))

/-- The ends of a reference that is added are named, and those named before stay so. -/
theorem mem_nodes_addReference {source target other : Nat} :
    other ∈ (graph.addReference source target).nodes ↔
      other ∈ graph.nodes ∨ other = source ∨ other = target := by
  -- A reference names its ends first, whether it is new or not.
  have named : (graph.addReference source target).nodes =
      ((graph.addPattern source).addPattern target).nodes := by
    unfold addReference
    dsimp only
    split <;> rfl
  rw [named, mem_nodes_addPattern, mem_nodes_addPattern, or_assoc]

/-- A reference that is added is made, besides those made before. -/
theorem refers_addReference {source target first second : Nat} :
    (graph.addReference source target).Refers first second ↔
      graph.Refers first second ∨ (first = source ∧ second = target) := by
  unfold addReference Refers
  dsimp only
  rw [edges_addPattern, edges_addPattern]
  split
  · rename_i known
    rw [edges_addPattern, edges_addPattern]
    -- A reference that was made before is not made again.
    refine ⟨.inl, fun made => ?_⟩
    rcases made with before | ⟨rfl, rfl⟩
    · exact before
    · exact known
  · rw [List.mem_cons, Prod.mk.injEq, or_comm]

/-- A closed graph stays closed when a reference is added. -/
theorem Closed.addReference (closed : graph.Closed) (source target : Nat) :
    (graph.addReference source target).Closed := by
  -- Both ends are named by the time the reference is made.
  have named := ((closed.addPattern source).addPattern target).nodup
  refine ⟨?_, fun first second refers => ?_, fun first second refers => ?_⟩
  · unfold ReferenceGraph.addReference
    dsimp only
    split <;> exact named
  · rw [mem_nodes_addReference]
    rcases refers_addReference.mp refers with before | ⟨same, _⟩
    · exact .inl (closed.source_mem first second before)
    · exact .inr (.inl same)
  · rw [mem_nodes_addReference]
    rcases refers_addReference.mp refers with before | ⟨_, same⟩
    · exact .inl (closed.target_mem first second before)
    · exact .inr (.inr same)

/-! The walk. -/

namespace Task

/-- The pattern that a task is about. -/
def id : Task → Nat
  | enter id => id
  | leave id => id

/-- The pattern that is left once a task is done. -/
def left? : Task → Option Nat
  | enter _ => none
  | leave id => some id

end Task

/-- What a pattern that is to be left refers to, as far as it was not met, is entered before. -/
def Covered (graph : ReferenceGraph) (pending : List Nat) : List Task → List Nat → Prop
  | [], _ => True
  | .enter id :: tasks, above => Covered graph pending tasks (id :: above)
  | .leave id :: tasks, above =>
    (∀ target, graph.Refers id target → target ∈ pending → target ∈ above) ∧
      Covered graph pending tasks above

/-- What a pattern refers to comes after it or leads back to it. -/
def Placed (graph : ReferenceGraph) : List Nat → Prop
  | [] => True
  | id :: rest =>
    (∀ target, graph.Refers id target → target ∈ rest ∨ graph.Reaches target id) ∧
      Placed graph rest

/-- Fewer pending patterns, and as many of them entered before, are covered all the more. -/
theorem Covered.mono {pending fewer : List Nat} {tasks : List Task} {above more : List Nat}
    (kept : ∀ id ∈ fewer, id ∈ pending ∧ (id ∈ above → id ∈ more))
    (covered : Covered graph pending tasks above) : Covered graph fewer tasks more := by
  -- What is above a task grows along the tasks, so it stays general.
  induction tasks generalizing above more with
  | nil => trivial
  | cons task tasks rest =>
    cases task with
    | enter id =>
      refine rest (fun other member => ⟨(kept other member).1, fun found => ?_⟩) covered
      rcases List.mem_cons.mp found with rfl | found
      · exact List.mem_cons_self
      · exact List.mem_cons_of_mem _ ((kept other member).2 found)
    | leave id =>
      refine ⟨fun target refers member => ?_, rest kept covered.2⟩
      exact (kept target member).2 (covered.1 target refers (kept target member).1)

/-- Tasks to enter patterns add these to the ones entered before. -/
theorem covered_enter {pending ids : List Nat} {tasks : List Task} {above : List Nat} :
    Covered graph pending (ids.map .enter ++ tasks) above ↔
      Covered graph pending tasks (ids.reverse ++ above) := by
  -- Each of the patterns is put above those entered before it.
  induction ids generalizing above with
  | nil => rfl
  | cons id ids rest =>
    rw [List.map_cons, List.cons_append, Covered, rest, List.reverse_cons, List.append_assoc,
      List.singleton_append]

/-- What holds at every moment of a walk. -/
structure Walking (graph : ReferenceGraph) (pending left : List Nat) (tasks : List Task) :
    Prop where
  /-- Every pattern is pending, has been left, or is open and will be left. -/
  perm : (pending ++ left ++ tasks.filterMap Task.left?).Perm graph.nodes
  /-- An open pattern leads to all that is done before it is left. -/
  open_reaches : tasks.Pairwise fun above below =>
    ∀ id ∈ below.left?, graph.Reaches id above.id
  /-- What an open pattern refers to has been met or will be entered before it is left. -/
  covered : Covered graph pending tasks []
  /-- Every pending pattern will be entered. -/
  waiting : ∀ id ∈ pending, Task.enter id ∈ tasks
  /-- What a left pattern refers to was left before it or leads back to it. -/
  placed : Placed graph left

namespace Walking

variable {pending left : List Nat} {tasks : List Task} {id : Nat}

/-- Nothing has been met where a walk starts. -/
theorem start (graph : ReferenceGraph) :
    graph.Walking graph.nodes [] (graph.nodes.map .enter) where
  perm := by
    -- Nothing is open yet, since every task is one to enter a pattern.
    have none : (graph.nodes.map Task.enter).filterMap Task.left? = [] := by
      simp [List.filterMap_map, Task.left?, Function.comp_def]
    rw [none, List.append_nil, List.append_nil]
  open_reaches := by
    rw [List.pairwise_map]
    exact List.pairwise_of_forall (fun _ _ _ found => by cases found)
  covered := by
    rw [← List.append_nil (graph.nodes.map Task.enter), covered_enter]
    trivial
  waiting := fun _ member => List.mem_map_of_mem member
  placed := trivial

/-- A pattern that has been met is passed over. -/
theorem skip (walking : graph.Walking pending left (.enter id :: tasks)) (met : id ∉ pending) :
    graph.Walking pending left tasks where
  perm := walking.perm
  open_reaches := (List.pairwise_cons.mp walking.open_reaches).2
  covered := by
    -- The pattern is not pending, so entering it covered nothing.
    have covered : Covered graph pending tasks [id] := walking.covered
    refine covered.mono fun other member => ⟨member, fun found => ?_⟩
    rw [List.mem_singleton.mp found] at member
    exact absurd member met
  waiting := fun other member => by
    rcases List.mem_cons.mp (walking.waiting other member) with same | found
    · cases same
      exact absurd member met
    · exact found
  placed := walking.placed

/-- A pending pattern is opened, and what it refers to is to be entered before it is left. -/
theorem enter (closed : graph.Closed)
    (walking : graph.Walking pending left (.enter id :: tasks)) (found : id ∈ pending) :
    graph.Walking (pending.erase id) left
      ((graph.references id).reverse.map .enter ++ .leave id :: tasks) := by
  obtain ⟨above, later⟩ := List.pairwise_cons.mp walking.open_reaches
  have nodup : pending.Nodup := by
    have all := (walking.perm.nodup_iff.mpr closed.nodup)
    rw [List.append_assoc] at all
    exact all.of_append_left
  refine ⟨?_, ?_, ?_, ?_, walking.placed⟩
  · -- The pattern moves from the pending ones to the open ones.
    have opened : ((graph.references id).reverse.map Task.enter ++ .leave id :: tasks).filterMap
        Task.left? = id :: tasks.filterMap Task.left? := by
      rw [List.filterMap_append, List.filterMap_map]
      simp [Task.left?, Function.comp_def]
    rw [opened]
    refine (List.perm_middle).trans (List.Perm.trans ?_ walking.perm)
    rw [← List.cons_append, ← List.cons_append]
    exact ((List.perm_cons_erase found).symm.append_right left).append_right _
  · rw [List.pairwise_append]
    refine ⟨?_, List.pairwise_cons.mpr ⟨above, later⟩, ?_⟩
    · rw [List.pairwise_map]
      exact List.pairwise_of_forall (fun _ _ _ none => by cases none)
    · -- The new tasks stand above the pattern, which refers to all that they enter.
      intro task member below memberBelow opened isOpen
      obtain ⟨target, listed, rfl⟩ := List.mem_map.mp member
      have refers : graph.Refers id target := mem_references.mp (List.mem_reverse.mp listed)
      rcases List.mem_cons.mp memberBelow with rfl | memberBelow
      · cases isOpen
        exact .single refers
      · exact (above below memberBelow opened isOpen).tail refers
  · -- The targets are entered before the pattern is left, which covers them.
    rw [covered_enter, List.reverse_reverse, List.append_nil]
    refine ⟨fun target refers _ => mem_references.mpr refers, ?_⟩
    have covered : Covered graph pending tasks [id] := walking.covered
    refine covered.mono fun other member => ⟨List.mem_of_mem_erase member, fun same => ?_⟩
    exact absurd (List.mem_singleton.mp same) (nodup.mem_erase_iff.mp member).1
  · -- The pattern that was to be entered is the one that is no longer pending.
    intro other member
    obtain ⟨different, member⟩ := nodup.mem_erase_iff.mp member
    rcases List.mem_cons.mp (walking.waiting other member) with same | found
    · cases same
      exact absurd rfl different
    · exact List.mem_append_right _ (List.mem_cons_of_mem _ found)

/-- An open pattern is left once all that it refers to has been met. -/
theorem leave (closed : graph.Closed)
    (walking : graph.Walking pending left (.leave id :: tasks)) :
    graph.Walking pending (id :: left) tasks := by
  obtain ⟨above, later⟩ := List.pairwise_cons.mp walking.open_reaches
  obtain ⟨met, covered⟩ := walking.covered
  refine ⟨?_, later, covered, ?_, ?_, walking.placed⟩
  · -- The pattern moves from the open ones to those that were left.
    refine List.Perm.trans ?_ walking.perm
    have opened : (Task.leave id :: tasks).filterMap Task.left? =
        id :: tasks.filterMap Task.left? := rfl
    rw [opened, List.append_assoc, List.append_assoc, List.cons_append]
    exact (List.perm_middle.symm).append_left pending
  · intro other member
    rcases List.mem_cons.mp (walking.waiting other member) with same | found
    · cases same
    · exact found
  · -- A target that was not left before is still open and therefore leads to the pattern.
    intro target refers
    have named := walking.perm.mem_iff.mpr (closed.target_mem id target refers)
    rw [List.mem_append, List.mem_append] at named
    rcases named with (pending | left) | opened
    · exact absurd (met target refers pending) List.not_mem_nil
    · exact .inl left
    · obtain ⟨task, member, isOpen⟩ := List.mem_filterMap.mp opened
      rcases List.mem_cons.mp member with rfl | member
      · cases isOpen
        exact .inr (.single refers)
      · exact .inr (above task member target isOpen)

/-- A walk that ends has left every pattern once, each after what it refers to or on a cycle. -/
theorem ends (closed : graph.Closed) (walking : graph.Walking pending left tasks) :
    match graph.walk pending left tasks with
    | .ok order => order.Perm graph.nodes ∧ Placed graph order
    | .error id => graph.Refers id id := by
  -- The induction is on the tasks in the way the walk works them off.
  fun_induction graph.walk pending left tasks with
  | case1 pending left =>
    have none : pending = [] := by
      refine List.eq_nil_iff_forall_not_mem.mpr fun other member => ?_
      exact absurd (walking.waiting other member) List.not_mem_nil
    have perm := walking.perm
    rw [none, List.nil_append, List.filterMap_nil, List.append_nil] at perm
    exact ⟨perm, walking.placed⟩
  | case2 pending left id tasks rest => exact rest (walking.leave closed)
  | case3 pending left id tasks found shorter targets itself => exact mem_references.mp itself
  | case4 pending left id tasks found shorter targets other rest =>
    exact rest (walking.enter closed found)
  | case5 pending left id tasks met rest => exact rest (walking.skip met)

end Walking

/-! The order. -/

/-- Whether all that refers to the patterns of an order comes before them in it. -/
def Sorted (graph : ReferenceGraph) (before : List Nat) : List Nat → Prop
  | [] => True
  | id :: rest =>
    (∀ source, graph.Refers source id → source ∈ before) ∧ Sorted graph (id :: before) rest

/-- Without a misplaced referrer an order is sorted. -/
theorem sorted_of_misplaced? {before order : List Nat}
    (none : graph.misplaced? before order = none) : graph.Sorted before order := by
  -- The patterns before the rest of the order grow with every step.
  induction order generalizing before with
  | nil => trivial
  | cons id rest ih =>
    rw [misplaced?] at none
    split at none
    · cases none
    · rename_i clean
      refine ⟨fun source refers => ?_, ih none⟩
      rw [List.getLast?_eq_none_iff, List.filter_eq_nil_iff] at clean
      simpa using clean source (mem_referrers.mpr refers)

/-- A misplaced referrer of a pattern does not come before it. -/
theorem refers_of_misplaced? {before order : List Nat} {source : Nat}
    (found : graph.misplaced? before order = some source) :
    ∃ front id back, order = front ++ id :: back ∧ graph.Refers source id ∧
      source ∉ before ∧ source ∉ front := by
  induction order generalizing before with
  | nil => cases found
  | cons id rest ih =>
    rw [misplaced?] at found
    split at found
    · -- The last of the referrers that do not come before the first pattern is found.
      rename_i referrer last
      cases found
      obtain ⟨listed, fresh⟩ := List.mem_filter.mp (List.mem_of_getLast? last)
      exact ⟨[], id, rest, rfl, mem_referrers.mp listed, by simpa using fresh, List.not_mem_nil⟩
    · obtain ⟨front, target, back, split, refers, notBefore, notFront⟩ := ih found
      obtain ⟨different, notBefore⟩ := not_or.mp (mt List.mem_cons.mpr notBefore)
      refine ⟨id :: front, target, back, by rw [split, List.cons_append], refers, notBefore, ?_⟩
      exact fun member => (List.mem_cons.mp member).elim different notFront

/-- What comes after a part of a placed order is placed. -/
theorem Placed.of_append {front back : List Nat} (placed : Placed graph (front ++ back)) :
    Placed graph back := by
  induction front with
  | nil => exact placed
  | cons id front rest => exact rest placed.2

/-- A misplaced referrer in a placed order of all patterns leads back to itself. -/
theorem reaches_of_misplaced? (closed : graph.Closed) {order : List Nat} {source : Nat}
    (perm : order.Perm graph.nodes) (placed : Placed graph order)
    (found : graph.misplaced? [] order = some source) : graph.Reaches source source := by
  obtain ⟨front, id, back, split, refers, _, notFront⟩ := refers_of_misplaced? found
  have nodup : order.Nodup := perm.nodup_iff.mpr closed.nodup
  have member : source ∈ order := perm.mem_iff.mpr (closed.source_mem source id refers)
  subst split
  rcases List.mem_cons.mp ((List.mem_append.mp member).resolve_left notFront) with rfl | later
  · exact .single refers
  · -- The referrer was left before what it refers to, which therefore leads to it.
    obtain ⟨between, after, rfl⟩ := List.append_of_mem later
    have behind : Placed graph (between ++ source :: after) := placed.of_append.2
    have here : Placed graph (source :: after) := behind.of_append
    rcases here.1 id refers with member | back
    · have twice := (List.nodup_cons.mp nodup.of_append_right).1
      exact absurd (List.mem_append_right between (List.mem_cons_of_mem source member)) twice
    · exact back.head refers

/-- What comes before a pattern of a sorted order refers to it. -/
theorem Sorted.mem_of_refers {before order front back : List Nat} {source target : Nat}
    (sorted : graph.Sorted before order) (split : order = front ++ target :: back)
    (refers : graph.Refers source target) : source ∈ front ∨ source ∈ before := by
  induction order generalizing before front with
  | nil => simp at split
  | cons id rest ih =>
    -- The target is the first pattern of the order, or it stands in the rest of it.
    cases front with
    | nil =>
      obtain ⟨rfl, rfl⟩ := List.cons.inj split
      exact .inr (sorted.1 source refers)
    | cons first front =>
      rw [List.cons_append] at split
      obtain ⟨rfl, later⟩ := List.cons.inj split
      rcases ih sorted.2 later with member | member
      · exact .inl (List.mem_cons_of_mem _ member)
      · rcases List.mem_cons.mp member with rfl | member
        · exact .inl List.mem_cons_self
        · exact .inr member

/-- Whether all that the patterns of an order refer to comes after them in it. -/
def Descending (graph : ReferenceGraph) : List Nat → Prop
  | [] => True
  | id :: rest =>
    id ∉ rest ∧ (∀ target, graph.Refers id target → target ∈ rest) ∧ Descending graph rest

/-- In a sorted order of all patterns, what a pattern refers to comes after it. -/
theorem Sorted.descending (closed : graph.Closed) {order : List Nat}
    (perm : order.Perm graph.nodes) (sorted : graph.Sorted [] order) :
    graph.Descending order := by
  have nodup : order.Nodup := perm.nodup_iff.mpr closed.nodup
  -- The claim is shown for every rest of the order, where what comes before it is known.
  suffices all : ∀ front rest, order = front ++ rest → graph.Descending rest from
    all [] order rfl
  intro front rest split
  induction rest generalizing front with
  | nil => trivial
  | cons id rest ih =>
    have distinct := split ▸ nodup
    refine ⟨(List.nodup_cons.mp distinct.of_append_right).1, fun target refers => ?_,
      ih (front ++ [id]) (by rw [split]; simp)⟩
    have once : id ∉ front := fun member =>
      List.disjoint_of_nodup_append distinct member List.mem_cons_self
    have member : target ∈ order := perm.mem_iff.mpr (closed.target_mem id target refers)
    rw [split, List.mem_append, List.mem_cons] at member
    -- A target that stood before the pattern would have the pattern before it.
    rcases member with inFront | rfl | inRest
    · obtain ⟨earlier, later, rfl⟩ := List.append_of_mem inFront
      rw [List.append_assoc, List.cons_append] at split
      have before := (sorted.mem_of_refers split refers).resolve_right List.not_mem_nil
      exact absurd (List.mem_append_left _ before) once
    · have before := (sorted.mem_of_refers split refers).resolve_right List.not_mem_nil
      exact absurd before once
    · exact inRest

/-- What comes after a part of a descending order is descending. -/
theorem Descending.of_append {front back : List Nat}
    (descending : graph.Descending (front ++ back)) : graph.Descending back := by
  induction front with
  | nil => exact descending
  | cons id front rest => exact rest descending.2.2

/-- No pattern of a descending order leads back to itself. -/
theorem Descending.not_reaches {order : List Nat} {id : Nat}
    (descending : graph.Descending order) (member : id ∈ order) : ¬graph.Reaches id id := by
  obtain ⟨front, back, rfl⟩ := List.append_of_mem member
  have here : graph.Descending (id :: back) := descending.of_append
  -- Every step from the pattern leads further back in the order.
  have later : ∀ target, graph.Reaches id target → target ∈ back := by
    intro target reaches
    induction reaches with
    | single refers => exact here.2.1 _ refers
    | tail _ refers found =>
      obtain ⟨between, after, split⟩ := List.append_of_mem found
      have there := here.2.2
      rw [split] at there ⊢
      exact List.mem_append_right _
        (List.mem_cons_of_mem _ ((Descending.of_append there).2.1 _ refers))
  exact fun reaches => here.1 (later id reaches)

/-- The order of a graph without an error has every pattern once, before all it refers to. -/
theorem order_ok (closed : graph.Closed) {order : List Nat} (ordered : graph.order = .ok order) :
    order.Perm graph.nodes ∧ graph.Descending order := by
  -- The walk from the start has left all patterns in an order without a fault.
  have ends := (Walking.start graph).ends closed
  unfold ReferenceGraph.order at ordered
  cases walked : graph.walk graph.nodes [] (graph.nodes.map .enter) with
  | error id => simp [walked] at ordered
  | ok left =>
    simp only [walked] at ordered ends
    split at ordered
    · cases ordered
    · rename_i clean
      cases ordered
      exact ⟨ends.1, (sorted_of_misplaced? clean).descending closed ends.1⟩

/-- The pattern with which the order of a graph fails leads back to itself. -/
theorem order_error (closed : graph.Closed) {id : Nat} (failed : graph.order = .error id) :
    graph.Reaches id id := by
  have ends := (Walking.start graph).ends closed
  unfold ReferenceGraph.order at failed
  cases walked : graph.walk graph.nodes [] (graph.nodes.map .enter) with
  | error itself =>
    simp only [walked, Except.error.injEq] at failed ends
    exact failed ▸ .single ends
  | ok left =>
    simp only [walked] at failed ends
    split at failed
    · rename_i referrer found
      -- A referrer that stands too late is on a cycle.
      cases failed
      exact reaches_of_misplaced? closed ends.1 ends.2 found
    · cases failed

/-! The depths. -/

/-- The depth over some patterns is one more than that of the deepest of them. -/
theorem depthOver_spec (depths : List (Nat × Nat)) (targets : List Nat) :
    (∀ target ∈ targets, depthIn depths target + 1 ≤ depthOver depths targets) ∧
      (depthOver depths targets = 0 ∨
        ∃ target ∈ targets, depthOver depths targets = depthIn depths target + 1) := by
  -- The deepest of the patterns is found together with the bound for all of them.
  induction targets with
  | nil => exact ⟨by simp, .inl rfl⟩
  | cons target targets rest =>
    obtain ⟨bound, deepest⟩ := rest
    have whole : depthOver depths (target :: targets) =
        max (depthIn depths target + 1) (depthOver depths targets) := rfl
    refine ⟨fun other member => ?_, .inr ?_⟩
    · rw [whole]
      rcases List.mem_cons.mp member with rfl | member
      · exact Nat.le_max_left _ _
      · exact Nat.le_trans (bound other member) (Nat.le_max_right _ _)
    · rcases deepest with none | ⟨other, member, same⟩
      · exact ⟨target, List.mem_cons_self, by rw [whole, none]; omega⟩
      · -- Either the new one is the deepest of them now, or the old one still is.
        rcases Nat.le_total (depthIn depths target + 1) (depthOver depths targets) with
          below | above
        · refine ⟨other, List.mem_cons_of_mem _ member, ?_⟩
          rw [whole, Nat.max_eq_right below, same]
        · refine ⟨target, List.mem_cons_self, ?_⟩
          rw [whole, Nat.max_eq_left above]

/-- The depth of a pattern of a descending order is the length of its longest chain. -/
theorem Descending.isGreatest_depthIn {order : List Nat} (descending : graph.Descending order)
    {id : Nat} (member : id ∈ order) :
    IsGreatest {count | Chain graph.Refers count id} (depthIn (graph.depthsAlong order) id) := by
  induction order generalizing id with
  | nil => cases member
  | cons first rest ih =>
    obtain ⟨fresh, later, descending⟩ := descending
    by_cases same : id = first
    · subst same
      have here : depthIn (graph.depthsAlong (id :: rest)) id =
          depthOver (graph.depthsAlong rest) (graph.references id) := by
        rw [depthIn, depthsAlong, List.lookup_cons_self, Option.getD_some]
      obtain ⟨bound, deepest⟩ := depthOver_spec (graph.depthsAlong rest) (graph.references id)
      rw [here]
      constructor
      · -- The deepest target has a chain of its depth, before which the reference to it comes.
        rcases deepest with none | ⟨target, listed, deep⟩
        · rw [none]
          trivial
        · have refers := mem_references.mp listed
          rw [deep]
          exact ⟨target, refers, (ih descending (later target refers)).1⟩
      · -- A longer chain would go on from some target for longer than its depth.
        rintro count chain
        cases count with
        | zero => exact Nat.zero_le _
        | succ count =>
          obtain ⟨target, refers, chain⟩ := chain
          have shorter : count ≤ depthIn (graph.depthsAlong rest) target :=
            (ih descending (later target refers)).2 chain
          have listed := bound target (mem_references.mpr refers)
          omega
    · -- The depths of the patterns behind do not change with one more in front.
      have there : depthIn (graph.depthsAlong (first :: rest)) id =
          depthIn (graph.depthsAlong rest) id := by
        have differs : (id == first) = false := beq_eq_false_iff_ne.mpr same
        rw [depthIn, depthsAlong, List.lookup_cons, differs]
        rfl
      rw [there]
      exact ih descending ((List.mem_cons.mp member).resolve_left same)

/-- Depths are found where no pattern leads back to itself, and are those of the longest chains. -/
theorem nestingDepths_ok (closed : graph.Closed) {depths : List (Nat × Nat)}
    (found : graph.nestingDepths = .ok depths) :
    (∀ id, ¬graph.Reaches id id) ∧ ∀ id ∈ graph.nodes,
      IsGreatest {count | Chain graph.Refers count id} (depthIn depths id) := by
  unfold nestingDepths at found
  cases ordered : graph.order with
  | error id => simp [ordered] at found
  | ok order =>
    simp only [ordered, Except.ok.injEq] at found
    obtain ⟨perm, descending⟩ := order_ok closed ordered
    subst found
    refine ⟨fun id reaches => ?_, fun id member => ?_⟩
    · -- A pattern that leads anywhere is named, and so stands in the order.
      have named : id ∈ graph.nodes := by
        obtain ⟨target, refers, _⟩ := Relation.TransGen.head'_iff.mp reaches
        exact closed.source_mem id target refers
      exact descending.not_reaches (perm.mem_iff.mpr named) reaches
    · exact descending.isGreatest_depthIn (perm.mem_iff.mpr member)

/-- The pattern with which the depths fail leads back to itself. -/
theorem nestingDepths_error (closed : graph.Closed) {id : Nat}
    (failed : graph.nestingDepths = .error id) : graph.Reaches id id := by
  unfold nestingDepths at failed
  cases ordered : graph.order with
  | error source =>
    simp only [ordered, Except.error.injEq] at failed
    exact failed ▸ order_error closed ordered
  | ok order => simp [ordered] at failed

end ReferenceGraph

end PhraseGrammar
