/-! Which patterns refer to which, and how deep their references go. -/

namespace PhraseGrammar

/-- References between numbered patterns. -/
structure ReferenceGraph where
  /-- The patterns in the order in which they were first named. -/
  nodes : List Nat := []
  /-- The references, each from a pattern to the one it names, the newest first. -/
  edges : List (Nat × Nat) := []
deriving Repr

namespace ReferenceGraph

/-- The graph that also names a pattern. -/
def addPattern (graph : ReferenceGraph) (id : Nat) : ReferenceGraph :=
  if id ∈ graph.nodes then graph else { graph with nodes := graph.nodes ++ [id] }

/-- The graph that also holds a reference; a reference that is there already is not repeated. -/
def addReference (graph : ReferenceGraph) (source target : Nat) : ReferenceGraph :=
  let named := (graph.addPattern source).addPattern target
  if (source, target) ∈ named.edges then named
  else { named with edges := (source, target) :: named.edges }

/-- The patterns that a pattern refers to, the newest reference first. -/
def references (graph : ReferenceGraph) (id : Nat) : List Nat :=
  graph.edges.filterMap fun edge => if edge.1 = id then some edge.2 else none

/-- The patterns that refer to a pattern, the newest reference first. -/
def referrers (graph : ReferenceGraph) (id : Nat) : List Nat :=
  graph.edges.filterMap fun edge => if edge.2 = id then some edge.1 else none

/-- What is left to do in a walk along the references. -/
inductive Task where
  /-- Go to a pattern, unless it was met before. -/
  | enter (id : Nat)
  /-- Leave a pattern, all of whose references have been followed. -/
  | leave (id : Nat)

/-- Removing a member makes a list shorter. -/
theorem erase_shorter {id : Nat} {pending : List Nat} (found : id ∈ pending) :
    (pending.erase id).length < pending.length := by
  have some := List.length_pos_of_mem found
  rw [List.length_erase_of_mem found]
  omega

/-- The patterns in the reverse of the order in which a walk leaves them, or one that names itself. -/
def walk (graph : ReferenceGraph) (pending left : List Nat) : List Task → Except Nat (List Nat)
  | [] => .ok left
  | .leave id :: tasks => graph.walk pending (id :: left) tasks
  | .enter id :: tasks =>
    -- A pattern that is not pending has been met.
    if found : id ∈ pending then
      have := erase_shorter found
      let targets := graph.references id
      if id ∈ targets then .error id
      -- The oldest reference is followed first.
      else graph.walk (pending.erase id) left (targets.reverse.map .enter ++ .leave id :: tasks)
    else graph.walk pending left tasks
termination_by tasks => (pending.length, tasks.length)

/-- A referrer of some pattern of the order that does not come before it. -/
def misplaced? (graph : ReferenceGraph) (before : List Nat) : List Nat → Option Nat
  | [] => none
  | id :: rest =>
    -- Of several such referrers the one with the oldest reference counts.
    match ((graph.referrers id).filter fun referrer => !before.contains referrer).getLast? with
    | some referrer => some referrer
    | none => graph.misplaced? (id :: before) rest

/-- All patterns, each before those that it refers to, or a pattern on a cycle of references. -/
def order (graph : ReferenceGraph) : Except Nat (List Nat) :=
  match graph.walk graph.nodes [] (graph.nodes.map .enter) with
  | .error id => .error id
  | .ok order =>
    match graph.misplaced? [] order with
    | some referrer => .error referrer
    | none => .ok order

/-- The depth of a pattern among those computed so far, zero for an unknown one. -/
def depthIn (depths : List (Nat × Nat)) (id : Nat) : Nat :=
  (depths.lookup id).getD 0

/-- One more than the deepest reference, or zero without references. -/
def depthOver (depths : List (Nat × Nat)) (targets : List Nat) : Nat :=
  targets.foldr (fun target deepest => max (depthIn depths target + 1) deepest) 0

/-- The depths of the patterns of an order in which every pattern comes before its references. -/
def depthsAlong (graph : ReferenceGraph) : List Nat → List (Nat × Nat)
  | [] => []
  | id :: rest =>
    let depths := graph.depthsAlong rest
    (id, depthOver depths (graph.references id)) :: depths

/-- How many references can be followed one after the other from each pattern. -/
def nestingDepths (graph : ReferenceGraph) : Except Nat (List (Nat × Nat)) :=
  match graph.order with
  | .error id => .error id
  | .ok order => .ok (graph.depthsAlong order)

end ReferenceGraph

end PhraseGrammar
