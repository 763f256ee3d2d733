import PhraseGrammar.Proofs.GraphChanges

/-! The references of a pattern are listed once each, and those that were first made last lead. -/

namespace PhraseGrammar.ReferenceGraph

/-- Whether a reference of a pattern was first made at a time when another one was there already. -/
def Newer (changes : List Change) (source newer older : Nat) : Prop :=
  ∃ earlier later, changes = earlier ++ .reference source newer :: later ∧
    Stated earlier source older ∧ ¬Stated earlier source newer

variable {graph : ReferenceGraph} {changes before after : List Change} {change : Change}
  {source target newer older id : Nat}

/-- No reference is newer than itself. -/
theorem Newer.ne (isNewer : Newer changes source newer older) : newer ≠ older := by
  obtain ⟨earlier, later, _, there, missing⟩ := isNewer
  rintro rfl
  exact missing there

/-- Which of two references is newer is settled once both are made. -/
theorem Newer.append (isNewer : Newer changes source newer older) (after : List Change) :
    Newer (changes ++ after) source newer older := by
  obtain ⟨earlier, later, rfl, there, missing⟩ := isNewer
  exact ⟨earlier, later ++ after, by simp, there, missing⟩

/-- A reference that has not been stated before is newer than all that have. -/
theorem newer_concat (there : Stated changes source older)
    (missing : ¬Stated changes source newer) :
    Newer (changes ++ [.reference source newer]) source newer older :=
  ⟨changes, [], rfl, there, missing⟩

/-- No reference comes with a pattern, whichever pattern is asked for. -/
theorem references_addPattern (graph : ReferenceGraph) (named id : Nat) :
    (graph.addPattern named).references id = graph.references id := by
  unfold references
  rw [edges_addPattern]

/-- A pattern that is named already changes nothing when it is named again. -/
theorem addPattern_eq_self (known : id ∈ graph.nodes) : graph.addPattern id = graph :=
  if_pos known

/-- A reference that is made already changes nothing when it is made again. -/
theorem Closed.addReference_eq_self (closed : graph.Closed) (refers : graph.Refers source target) :
    graph.addReference source target = graph := by
  have named : (graph.addPattern source).addPattern target = graph := by
    -- Both ends have been named, as the graph is closed.
    rw [addPattern_eq_self (closed.source_mem source target refers),
      addPattern_eq_self (closed.target_mem source target refers)]
  unfold ReferenceGraph.addReference
  dsimp only
  rw [named]
  exact if_pos refers

/-- A reference that is new goes to the front of those of its own pattern. -/
theorem references_addReference (missing : ¬graph.Refers source target) (id : Nat) :
    (graph.addReference source target).references id =
      if source = id then target :: graph.references id else graph.references id := by
  have edges : (graph.addReference source target).edges = (source, target) :: graph.edges := by
    unfold Refers at missing
    simp only [addReference, edges_addPattern, if_neg missing]
  unfold references
  rw [edges, List.filterMap_cons]
  by_cases own : source = id
  · simp [own]
  · simp [own]

/-- The references of a pattern are listed with the newer ones first. -/
theorem pairwise_references (changes : List Change) (id : Nat) :
    ((ofChanges changes).references id).Pairwise (Newer changes id) := by
  -- The changes are added at the end, so that the last one is the newest of all.
  induction changes using List.reverseRecOn with
  | nil => simp [ofChanges, references]
  | append_singleton changes change rest =>
    have kept : ((ofChanges changes).references id).Pairwise (Newer (changes ++ [change]) id) :=
      rest.imp fun isNewer => isNewer.append [change]
    rw [ofChanges_concat]
    cases change with
    | pattern named =>
      rw [Change.apply, references_addPattern]
      exact kept
    | reference source target =>
      by_cases made : (ofChanges changes).Refers source target
      · rw [Change.apply, (closed_ofChanges changes).addReference_eq_self made]
        exact kept
      · rw [Change.apply, references_addReference made]
        by_cases own : source = id
        · subst own
          rw [if_pos rfl]
          refine List.pairwise_cons.mpr ⟨?_, kept⟩
          intro older listed
          -- What is listed has been stated before, and what is put in front of it has not.
          rw [mem_references, refers_ofChanges] at listed
          rw [refers_ofChanges] at made
          exact newer_concat listed made
        · rw [if_neg own]
          exact kept

/-- A change that has been made changes nothing when it is made again. -/
theorem apply_ofChanges (made : change ∈ before) :
    change.apply (ofChanges before) = ofChanges before := by
  cases change with
  | pattern id =>
    apply addPattern_eq_self
    rw [mem_nodes_ofChanges]
    exact ⟨_, made, by simp [Change.named]⟩
  | reference source target =>
    apply (closed_ofChanges before).addReference_eq_self
    rw [refers_ofChanges]
    exact made

/-- A graph does not depend on whether a change is made again later. -/
theorem ofChanges_repeat (made : change ∈ before) (after : List Change) :
    ofChanges (before ++ change :: after) = ofChanges (before ++ after) := by
  have same := apply_ofChanges made
  unfold ofChanges at same ⊢
  rw [List.foldl_append, List.foldl_append, List.foldl_cons, same]

/-- A pattern has no references exactly if none from it has been stated. -/
theorem references_eq_nil_iff :
    (ofChanges changes).references id = [] ↔ ∀ target, ¬Stated changes id target := by
  simp only [List.eq_nil_iff_forall_not_mem, mem_references, refers_ofChanges]

/-- The references of a pattern are those stated, once each, the one whose first statement came
last in front, and a change that is made again changes nothing. -/
theorem references_ofChanges (changes : List Change) :
    (∀ id,
      (∀ target, target ∈ (ofChanges changes).references id ↔ Stated changes id target) ∧
      ((ofChanges changes).references id).Nodup ∧
      ((ofChanges changes).references id).Pairwise (Newer changes id)) ∧
    (∀ before change after, changes = before ++ after → change ∈ before →
      (∀ id, (ofChanges (before ++ change :: after)).references id =
        (ofChanges changes).references id) ∧
      (ofChanges (before ++ change :: after)).nestingDepths =
        (ofChanges changes).nestingDepths) ∧
    ∀ id,
      ((ofChanges changes).references id = [] ↔ ∀ target, ¬Stated changes id target) ∧
      (¬Mentioned changes id → (ofChanges changes).references id = []) := by
  refine ⟨?_, ?_, ?_⟩
  · intro id
    -- Nothing is newer than itself, so that the order leaves no room for repetitions.
    have ordered := pairwise_references changes id
    refine ⟨fun target => ?_, ordered.imp Newer.ne, ordered⟩
    rw [mem_references, refers_ofChanges]
  · rintro before change after rfl made
    -- All that can be asked of a graph is the same, as the graph is.
    rw [ofChanges_repeat made after]
    exact ⟨fun _ => rfl, rfl⟩
  · intro id
    refine ⟨references_eq_nil_iff, ?_⟩
    intro unmentioned
    apply references_eq_nil_iff.mpr
    intro target stated
    -- Whoever makes a reference is mentioned by it.
    exact unmentioned ⟨_, stated, List.mem_cons_self⟩

/-- Of two references the newer one is listed first, also after the older one is made again. -/
theorem references_ofChanges_again :
    let before : List Change := [.reference 7 1, .reference 7 7, .pattern 1]
    let after : List Change := [.reference 2 7]
    (ofChanges (before ++ after)).references 7 = [7, 1] ∧
      Newer (before ++ after) 7 7 1 ∧
      (ofChanges (before ++ .reference 7 1 :: after)).references 7 = [7, 1] ∧
      (ofChanges (before ++ .reference 7 1 :: after)).nestingDepths =
        (ofChanges (before ++ after)).nestingDepths ∧
      (ofChanges (before ++ after)).references 1 = [] ∧
      (ofChanges (before ++ after)).references 5 = [] := by
  intro before after
  obtain ⟨listed, again, none⟩ := references_ofChanges (before ++ after)
  have references : (ofChanges (before ++ after)).references 7 = [7, 1] := rfl
  obtain ⟨-, -, ordered⟩ := listed 7
  rw [references] at ordered
  have newer : Newer (before ++ after) 7 7 1 := by simpa using ordered
  obtain ⟨same, depths⟩ := again before (.reference 7 1) after rfl List.mem_cons_self
  refine ⟨references, newer, (same 7).trans references, depths, rfl, (none 5).2 ?_⟩
  -- Nothing but three other patterns is mentioned at all.
  simp [Mentioned, before, after, Change.named]

end PhraseGrammar.ReferenceGraph
