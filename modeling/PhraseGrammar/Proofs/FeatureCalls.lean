import PhraseGrammar.Proofs.TagOrder

/-! A feature is set in a tag in place: a failing call changes nothing, and none what is set. -/

namespace PhraseGrammar.Morphology.Tag

open Feature (AllAccepted Refused)

/-- What is done to a tag in place; where it fails, the tag is left as it has come to be by then. -/
abbrev Edit := EStateM TagError Tag

/-- Sets a feature of the tag at hand. -/
def put (feature : Feature) : Edit Unit := do
  match Attribute.ofName? feature.1 with
  | none => throw (.unknownFeature feature.1)
  | some a =>
    let tag ← get
    if (tag.value a).isSome then throw (.duplicateFeature feature.1)
    else match Value.ofSpelling? a feature.2 with
      | none => throw (.unknownValue feature.1 feature.2)
      | some v => set (tag.assign v)

/-- Sets features in turn, failures passed over: those that are set, and the last tag. -/
def putEach (tag : Tag) : List Feature → List Feature × Tag
  | [] => ([], tag)
  | feature :: features =>
    -- The next call works on whatever this one leaves.
    match put feature tag with
    | .ok _ grown => (feature :: (putEach grown features).1, (putEach grown features).2)
    | .error _ left => putEach left features

/-- Whether a tag is another one with a value for an attribute that had none. -/
structure Extends (tag : Tag) {a : Attribute} (v : Value a) (grown : Tag) : Prop where
  /-- The attribute was not set. -/
  unset : tag.value a = none
  /-- The attribute has the value. -/
  given : grown.value a = some v
  /-- All other attributes are as they were. -/
  others : ∀ b, b ≠ a → grown.value b = tag.value b
  /-- What the tag says still holds. -/
  accepts : tag.accepts grown = true
  /-- More is said than before. -/
  exceeds : grown.accepts tag = false

variable {tag grown : Tag} {feature : Feature} {features earlier : List Feature} {a : Attribute}

/-- A feature is set in place as it is set in a new tag, or the tag is left as it was. -/
theorem put_eq (feature : Feature) (tag : Tag) :
    put feature tag = match tag.setFeature feature.1 feature.2 with
      | .error error => .error error tag
      | .ok grown => .ok () grown := by
  rw [put, setFeature]
  cases Attribute.ofName? feature.1 with
  | none => rfl
  | some a =>
    -- Both checks come before the tag is touched.
    show (if (tag.value a).isSome then (throw (.duplicateFeature feature.1) : Edit Unit)
      else match Value.ofSpelling? a feature.2 with
        | none => throw (.unknownValue feature.1 feature.2)
        | some v => set (tag.assign v)) tag = _
    dsimp only
    split
    · rfl
    · cases Value.ofSpelling? a feature.2 with
      | none => rfl
      | some v => rfl

/-- Features that are accepted after those of a tag are exactly the ones that can be set in it. -/
theorem put_eq_ok_iff : put feature tag = .ok () grown ↔
    (∀ error, ¬feature.Refused tag.features error) ∧
      grown.HasExactly (tag.features ++ [feature]) := by
  have exactly := tag.hasExactly_features
  have accepted := tag.allAccepted_features
  rw [put_eq]
  by_cases fine : ∀ error, ¬feature.Refused tag.features error
  · obtain ⟨made, set, exactlyMade⟩ := exactly.setFeature_ok accepted fine
    simp only [set, EStateM.Result.ok.injEq, true_and]
    constructor
    · rintro rfl
      exact ⟨fine, exactlyMade⟩
    · exact fun both => exactlyMade.unique both.2
  · -- A refused feature cannot be set.
    refine iff_of_false ?_ fun both => fine both.1
    simp only [not_forall, not_not] at fine
    obtain ⟨error, refused⟩ := fine
    simp [exactly.setFeature_error accepted refused]

/-- A feature cannot be set just for the reason for which it is refused after those of the tag. -/
theorem put_eq_error_iff {error : TagError} {left : Tag} : put feature tag = .error error left ↔
    feature.Refused tag.features error ∧ left = tag := by
  have exactly := tag.hasExactly_features
  have accepted := tag.allAccepted_features
  rw [put_eq]
  constructor
  · intro failed
    by_cases fine : ∀ error, ¬feature.Refused tag.features error
    · obtain ⟨made, set, _⟩ := exactly.setFeature_ok accepted fine
      simp [set] at failed
    · simp only [not_forall, not_not] at fine
      obtain ⟨other, refused⟩ := fine
      -- There is only one reason, which is the one that is reported.
      simp only [exactly.setFeature_error accepted refused, EStateM.Result.error.injEq] at failed
      obtain ⟨rfl, rfl⟩ := failed
      exact ⟨refused, rfl⟩
  · rintro ⟨refused, rfl⟩
    rw [exactly.setFeature_error accepted refused]

/-- A feature is not refused if it gives a value to an attribute that the tag leaves unset. -/
theorem not_refused_features_iff : (∀ error, ¬feature.Refused tag.features error) ↔
    ∃ (a : Attribute) (v : Value a), feature = (a.name, v.spelling) ∧ tag.value a = none := by
  have isSome_iff (a : Attribute) :=
    tag.hasExactly_features.isSome_iff tag.allAccepted_features (a := a)
  constructor
  · intro fine
    obtain ⟨a, v, rfl, fresh⟩ := Feature.exists_of_not_refused fine
    refine ⟨a, v, rfl, Option.not_isSome_iff_eq_none.mp fun isSet => ?_⟩
    obtain ⟨other, member, same⟩ := (isSome_iff a).mp isSet
    exact fresh other member same
  · rintro ⟨a, v, rfl, unset⟩ error
    refine Feature.not_refused fun other member same => ?_
    have isSet := (isSome_iff a).mpr ⟨other, member, same⟩
    simp [unset] at isSet

/-- A tag with exactly the features of another one and a new one extends that one. -/
theorem HasExactly.extends {v : Value a}
    (exactly : grown.HasExactly (tag.features ++ [(a.name, v.spelling)]))
    (unset : tag.value a = none) : tag.Extends v grown := by
  have given : grown.value a = some v :=
    (exactly a v).mpr (List.mem_append_right _ List.mem_cons_self)
  refine ⟨unset, given, fun b other => Option.ext fun w => ?_, ?_, ?_⟩
  · -- What another attribute has is no new feature.
    rw [exactly b w, tag.hasExactly_features b w, List.mem_append, List.mem_singleton]
    refine or_iff_left fun same => other ?_
    exact Attribute.name_injective (Prod.mk.inj same).1
  · rw [accepts_iff_forall_value]
    intro b w had
    exact (exactly b w).mpr (List.mem_append_left _ ((tag.hasExactly_features b w).mp had))
  · rw [Bool.eq_false_iff]
    intro back
    have had := accepts_iff_forall_value.mp back a v given
    rw [unset] at had
    cases had

/-- Features that are set after others are set in the tag that those leave. -/
theorem putEach_append (tag : Tag) (features others : List Feature) :
    putEach tag (features ++ others) =
      ((putEach tag features).1 ++ (putEach (putEach tag features).2 others).1,
        (putEach (putEach tag features).2 others).2) := by
  induction features generalizing tag with
  | nil => rfl
  | cons feature features rest =>
    rw [List.cons_append, putEach, putEach]
    cases put feature tag with
    | ok _ grown =>
      dsimp only
      rw [rest grown, List.cons_append]
    | error _ left => exact rest left

/-- In the end a tag has what it had before and what has been set, and nothing else. -/
theorem HasExactly.putEach (exactly : tag.HasExactly earlier) (accepted : AllAccepted earlier)
    (features : List Feature) : (tag.putEach features).1.Sublist features ∧
      (tag.putEach features).2.HasExactly (earlier ++ (tag.putEach features).1) := by
  induction features generalizing tag earlier with
  | nil => exact ⟨.refl _, by rwa [Tag.putEach, List.append_nil]⟩
  | cons feature features rest =>
    rw [Tag.putEach, put_eq]
    by_cases fine : ∀ error, ¬feature.Refused earlier error
    · obtain ⟨grown, set, exactlyGrown⟩ := exactly.setFeature_ok accepted fine
      obtain ⟨part, has⟩ := rest exactlyGrown (Feature.allAccepted_concat.mpr ⟨accepted, fine⟩)
      rw [List.append_assoc, List.singleton_append] at has
      rw [set]
      exact ⟨part.cons_cons feature, has⟩
    · -- A feature that is refused is left out, and the tag goes on as it is.
      simp only [not_forall, not_not] at fine
      obtain ⟨error, refused⟩ := fine
      obtain ⟨part, has⟩ := rest exactly accepted
      rw [exactly.setFeature_error accepted refused]
      exact ⟨part.cons feature, has⟩

/-- What is set stays so, whatever else is set or fails to be. -/
theorem value_putEach {v : Value a} (given : tag.value a = some v) (features : List Feature) :
    (tag.putEach features).2.value a = some v := by
  have exactly := tag.hasExactly_features
  obtain ⟨_, has⟩ := exactly.putEach tag.allAccepted_features features
  exact (has a v).mpr (List.mem_append_left _ ((exactly a v).mp given))

/-- A call fails and changes nothing, or it gives a value to an attribute that has none. -/
theorem put_atomic :
    (∀ (feature : Feature) (tag : Tag), put feature tag =
      match tag.setFeature feature.1 feature.2 with
      | .error error => .error error tag
      | .ok grown => .ok () grown) ∧
    (∀ (tag : Tag) (name value : String),
      (∀ error left, put (name, value) tag = .error error left →
        left = tag ∧ Refused tag.features (name, value) error) ∧
      (∀ grown, put (name, value) tag = .ok () grown →
        ∃ (a : Attribute) (v : Value a), a.name = name ∧ v.spelling = value ∧
          tag.Extends v grown) ∧
      ((∃ grown, put (name, value) tag = .ok () grown) ↔
        ∃ a : Attribute, a.name = name ∧ tag.value a = none ∧
          ∃ v : Value a, v.spelling = value)) ∧
    (∀ (tag : Tag) (calls : List Feature), (tag.putEach calls).1.Sublist calls ∧
      (tag.putEach calls).2.HasExactly (tag.features ++ (tag.putEach calls).1)) ∧
    ∀ (tag : Tag) (earlier later : List Feature) (a : Attribute) (v : Value a),
      (tag.putEach earlier).2.value a = some v →
        (tag.putEach (earlier ++ later)).2.value a = some v := by
  refine ⟨put_eq, fun tag name value => ⟨fun error left failed => ?_, fun grown set => ?_, ?_⟩,
    fun tag calls => tag.hasExactly_features.putEach tag.allAccepted_features calls,
    fun tag earlier later a v given => ?_⟩
  · exact (put_eq_error_iff.mp failed).symm
  · obtain ⟨fine, exactly⟩ := put_eq_ok_iff.mp set
    obtain ⟨a, v, same, unset⟩ := not_refused_features_iff.mp fine
    obtain ⟨rfl, rfl⟩ := Prod.mk.inj same
    exact ⟨a, v, rfl, rfl, exactly.extends unset⟩
  · constructor
    · rintro ⟨grown, set⟩
      obtain ⟨a, v, same, unset⟩ := not_refused_features_iff.mp (put_eq_ok_iff.mp set).1
      obtain ⟨rfl, rfl⟩ := Prod.mk.inj same
      exact ⟨a, rfl, unset, v, rfl⟩
    · rintro ⟨a, rfl, unset, v, rfl⟩
      exact ⟨tag.assign v, by rw [put_eq, setFeature_name unset]⟩
  · rw [putEach_append]
    exact value_putEach given later

/-- A nominative is set and stays, though a genitive is tried and a number is set after it. -/
theorem put_atomic_nominative :
    let calls := [("Case", "Nom"), ("Case", "Gen"), ("Gender", "Fem"), ("Number", "Sing")]
    put ("Case", "Nom") empty = .ok () (empty.assign .nominative) ∧
      empty.Extends .nominative (empty.assign .nominative) ∧
      put ("Case", "Gen") (empty.assign .nominative) =
        .error (.duplicateFeature "Case") (empty.assign .nominative) ∧
      (empty.putEach calls).1 = [("Case", "Nom"), ("Number", "Sing")] ∧
      (empty.putEach calls).2.value .case = some .nominative := by
  intro calls
  obtain ⟨-, each, -, stays⟩ := put_atomic
  have set : put ("Case", "Nom") empty = .ok () (empty.assign .nominative) := rfl
  obtain ⟨a, v, named, spelled, gains⟩ := (each empty "Case" "Nom").2.1 _ set
  obtain rfl : a = .case := Attribute.name_injective named
  obtain rfl : v = .nominative := Value.spelling_injective spelled
  exact ⟨set, gains, rfl, rfl, stays empty [("Case", "Nom")] calls.tail .case .nominative rfl⟩

end PhraseGrammar.Morphology.Tag
