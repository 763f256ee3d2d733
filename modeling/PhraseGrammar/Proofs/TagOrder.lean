import PhraseGrammar.Proofs.FeatureOrder

/-! A tag accepts those that list all its features, and a mask tells which attributes are listed. -/

namespace PhraseGrammar.Morphology

namespace Feature

/-- Whether a feature is one of the items of a feature string. -/
def ListedIn (feature : Feature) (text : String) : Prop :=
  feature.Writable ∧ feature.text ∈ items text

/-- Features that are written alike are the same. -/
theorem Writable.text_injective {feature other : Feature} (writable : feature.Writable)
    (writableToo : other.Writable) (same : feature.text = other.text) : feature = other := by
  have read := writable.ofChars?_text
  rw [same, writableToo.ofChars?_text] at read
  exact (Option.some.inj read).symm

/-- A feature that can be written is listed by its written form. -/
theorem Writable.lists {feature : Feature} (writable : feature.Writable) :
    Lists feature.text [feature] where
  nonempty := List.cons_ne_nil feature []
  writable := List.forall_mem_singleton.mpr writable
  text_eq := String.intercalate_singleton.symm

end Feature

namespace Tag

open Feature (ListedIn items)

variable {tag wanted actual other : Tag} {feature : Feature}

/-- A tag with features is printed as a list of those. -/
theorem lists_print (some : tag.features ≠ []) : Lists tag.print tag.features where
  nonempty := some
  writable _ := writable_of_mem_features
  text_eq := print_of_features some

/-- A tag is printed as an underscore exactly if it has no features. -/
theorem print_eq_underscore_iff : tag.print = "_" ↔ tag.features = [] := by
  constructor
  · intro underscore
    by_contra some
    exact (lists_print some).ne_nothing (.inr underscore)
  · intro none
    rw [print, none]

/-- What a tag is printed as lists exactly the features of the tag. -/
theorem listedIn_print_iff : feature.ListedIn tag.print ↔ feature ∈ tag.features := by
  by_cases none : tag.features = []
  · -- The only item is the underscore, which is no feature.
    have item : items "_" = ["_"] := rfl
    rw [ListedIn, print_eq_underscore_iff.mpr none, item, none, List.mem_singleton]
    refine iff_of_false ?_ List.not_mem_nil
    rintro ⟨writable, underscore⟩
    exact writable.lists.ne_nothing (.inr underscore)
  · have lists := lists_print none
    have solid : Text.trim tag.print = tag.print := by
      rw [lists.text_eq, Feature.trim_intercalate_text lists.writable]
    rw [← solid] at lists
    rw [ListedIn, Feature.items_of_lists lists]
    constructor
    · rintro ⟨writable, item⟩
      obtain ⟨listed, member, same⟩ := List.mem_map.mp item
      rwa [← (lists.writable listed member).text_injective writable same]
    · exact fun member => ⟨lists.writable feature member, List.mem_map_of_mem member⟩

/-- A tag accepts another one if that has all its values. -/
theorem accepts_iff_forall_value :
    wanted.accepts actual = true ↔
      ∀ a (v : Value a), wanted.value a = some v → actual.value a = some v := by
  rw [accepts_iff]
  refine forall_congr' fun a => ?_
  cases wanted.value a with
  | none => simp [valueAccepts]
  | some v => simp [valueAccepts, eq_comm]

/-- A tag accepts another one if that has all its features. -/
theorem accepts_iff_subset : wanted.accepts actual = true ↔ wanted.features ⊆ actual.features := by
  rw [accepts_iff_forall_value]
  -- The features of a tag are its values, written with the names of their attributes.
  constructor
  · intro has feature member
    obtain ⟨a, v, rfl⟩ := wanted.allAccepted_features.exists_value member
    have given := (wanted.hasExactly_features a v).mpr member
    exact (actual.hasExactly_features a v).mp (has a v given)
  · intro subset a v given
    have member := (wanted.hasExactly_features a v).mp given
    exact (actual.hasExactly_features a v).mpr (subset member)

/-- A tag accepts itself. -/
theorem accepts_refl (tag : Tag) : tag.accepts tag = true :=
  accepts_iff_subset.mpr (List.Subset.refl tag.features)

/-- A tag accepts what is accepted by one that it accepts. -/
theorem accepts_trans (there : wanted.accepts other = true) (on : other.accepts actual = true) :
    wanted.accepts actual = true := by
  rw [accepts_iff_subset] at there on ⊢
  exact List.Subset.trans there on

/-- A tag that sets no attribute accepts every tag. -/
theorem empty_accepts (tag : Tag) : empty.accepts tag = true :=
  accepts_iff_subset.mpr (List.nil_subset tag.features)

/-- Tags that accept each other are the same. -/
theorem accepts_antisymm (there : wanted.accepts actual = true)
    (back : actual.accepts wanted = true) : wanted = actual := by
  rw [accepts_iff_forall_value] at there back
  exact ext_value fun a => Option.ext fun v => ⟨there a v, back a v⟩

/-- What a tag says of attributes that another one leaves unset does not matter to the latter. -/
theorem accepts_congr
    (agree : ∀ a, wanted.value a ≠ none → other.value a = actual.value a) :
    wanted.accepts other = wanted.accepts actual := by
  rw [Bool.eq_iff_iff, accepts_iff_forall_value, accepts_iff_forall_value]
  refine forall₂_congr fun a v => imp_congr_right fun given => ?_
  rw [agree a (by simp [given])]

/-- A bit is set in the mask of some attributes exactly if it is that of one of them. -/
theorem testBit_foldr {attributes : List Attribute} {bit : Nat} :
    (attributes.foldr (fun a bits => (1 <<< a.index) ||| bits) 0).testBit bit = true ↔
      ∃ a ∈ attributes, a.index = bit := by
  induction attributes with
  | nil => simp
  | cons a attributes rest =>
    -- What is added has the bit of the first attribute and no other.
    rw [List.foldr_cons, Nat.testBit_or, Bool.or_eq_true, rest, Nat.one_shiftLeft,
      Nat.testBit_two_pow, decide_eq_true_iff, List.exists_mem_cons_iff]

/-- The bits of a mask are those of the attributes that the features of the tag are for. -/
theorem testBit_mask {bit : Nat} : tag.mask.testBit bit = true ↔
    ∃ (a : Attribute) (value : String), a.index = bit ∧ (a.name, value) ∈ tag.features := by
  rw [mask, testBit_foldr]
  refine exists_congr fun a => ?_
  have isSet := tag.hasExactly_features.isSome_iff tag.allAccepted_features (a := a)
  rw [specified, List.mem_filter, isSet]
  constructor
  · rintro ⟨⟨-, ⟨name, value⟩, member, rfl⟩, index⟩
    exact ⟨value, index, member⟩
  · rintro ⟨value, index, member⟩
    exact ⟨⟨a.mem_all, _, member, rfl⟩, index⟩

/-- A tag is empty exactly if it has no features. -/
theorem isEmpty_iff : tag.isEmpty = true ↔ tag.features = [] := by
  rw [isEmpty, List.isEmpty_iff, ← List.map_eq_nil_iff (f := Attribute.name), ← map_fst_features,
    List.map_eq_nil_iff]

/-- Acceptance, masks and printing agree on the features of tags, by which tags are ordered. -/
theorem accepts_print_mask :
    (∀ wanted actual : Tag, wanted.accepts actual = true ↔
      ∀ feature : Feature, feature.ListedIn wanted.print → feature.ListedIn actual.print) ∧
    ((∀ tag : Tag, tag.accepts tag = true) ∧
      (∀ tag other : Tag, tag.accepts other = true → other.accepts tag = true → tag = other) ∧
      (∀ first second third : Tag, first.accepts second = true → second.accepts third = true →
        first.accepts third = true) ∧
      ∀ tag : Tag, empty.accepts tag = true) ∧
    (∀ wanted actual : Tag, wanted.accepts actual = true →
      ∀ bit, wanted.mask.testBit bit = true → actual.mask.testBit bit = true) ∧
    (∀ (tag : Tag) (bit : Nat), tag.mask.testBit bit = true ↔
      ∃ (a : Attribute) (value : String), a.index = bit ∧ ListedIn (a.name, value) tag.print) ∧
    (∀ tag : Tag, tag.isEmpty = true ↔ tag.print = "_") ∧
    ∀ wanted actual changed : Tag,
      (∀ a, wanted.value a ≠ none → changed.value a = actual.value a) →
        wanted.accepts changed = wanted.accepts actual := by
  simp only [listedIn_print_iff, print_eq_underscore_iff]
  refine ⟨fun wanted actual => accepts_iff_subset,
    ⟨fun tag => ?_, fun tag other => accepts_antisymm, ?_, ?_⟩, ?_, fun tag bit => testBit_mask,
    fun tag => isEmpty_iff, fun wanted actual changed => accepts_congr⟩
  · exact accepts_iff_subset.mpr (List.Subset.refl tag.features)
  · intro first second third
    rw [accepts_iff_subset, accepts_iff_subset, accepts_iff_subset]
    exact List.Subset.trans
  · exact fun tag => accepts_iff_subset.mpr (List.nil_subset tag.features)
  · -- An attribute that the one tag has a feature for, the other one has the same feature for.
    intro wanted actual accepts bit set
    obtain ⟨a, value, index, member⟩ := testBit_mask.mp set
    exact testBit_mask.mpr ⟨a, value, index, accepts_iff_subset.mp accepts member⟩

/-- A nominative is accepted by a nominative singular, and still is once that is made plural. -/
theorem accepts_print_mask_nominative :
    let wanted := empty.assign .nominative
    let actual := wanted.assign .singular
    wanted.accepts (actual.assign .plural) = true ∧ actual.mask.testBit 0 = true ∧
      (∀ feature : Feature, feature.ListedIn wanted.print → feature.ListedIn actual.print) ∧
      wanted.print ≠ "_" := by
  intro wanted actual
  obtain ⟨listing, -, masks, -, isEmpty, unaffected⟩ := accepts_print_mask
  have accepted : wanted.accepts actual = true := rfl
  refine ⟨?_, masks wanted actual accepted 0 (by decide), (listing wanted actual).mp accepted, ?_⟩
  · rw [unaffected wanted actual (actual.assign .plural), accepted]
    intro a set
    by_cases same : Attribute.number = a
    · subst same
      exact absurd rfl set
    · rw [value_assign, value_assign, dif_neg same, dif_neg same]
  · exact fun underscore => Bool.false_ne_true ((isEmpty wanted).mpr underscore)

end Tag

end PhraseGrammar.Morphology
