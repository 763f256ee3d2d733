import Mathlib.Data.List.Induction
import PhraseGrammar.Proofs.FeatureString

/-! A feature string is judged by its form, and then by the first feature that cannot be set. -/

namespace PhraseGrammar

namespace Text

/-- Whether a text is another one without the blanks around it. -/
structure Trims (text inner : String) : Prop where
  /-- There are only blanks around what is left. -/
  around : ∃ before after, text.toList = before ++ inner.toList ++ after ∧
    (∀ c ∈ before, isBlank c = true) ∧ ∀ c ∈ after, isBlank c = true
  /-- What is left does not start with a blank. -/
  first : ∀ c ∈ inner.toList.head?, isBlank c = false
  /-- What is left does not end with a blank. -/
  last : ∀ c ∈ inner.toList.getLast?, isBlank c = false

/-- Once the blanks at the front are dropped, no blank is there. -/
theorem head?_dropWhile_isBlank (chars : List Char) :
    ∀ c ∈ (chars.dropWhile isBlank).head?, isBlank c = false := by
  intro c member
  have refused := List.head?_dropWhile_not isBlank chars
  rwa [Option.mem_def.mp member] at refused

/-- Trimming leaves what is between the blanks, and nothing else is. -/
theorem trims_iff {text inner : String} : Trims text inner ↔ inner = trim text := by
  constructor
  · rintro ⟨⟨before, after, split, ahead, behind⟩, first, last⟩
    rw [trim, split, trimChars_append ahead behind first last, String.ofList_toList]
  · rintro rfl
    -- Blanks are dropped at the front, and then at the back of what is left.
    have front : text.toList.takeWhile isBlank ++ text.toList.dropWhile isBlank = text.toList :=
      List.takeWhile_append_dropWhile
    generalize left : text.toList.dropWhile isBlank = rest at front
    have back : (rest.reverse.dropWhile isBlank).reverse ++
        (rest.reverse.takeWhile isBlank).reverse = rest := by
      rw [← List.reverse_append, List.takeWhile_append_dropWhile, List.reverse_reverse]
    have inner : (trim text).toList = (rest.reverse.dropWhile isBlank).reverse := by
      rw [trim, String.toList_ofList, trimChars, left]
    refine ⟨⟨text.toList.takeWhile isBlank, (rest.reverse.takeWhile isBlank).reverse, ?_, ?_, ?_⟩,
      ?_, ?_⟩
    · rw [inner, List.append_assoc, back, front]
    · exact fun c => List.mem_takeWhile_imp
    · exact fun c member => List.mem_takeWhile_imp (List.mem_reverse.mp member)
    · intro c member
      -- The first character that is left at the end has been the first one before, too.
      rw [inner] at member
      have first := head?_dropWhile_isBlank text.toList
      rw [left, ← back] at first
      refine first c ?_
      rw [List.head?_append, Option.mem_def.mp member]
      rfl
    · rw [inner, List.getLast?_reverse]
      exact head?_dropWhile_isBlank rest.reverse

end Text

namespace Morphology

open Text

/-- Whether a text is made of features as they are written, at least one, with bars between them. -/
structure Lists (text : String) (features : List Feature) : Prop where
  /-- There is a feature. -/
  nonempty : features ≠ []
  /-- Names and values have letters and digits, and nothing else. -/
  writable : ∀ feature ∈ features, feature.Writable
  /-- The text has the features and the bars, and nothing else. -/
  text_eq : text = "|".intercalate (features.map Feature.text)

/-- Why a feature that comes after others is refused. -/
inductive Feature.Refused (earlier : List Feature) : Feature → TagError → Prop where
  /-- No attribute has the name. -/
  | unknownFeature {name value : String} (unknown : ∀ a : Attribute, a.name ≠ name) :
      Refused earlier (name, value) (.unknownFeature name)
  /-- The attribute of the name has been given before. -/
  | duplicateFeature {a : Attribute} {value : String}
      (given : ∃ feature ∈ earlier, feature.1 = a.name) :
      Refused earlier (a.name, value) (.duplicateFeature a.name)
  /-- The attribute of the name has not been given before, but it has no such value. -/
  | unknownValue {a : Attribute} {value : String}
      (fresh : ∀ feature ∈ earlier, feature.1 ≠ a.name)
      (unknown : ∀ v : Value a, v.spelling ≠ value) :
      Refused earlier (a.name, value) (.unknownValue a.name value)

/-- Whether no feature of a list is refused after those before it. -/
def Feature.AllAccepted (features : List Feature) : Prop :=
  ∀ (index : Nat) (feature : Feature), features[index]? = some feature →
    ∀ error, ¬feature.Refused (features.take index) error

/-- Whether a tag sets the listed attributes to the listed values, and no others. -/
def Tag.HasExactly (tag : Tag) (features : List Feature) : Prop :=
  ∀ (a : Attribute) (v : Value a), tag.value a = some v ↔ (a.name, v.spelling) ∈ features

/-- What features lead to: the first refusal, or the tag that has them if none is refused. -/
inductive Feature.LeadTo (features : List Feature) : Except TagError Tag → Prop where
  /-- The first feature that is refused decides. -/
  | refused {index : Nat} {feature : Feature} {error : TagError}
      (stands : features[index]? = some feature) (before : AllAccepted (features.take index))
      (refused : feature.Refused (features.take index) error) : LeadTo features (.error error)
  /-- Otherwise there is a tag. -/
  | tag {tag : Tag} (accepted : AllAccepted features) (exactly : tag.HasExactly features) :
      LeadTo features (.ok tag)

/-- What a text without blanks around it is read as. -/
def Reads (text : String) (result : Except TagError Tag) : Prop :=
  if text = "" ∨ text = "_" then result = .ok .empty
  else
    -- The form is judged before any name or value is.
    (∃ features, Lists text features ∧ Feature.LeadTo features result) ∨
      (¬∃ features, Lists text features) ∧ result = .error (.malformed text)

namespace Feature

variable {feature : Feature} {features earlier : List Feature}

/-- A text reads as a feature exactly if it is the written form of that one. -/
theorem ofChars?_eq_some_iff {chars : List Char} :
    ofChars? chars = some feature ↔ chars = feature.text.toList ∧ feature.Writable := by
  constructor
  · intro read
    have whole := List.takeWhile_append_dropWhile (p := isFeatureChar) (l := chars)
    unfold ofChars? at read
    dsimp only at read
    split at read
    · rename_i value rest
      split at read
      · cases read
      · -- Both parts are there, and both have letters and digits only.
        rename_i parts
        simp only [Bool.or_eq_true, Bool.not_eq_true', not_or, List.isEmpty_iff,
          Bool.not_eq_false] at parts
        obtain ⟨⟨named, valued⟩, all⟩ := parts
        cases read
        refine ⟨?_, ⟨?_, ?_⟩, ?_, ?_⟩
        · rw [toList_text, String.toList_ofList, String.toList_ofList, ← rest, whole]
        · rwa [String.toList_ofList]
        · rw [String.toList_ofList, List.all_eq_true]
          exact fun c => List.mem_takeWhile_imp
        · rwa [String.toList_ofList]
        · rwa [String.toList_ofList]
    · cases read
  · rintro ⟨rfl, writable⟩
    exact writable.ofChars?_text

/-- Items read as features exactly if they are the written forms of those. -/
theorem ofItems?_eq_some_iff {items : List (List Char)} :
    ofItems? items = some features ↔
      items = features.map (fun feature => feature.text.toList) ∧
        ∀ feature ∈ features, feature.Writable := by
  constructor
  · intro read
    induction items generalizing features with
    | nil =>
      cases read
      exact ⟨rfl, fun _ member => absurd member List.not_mem_nil⟩
    | cons item items rest =>
      unfold ofItems? at read
      split at read
      · rename_i feature others here later
        cases read
        obtain ⟨rfl, writable⟩ := ofChars?_eq_some_iff.mp here
        obtain ⟨rfl, all⟩ := rest later
        exact ⟨rfl, List.forall_mem_cons.mpr ⟨writable, all⟩⟩
      · cases read
  · rintro ⟨rfl, writable⟩
    exact ofItems?_text writable

end Feature

/-- Attributes of one name are the same. -/
theorem Attribute.name_injective {a b : Attribute} (same : a.name = b.name) : a = b := by
  have found := a.ofName?_name
  rw [same, b.ofName?_name] at found
  exact (Option.some.inj found).symm

/-- No attribute is found exactly if none has the name. -/
theorem Attribute.ofName?_eq_none_iff {name : String} :
    ofName? name = none ↔ ∀ a : Attribute, a.name ≠ name := by
  rw [ofName?, List.find?_eq_none]
  simp [mem_all]

/-- No value is found exactly if none has the spelling. -/
theorem Value.ofSpelling?_eq_none_iff {a : Attribute} {text : String} :
    ofSpelling? a text = none ↔ ∀ v : Value a, v.spelling ≠ text := by
  rw [ofSpelling?, List.find?_eq_none]
  simp [mem_all]

namespace Feature

variable {feature : Feature} {features earlier : List Feature} {error : TagError}

/-- A feature that is not refused gives a value to an attribute that has not been given one. -/
theorem exists_of_not_refused (accepted : ∀ error, ¬feature.Refused earlier error) :
    ∃ (a : Attribute) (v : Value a), feature = (a.name, v.spelling) ∧
      ∀ other ∈ earlier, other.1 ≠ a.name := by
  obtain ⟨name, value⟩ := feature
  -- A feature that is wrong in one of the three ways would be refused for that.
  by_cases unknown : ∀ a : Attribute, a.name ≠ name
  · exact absurd (.unknownFeature unknown) (accepted _)
  simp only [ne_eq, not_forall, not_not] at unknown
  obtain ⟨a, rfl⟩ := unknown
  by_cases given : ∃ other ∈ earlier, other.1 = a.name
  · exact absurd (.duplicateFeature given) (accepted _)
  have fresh : ∀ other ∈ earlier, other.1 ≠ a.name := fun other member same =>
    given ⟨other, member, same⟩
  by_cases unspelled : ∀ v : Value a, v.spelling ≠ value
  · exact absurd (.unknownValue fresh unspelled) (accepted _)
  simp only [ne_eq, not_forall, not_not] at unspelled
  obtain ⟨v, rfl⟩ := unspelled
  exact ⟨a, v, rfl, fresh⟩

/-- A value for an attribute that has not been given one is not refused. -/
theorem not_refused {a : Attribute} {v : Value a} (fresh : ∀ other ∈ earlier, other.1 ≠ a.name) :
    ¬Refused earlier (a.name, v.spelling) error := by
  intro refused
  generalize written : (a.name, v.spelling) = feature at refused
  -- The name and the spelling are known, and no earlier feature has the name.
  cases refused with
  | unknownFeature unknown => exact unknown a (congrArg Prod.fst written)
  | duplicateFeature given =>
    obtain ⟨other, member, same⟩ := given
    exact fresh other member (same.trans (congrArg Prod.fst written).symm)
  | unknownValue _ unknown =>
    obtain ⟨named, spelled⟩ := Prod.mk.inj written
    obtain rfl := Attribute.name_injective named
    exact unknown v spelled

/-- In front of a further feature, all features are accepted if they all are, and that one is. -/
theorem allAccepted_concat : AllAccepted (features ++ [feature]) ↔
    AllAccepted features ∧ ∀ error, ¬feature.Refused features error := by
  constructor
  · intro accepted
    constructor
    · -- Before a feature that is not the last one there are the same features without that.
      intro index other stands
      have inside := (List.getElem?_eq_some_iff.mp stands).1
      have kept := accepted index other (by rw [List.getElem?_append_left inside, stands])
      rwa [List.take_append_of_le_length (Nat.le_of_lt inside)] at kept
    · have last := accepted features.length feature List.getElem?_concat_length
      rwa [List.take_left' rfl] at last
  · rintro ⟨accepted, last⟩ index other stands
    -- A feature is the last one, or one of those before it.
    rcases Nat.lt_or_ge index features.length with inside | beyond
    · rw [List.getElem?_append_left inside] at stands
      rw [List.take_append_of_le_length (Nat.le_of_lt inside)]
      exact accepted index other stands
    · have bound := (List.getElem?_eq_some_iff.mp stands).1
      rw [List.length_append, List.length_singleton] at bound
      obtain rfl : index = features.length := by omega
      rw [List.getElem?_concat_length] at stands
      cases stands
      rwa [List.take_left' rfl]

/-- Of no features none is refused. -/
theorem allAccepted_nil : AllAccepted [] := by
  intro index feature stands
  cases stands

/-- Every accepted feature gives a value to an attribute. -/
theorem AllAccepted.exists_value (accepted : AllAccepted features) (member : feature ∈ features) :
    ∃ (a : Attribute) (v : Value a), feature = (a.name, v.spelling) := by
  obtain ⟨index, stands⟩ := List.mem_iff_getElem?.mp member
  obtain ⟨a, v, same, _⟩ := exists_of_not_refused (accepted index feature stands)
  exact ⟨a, v, same⟩

end Feature

namespace Tag

open Feature (AllAccepted LeadTo)

variable {tag other : Tag} {feature : Feature} {features earlier : List Feature} {error : TagError}
  {a : Attribute}

/-- Tags that set the same values as listed are the same. -/
theorem HasExactly.unique (exactly : tag.HasExactly features)
    (exactlyToo : other.HasExactly features) : tag = other := by
  refine ext_value fun a => Option.ext fun v => ?_
  rw [exactly a v, exactlyToo a v]

/-- The empty tag has exactly no features. -/
theorem hasExactly_empty : empty.HasExactly [] := by
  intro a v
  rw [empty, value_ofValues]
  exact iff_of_false (by simp) List.not_mem_nil

/-- An attribute is set exactly if its name is among those of the features that a tag has. -/
theorem HasExactly.isSome_iff (exactly : tag.HasExactly features)
    (accepted : AllAccepted features) :
    (tag.value a).isSome ↔ ∃ feature ∈ features, feature.1 = a.name := by
  rw [Option.isSome_iff_exists]
  constructor
  · rintro ⟨v, given⟩
    exact ⟨_, (exactly a v).mp given, rfl⟩
  · rintro ⟨feature, member, named⟩
    -- The feature gives a value to an attribute of that name, which is this one.
    obtain ⟨b, v, rfl⟩ := accepted.exists_value member
    obtain rfl := Attribute.name_injective named
    exact ⟨v, (exactly b v).mpr member⟩

/-- A feature that is refused after others cannot be set in the tag that has those. -/
theorem HasExactly.setFeature_error (exactly : tag.HasExactly earlier)
    (accepted : AllAccepted earlier) (refused : feature.Refused earlier error) :
    tag.setFeature feature.1 feature.2 = .error error := by
  cases refused with
  | unknownFeature unknown => rw [setFeature, Attribute.ofName?_eq_none_iff.mpr unknown]
  | duplicateFeature given =>
    have isSet := (exactly.isSome_iff accepted).mpr given
    rw [setFeature, Attribute.ofName?_name]
    simp only [isSet, if_true]
  | @unknownValue b value fresh unknown =>
    have unset : (tag.value b).isSome = false := by
      rw [Bool.eq_false_iff]
      intro isSet
      obtain ⟨other, member, same⟩ := (exactly.isSome_iff accepted).mp isSet
      exact fresh other member same
    rw [setFeature, Attribute.ofName?_name]
    simp only [unset, Bool.false_eq_true, if_false, Value.ofSpelling?_eq_none_iff.mpr unknown]

/-- A feature that is not refused after others makes a tag that has it and those. -/
theorem HasExactly.setFeature_ok (exactly : tag.HasExactly earlier) (accepted : AllAccepted earlier)
    (fine : ∀ error, ¬feature.Refused earlier error) :
    ∃ grown, tag.setFeature feature.1 feature.2 = .ok grown ∧
      grown.HasExactly (earlier ++ [feature]) := by
  obtain ⟨a, v, rfl, fresh⟩ := Feature.exists_of_not_refused fine
  have unset : tag.value a = none := by
    rw [← Option.isNone_iff_eq_none, ← Option.not_isSome, Bool.not_eq_true', Bool.eq_false_iff]
    intro isSet
    obtain ⟨other, member, same⟩ := (exactly.isSome_iff accepted).mp isSet
    exact fresh other member same
  refine ⟨tag.assign v, setFeature_name unset v, fun b w => ?_⟩
  rw [value_assign, List.mem_append, List.mem_singleton]
  by_cases same : a = b
  · -- The attribute that is set has only this value.
    subst same
    rw [dif_pos rfl, Option.some.injEq, Prod.mk.injEq]
    constructor
    · rintro rfl
      exact .inr ⟨rfl, rfl⟩
    · rintro (member | ⟨_, spelled⟩)
      · exact absurd rfl (fresh _ member)
      · exact (Value.spelling_injective spelled).symm
  · rw [dif_neg same, exactly b w]
    refine (or_iff_left fun written => same ?_).symm
    exact Attribute.name_injective (Prod.mk.inj written).1.symm

/-- Features are set after others once those are set, unless one of those is refused. -/
theorem setFeatures_append (tag : Tag) (features others : List Feature) :
    tag.setFeatures (features ++ others) =
      match tag.setFeatures features with
      | .error refused => .error refused
      | .ok grown => grown.setFeatures others := by
  induction features generalizing tag with
  | nil => rfl
  | cons feature features rest =>
    rw [List.cons_append, setFeatures, setFeatures]
    cases tag.setFeature feature.1 feature.2 with
    | error refused => rfl
    | ok grown => exact rest grown

/-- Setting one feature is all there is to setting a list of one. -/
theorem setFeatures_singleton (tag : Tag) (feature : Feature) :
    tag.setFeatures [feature] = tag.setFeature feature.1 feature.2 := by
  rw [setFeatures]
  cases tag.setFeature feature.1 feature.2 <;> rfl

/-- Accepted features make a tag that has them. -/
theorem exists_setFeatures (accepted : AllAccepted features) :
    ∃ tag, empty.setFeatures features = .ok tag ∧ tag.HasExactly features := by
  -- The induction is at the end of the list, where what comes before is set already.
  induction features using List.reverseRecOn with
  | nil => exact ⟨empty, rfl, hasExactly_empty⟩
  | append_singleton features feature rest =>
    obtain ⟨before, fine⟩ := Feature.allAccepted_concat.mp accepted
    obtain ⟨tag, made, exactly⟩ := rest before
    rw [setFeatures_append, made]
    dsimp only
    rw [setFeatures_singleton]
    exact exactly.setFeature_ok before fine

/-- The first feature that is refused keeps a tag from being made. -/
theorem setFeatures_eq_error {index : Nat} (stands : features[index]? = some feature)
    (before : AllAccepted (features.take index))
    (refused : feature.Refused (features.take index) error) :
    empty.setFeatures features = .error error := by
  obtain ⟨tag, made, exactly⟩ := exists_setFeatures before
  obtain ⟨inside, same⟩ := List.getElem?_eq_some_iff.mp stands
  have split : features = features.take index ++ feature :: features.drop (index + 1) := by
    rw [← same, ← List.drop_eq_getElem_cons inside, List.take_append_drop]
  rw [split, setFeatures_append, made]
  dsimp only
  rw [setFeatures, exactly.setFeature_error before refused]

/-- Features always lead to something. -/
theorem exists_leadTo (features : List Feature) : ∃ result, LeadTo features result := by
  induction features using List.reverseRecOn with
  | nil => exact ⟨_, .tag Feature.allAccepted_nil hasExactly_empty⟩
  | append_singleton features feature rest =>
    obtain ⟨result, leads⟩ := rest
    cases leads with
    | @refused index other error stands before refused =>
      -- What has been refused before is still the first feature to be refused.
      have inside := (List.getElem?_eq_some_iff.mp stands).1
      have same : (features ++ [feature]).take index = features.take index :=
        List.take_append_of_le_length (Nat.le_of_lt inside)
      rw [← same] at before refused
      exact ⟨_, .refused (by rw [List.getElem?_append_left inside, stands]) before refused⟩
    | tag accepted _ =>
      by_cases fine : ∀ error, ¬feature.Refused features error
      · have all := Feature.allAccepted_concat.mpr ⟨accepted, fine⟩
        obtain ⟨tag, _, exactly⟩ := exists_setFeatures all
        exact ⟨_, .tag all exactly⟩
      · -- All before it are accepted, so that this is the first feature to be refused.
        simp only [not_forall, not_not] at fine
        obtain ⟨error, refused⟩ := fine
        have same : (features ++ [feature]).take features.length = features := List.take_left' rfl
        rw [← same] at accepted refused
        exact ⟨_, .refused List.getElem?_concat_length accepted refused⟩

/-- What features lead to is what setting them in the empty tag comes to. -/
theorem leadTo_iff {result : Except TagError Tag} :
    LeadTo features result ↔ empty.setFeatures features = result := by
  have comes : ∀ {result}, LeadTo features result → empty.setFeatures features = result := by
    intro result leads
    cases leads with
    | refused stands before refused => exact setFeatures_eq_error stands before refused
    | tag accepted exactly =>
      obtain ⟨tag, made, exactlyToo⟩ := exists_setFeatures accepted
      rw [made, exactlyToo.unique exactly]
  refine ⟨comes, ?_⟩
  rintro rfl
  -- The features lead to something, and that is what setting them comes to.
  obtain ⟨result, leads⟩ := exists_leadTo features
  rwa [comes leads]

end Tag

/-- A text lists features exactly if they are read from what stands between its bars. -/
theorem lists_iff {text : String} {features : List Feature} :
    Lists text features ↔ Feature.ofItems? (splitChars '|' text.toList) = some features := by
  rw [Feature.ofItems?_eq_some_iff]
  constructor
  · rintro ⟨nonempty, writable, rfl⟩
    rw [Feature.toList_intercalate_text]
    exact ⟨Feature.splitChars_text nonempty writable, writable⟩
  · rintro ⟨items, writable⟩
    rw [splitChars_eq] at items
    refine ⟨?_, writable, String.toList_injective ?_⟩
    · rintro rfl
      exact List.splitOn_ne_nil '|' text.toList items
    · -- Put together again, what stands between the bars is the whole text.
      rw [Feature.toList_intercalate_text, ← items, List.intercalate_splitOn]

/-- A feature string is read as what is left of it without the blanks around it. -/
theorem Tag.parse_eq_iff_reads {text : String} {result : Except TagError Tag} :
    parse text = result ↔ Reads (trim text) result := by
  have chars : (trim text).toList = trimChars text.toList := String.toList_ofList
  have short : trimChars text.toList = [] ∨ trimChars text.toList = ['_'] ↔
      trim text = "" ∨ trim text = "_" := by
    rw [← chars, ← String.toList_inj, ← String.toList_inj]
    rfl
  unfold parse Reads
  dsimp only
  by_cases nothing : trim text = "" ∨ trim text = "_"
  · rw [if_pos (short.mpr nothing), if_pos nothing]
    exact eq_comm
  · rw [if_neg (mt short.mp nothing), if_neg nothing, ← chars]
    cases read : Feature.ofItems? (splitChars '|' (trim text).toList) with
    | none =>
      -- The text lists no features at all.
      have malformed : ¬∃ features, Lists (trim text) features := by
        rintro ⟨features, lists⟩
        rw [lists_iff, read] at lists
        cases lists
      rw [trim, String.toList_ofList]
      constructor
      · rintro rfl
        exact .inr ⟨malformed, rfl⟩
      · rintro (⟨features, lists, _⟩ | ⟨_, rfl⟩)
        · exact absurd ⟨features, lists⟩ malformed
        · rfl
    | some features =>
      have lists := lists_iff.mpr read
      constructor
      · intro made
        exact .inl ⟨features, lists, leadTo_iff.mpr made⟩
      · rintro (⟨others, listsToo, leads⟩ | ⟨malformed, _⟩)
        · -- There is only one list of features that the text can have.
          rw [lists_iff, read] at listsToo
          cases listsToo
          exact leadTo_iff.mp leads
        · exact absurd ⟨features, lists⟩ malformed

/-- A feature string is read exactly as its form and then its features say. -/
theorem Tag.parse_eq_iff (text : String) (result : Except TagError Tag) :
    parse text = result ↔ ∃ inner, Trims text inner ∧ Reads inner result := by
  simp only [trims_iff, exists_eq_left]
  exact parse_eq_iff_reads

/-- A second value for an attribute is refused before it is known that there is no such value. -/
example : Tag.parse "Case=Nom|Case=First|Gender=Fem" = .error (.duplicateFeature "Case") := rfl

end Morphology

end PhraseGrammar
