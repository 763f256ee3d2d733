import Mathlib.Data.List.TakeWhile
import PhraseGrammar.Morphology.FeatureString

/-! Feature strings that are printed read back as the tags that they were printed from. -/

namespace PhraseGrammar

namespace Text

variable {separator : Char} {piece : List Char} {pieces : List (List Char)}

/-- Where the first character is not blank, no blank is dropped. -/
theorem dropWhile_isBlank {chars : List Char} (first : ∀ c ∈ chars.head?, isBlank c = false) :
    chars.dropWhile isBlank = chars := by
  cases chars with
  | nil => rfl
  | cons c chars => rw [List.dropWhile_cons, first c rfl, if_neg Bool.false_ne_true]

/-- Of a text between blanks that neither starts nor ends with one, nothing is trimmed. -/
theorem trimChars_append {before inner after : List Char} (ahead : ∀ c ∈ before, isBlank c = true)
    (behind : ∀ c ∈ after, isBlank c = true) (first : ∀ c ∈ inner.head?, isBlank c = false)
    (last : ∀ c ∈ inner.getLast?, isBlank c = false) :
    trimChars (before ++ inner ++ after) = inner := by
  cases inner with
  | nil =>
    -- Without a text in between there are only blanks.
    have all : (before ++ after).dropWhile isBlank = [] :=
      List.dropWhile_eq_nil_iff.mpr fun c member =>
        (List.mem_append.mp member).elim (ahead c) (behind c)
    rw [List.append_nil, trimChars, all]
    rfl
  | cons c inner =>
    have front : (c :: inner ++ after).dropWhile isBlank = c :: inner ++ after :=
      dropWhile_isBlank first
    have back : (c :: inner).reverse.dropWhile isBlank = (c :: inner).reverse :=
      dropWhile_isBlank (by rw [List.head?_reverse]; exact last)
    rw [trimChars, List.append_assoc, List.dropWhile_append_of_pos ahead, front,
      List.reverse_append,
      List.dropWhile_append_of_pos fun c member => behind c (List.mem_reverse.mp member), back,
      List.reverse_reverse]

/-- Blanks are dropped from the ends alone, so that a text without blanks stays. -/
theorem trimChars_eq_self {chars : List Char} (solid : ∀ c ∈ chars, isBlank c = false) :
    trimChars chars = chars := by
  have none : ∀ c ∈ ([] : List Char), isBlank c = true := fun _ member =>
    absurd member List.not_mem_nil
  have kept := trimChars_append none none (fun c first => solid c (List.mem_of_mem_head? first))
    fun c last => solid c (List.mem_of_mem_getLast? last)
  rwa [List.nil_append, List.append_nil] at kept

/-- A text is split as the library splits lists. -/
theorem splitChars_eq (separator : Char) (chars : List Char) :
    splitChars separator chars = chars.splitOn separator := by
  induction chars with
  | nil => exact (List.splitOn_nil separator).symm
  | cons c chars rest =>
    rw [splitChars, List.splitOn_cons_eq_if_modifyHead, rest]
    simp only [beq_iff_eq]
    -- There is a first piece for the character to go in front of.
    cases pieces : chars.splitOn separator with
    | nil => exact absurd pieces (List.splitOn_ne_nil separator chars)
    | cons piece pieces => rfl

/-- Pieces with separators between them are split into these pieces. -/
theorem splitChars_intercalate (some : pieces ≠ []) (absent : ∀ piece ∈ pieces, separator ∉ piece) :
    splitChars separator ([separator].intercalate pieces) = pieces := by
  rw [splitChars_eq]
  exact List.splitOn_intercalate separator absent some

/-- A character of pieces with separators between them is a separator or one of a piece. -/
theorem eq_or_mem_of_mem_intercalate {c : Char} (member : c ∈ [separator].intercalate pieces) :
    c = separator ∨ ∃ piece ∈ pieces, c ∈ piece := by
  induction pieces with
  | nil => exact absurd member List.not_mem_nil
  | cons piece pieces rest =>
    cases pieces with
    | nil =>
      rw [List.intercalate_singleton] at member
      exact .inr ⟨piece, List.mem_cons_self, member⟩
    | cons next pieces =>
      rw [List.intercalate_cons_cons, List.mem_append, List.mem_append,
        List.mem_singleton] at member
      rcases member with (here | between) | later
      · exact .inr ⟨piece, List.mem_cons_self, here⟩
      · exact .inl between
      · exact (rest later).imp_right fun ⟨other, listed, there⟩ =>
          ⟨other, List.mem_cons_of_mem piece listed, there⟩

/-- A character of the first piece is one of them all. -/
theorem mem_intercalate_of_mem_head {c : Char} (member : c ∈ piece) :
    c ∈ [separator].intercalate (piece :: pieces) := by
  cases pieces with
  | nil => rwa [List.intercalate_singleton]
  | cons next pieces =>
    rw [List.intercalate_cons_cons, List.append_assoc]
    exact List.mem_append_left _ member

end Text

namespace Morphology

open Text

namespace Feature

/-- No letter or digit is blank. -/
theorem isBlank_of_isFeatureChar {c : Char} (part : isFeatureChar c = true) :
    isBlank c = false := by
  have between : ∀ {low high : Char}, low.val ≤ c.val ∧ c.val ≤ high.val →
      low.toNat ≤ c.toNat ∧ c.toNat ≤ high.toNat := fun inside =>
    ⟨UInt32.le_iff_toNat_le.mp inside.1, UInt32.le_iff_toNat_le.mp inside.2⟩
  -- Letters and digits lie between the blanks of ASCII and those beyond it.
  have range : '0'.toNat ≤ c.toNat ∧ c.toNat ≤ 'z'.toNat := by
    rcases Bool.or_eq_true_iff.mp part with letter | digit
    · rcases Bool.or_eq_true_iff.mp letter with upper | lower
      · have inside := between (of_decide_eq_true upper)
        exact ⟨Nat.le_trans (by decide) inside.1, Nat.le_trans inside.2 (by decide)⟩
      · obtain ⟨above, below⟩ := Bool.and_eq_true_iff.mp lower
        have inside := between ⟨of_decide_eq_true above, of_decide_eq_true below⟩
        exact ⟨Nat.le_trans (by decide) inside.1, inside.2⟩
    · obtain ⟨above, below⟩ := Bool.and_eq_true_iff.mp digit
      have inside := between ⟨of_decide_eq_true above, of_decide_eq_true below⟩
      exact ⟨inside.1, Nat.le_trans inside.2 (by decide)⟩
  have first : '0'.toNat = 48 := rfl
  have last : 'z'.toNat = 122 := rfl
  simp [isBlank, blankRanges]
  omega

/-- Whether a text can be the name or the value of a feature: it has letters and digits alone. -/
def IsPart (text : String) : Prop :=
  text.toList ≠ [] ∧ text.toList.all isFeatureChar = true

/-- Whether both parts of a feature can be written. -/
def Writable (feature : Feature) : Prop :=
  IsPart feature.1 ∧ IsPart feature.2

/-- A feature is written with an equals sign between its parts. -/
theorem toList_text (feature : Feature) :
    feature.text.toList = feature.1.toList ++ '=' :: feature.2.toList := by
  rw [text, String.toList_append, String.toList_append, List.append_assoc]
  rfl

variable {feature : Feature} {features : List Feature}

/-- A written feature has no characters but letters, digits and the equals sign. -/
theorem Writable.isFeatureChar_or_eq (writable : feature.Writable) {c : Char}
    (member : c ∈ feature.text.toList) : isFeatureChar c = true ∨ c = '=' := by
  rw [toList_text, List.mem_append, List.mem_cons] at member
  rcases member with name | equals | value
  · exact .inl (List.all_eq_true.mp writable.1.2 c name)
  · exact .inr equals
  · exact .inl (List.all_eq_true.mp writable.2.2 c value)

/-- No bar separates a written feature. -/
theorem Writable.bar_not_mem (writable : feature.Writable) : '|' ∉ feature.text.toList := by
  intro member
  rcases writable.isFeatureChar_or_eq member with inside | equals
  · exact absurd inside (by decide)
  · exact absurd equals (by decide)

/-- A written feature reads back. -/
theorem Writable.ofChars?_text (writable : feature.Writable) :
    ofChars? feature.text.toList = some feature := by
  obtain ⟨⟨named, name⟩, ⟨valued, value⟩⟩ := writable
  -- The name ends at the equals sign, which is no letter or digit.
  have stop : isFeatureChar '=' = false := by decide
  have whole := List.all_eq_true.mp name
  rw [toList_text, ofChars?, List.takeWhile_append_of_pos whole, List.dropWhile_append_of_pos whole,
    List.takeWhile_cons, List.dropWhile_cons, stop]
  simp only [Bool.false_eq_true, if_false, List.append_nil]
  rw [if_neg, String.ofList_toList, String.ofList_toList]
  simp [named, valued, value]

/-- Written features read back. -/
theorem ofItems?_text (writable : ∀ feature ∈ features, feature.Writable) :
    ofItems? (features.map fun feature => feature.text.toList) = some features := by
  induction features with
  | nil => rfl
  | cons feature features rest =>
    obtain ⟨here, later⟩ := List.forall_mem_cons.mp writable
    rw [List.map_cons, ofItems?, here.ofChars?_text, rest later]

/-- Written features with bars between them, as characters. -/
theorem toList_intercalate_text (features : List Feature) :
    ("|".intercalate (features.map text)).toList =
      ['|'].intercalate (features.map fun feature => feature.text.toList) := by
  rw [String.toList_intercalate, List.map_map]
  rfl

/-- Written features are the pieces between the bars. -/
theorem splitChars_text (some : features ≠ []) (writable : ∀ feature ∈ features, feature.Writable) :
    splitChars '|' (['|'].intercalate (features.map fun feature => feature.text.toList)) =
      features.map fun feature => feature.text.toList := by
  refine splitChars_intercalate (by simpa using some) fun piece listed => ?_
  obtain ⟨feature, member, rfl⟩ := List.mem_map.mp listed
  exact (writable feature member).bar_not_mem

/-- No character of written features is blank. -/
theorem not_isBlank_of_mem (writable : ∀ feature ∈ features, feature.Writable) :
    ∀ c ∈ ['|'].intercalate (features.map fun feature => feature.text.toList),
      isBlank c = false := by
  intro c member
  rcases eq_or_mem_of_mem_intercalate member with rfl | ⟨piece, listed, inside⟩
  · decide
  · obtain ⟨feature, isFeature, rfl⟩ := List.mem_map.mp listed
    rcases (writable feature isFeature).isFeatureChar_or_eq inside with part | rfl
    · exact isBlank_of_isFeatureChar part
    · decide

/-- Where there is a written feature, there is an equals sign. -/
theorem equals_mem (some : features ≠ []) :
    '=' ∈ ['|'].intercalate (features.map fun feature => feature.text.toList) := by
  cases features with
  | nil => exact absurd rfl some
  | cons feature features =>
    have inside : '=' ∈ feature.text.toList := by
      rw [toList_text]
      exact List.mem_append_right _ List.mem_cons_self
    exact mem_intercalate_of_mem_head inside

/-- Written features are more than nothing and more than an underscore. -/
theorem ne_nothing (some : features ≠ []) :
    ¬(['|'].intercalate (features.map fun feature => feature.text.toList) = [] ∨
      ['|'].intercalate (features.map fun feature => feature.text.toList) = ['_']) := by
  have equals := equals_mem some
  rintro (same | same) <;> rw [same] at equals <;> exact absurd equals (by decide)

end Feature

/-- The name of an attribute can be that of a feature. -/
theorem Attribute.isPart_name (a : Attribute) : Feature.IsPart a.name := by
  cases a <;> exact ⟨List.cons_ne_nil _ _, rfl⟩

/-- The spelling of a value can be that of a feature. -/
theorem Value.isPart_spelling {a : Attribute} (v : Value a) : Feature.IsPart v.spelling := by
  cases v <;> exact ⟨List.cons_ne_nil _ _, rfl⟩

/-- An attribute is found by its name. -/
theorem Attribute.ofName?_name (a : Attribute) : ofName? a.name = some a := by
  cases a <;> rfl

/-- A value is found by its spelling. -/
theorem Value.ofSpelling?_spelling {a : Attribute} (v : Value a) :
    ofSpelling? a v.spelling = some v := by
  cases v <;> rfl

namespace Tag

variable {tag start : Tag} {a : Attribute}

/-- A feature of a tag can be written. -/
theorem writable_of_mem_features {feature : Feature} (member : feature ∈ tag.features) :
    feature.Writable := by
  obtain ⟨a, _, listed⟩ := List.mem_filterMap.mp member
  obtain ⟨v, _, rfl⟩ := Option.map_eq_some_iff.mp listed
  exact ⟨a.isPart_name, v.isPart_spelling⟩

/-- The attribute that is assigned has the value, and the others keep theirs. -/
theorem value_assign (tag : Tag) (v : Value a) (b : Attribute) :
    (tag.assign v).value b = if same : a = b then some (same ▸ v) else tag.value b :=
  value_ofValues _ b

/-- An attribute that is not set can be set to any of its values. -/
theorem setFeature_name (unset : tag.value a = none) (v : Value a) :
    tag.setFeature a.name v.spelling = .ok (tag.assign v) := by
  rw [setFeature, Attribute.ofName?_name]
  simp only [unset, Option.isSome_none, Bool.false_eq_true, if_false, Value.ofSpelling?_spelling]

/-- A tag with the values that another one gives to some attributes. -/
def overlaid (start tag : Tag) (attributes : List Attribute) : Tag :=
  ofValues fun a => if a ∈ attributes then tag.value a else start.value a

/-- An attribute that neither tag sets need not be overlaid. -/
theorem overlaid_cons_of_none {attributes : List Attribute} (unset : start.value a = none)
    (none : tag.value a = none) :
    start.overlaid tag (a :: attributes) = start.overlaid tag attributes := by
  refine ext_value fun b => ?_
  rw [overlaid, overlaid, value_ofValues, value_ofValues]
  by_cases same : b = a
  · subst same
    rw [if_pos List.mem_cons_self, none, unset, ite_self]
  · simp only [List.mem_cons, same, false_or]

/-- An attribute that the other tag sets can be assigned first. -/
theorem overlaid_cons_of_some {attributes : List Attribute} {v : Value a}
    (given : tag.value a = some v) :
    start.overlaid tag (a :: attributes) = (start.assign v).overlaid tag attributes := by
  refine ext_value fun b => ?_
  rw [overlaid, overlaid, value_ofValues, value_ofValues, value_assign]
  by_cases same : a = b
  · subst same
    rw [if_pos List.mem_cons_self, dif_pos rfl, given, ite_self]
  · rw [dif_neg same]
    simp only [List.mem_cons, Ne.symm same, false_or]

/-- A tag overlaid with all the values of another one is that one. -/
theorem overlaid_all (start tag : Tag) : start.overlaid tag Attribute.all = tag := by
  refine ext_value fun a => ?_
  rw [overlaid, value_ofValues, if_pos (Attribute.mem_all a)]

/-- The features of a tag give some attributes its values where none of them is set. -/
theorem setFeatures_filterMap {attributes : List Attribute} (nodup : attributes.Nodup)
    (unset : ∀ a ∈ attributes, start.value a = none) :
    start.setFeatures
        (attributes.filterMap fun a => (tag.value a).map fun v => (a.name, v.spelling)) =
      .ok (start.overlaid tag attributes) := by
  induction attributes generalizing start with
  | nil => rfl
  | cons a attributes rest =>
    obtain ⟨fresh, nodup⟩ := List.nodup_cons.mp nodup
    obtain ⟨here, later⟩ := List.forall_mem_cons.mp unset
    cases given : tag.value a with
    | none =>
      rw [List.filterMap_cons, given, overlaid_cons_of_none here given]
      exact rest nodup later
    | some v =>
      -- What is assigned first is none of the attributes that follow.
      have others : ∀ b ∈ attributes, (start.assign v).value b = none := by
        intro b member
        have other : a ≠ b := fun same => fresh (same ▸ member)
        rw [value_assign, dif_neg other]
        exact later b member
      rw [List.filterMap_cons, given, Option.map_some, setFeatures, setFeature_name here,
        overlaid_cons_of_some given]
      exact rest nodup others

/-- From the empty tag the features of a tag lead to it. -/
theorem setFeatures_features (tag : Tag) : empty.setFeatures tag.features = .ok tag := by
  have nodup : Attribute.all.Nodup := by decide
  have unset : ∀ a ∈ Attribute.all, empty.value a = none := fun a _ => value_ofValues _ a
  rw [features, setFeatures_filterMap nodup unset, overlaid_all]

/-- A text of features is read by setting them from left to right. -/
theorem parse_intercalate {features : List Feature} (some : features ≠ [])
    (writable : ∀ feature ∈ features, feature.Writable) :
    parse ("|".intercalate (features.map Feature.text)) = empty.setFeatures features := by
  rw [parse, Feature.toList_intercalate_text,
    trimChars_eq_self (Feature.not_isBlank_of_mem writable), if_neg (Feature.ne_nothing some),
    Feature.splitChars_text some writable, Feature.ofItems?_text writable]

/-- A printed tag reads back. -/
theorem parse_print (tag : Tag) : parse tag.print = .ok tag := by
  cases listed : tag.features with
  | nil =>
    -- Without a feature the tag is the empty one, which an underscore stands for.
    have same := tag.setFeatures_features
    rw [listed] at same
    rw [print, listed]
    exact same
  | cons feature features =>
    rw [print, listed]
    show parse ("|".intercalate ((feature :: features).map Feature.text)) = .ok tag
    rw [← listed, parse_intercalate (by simp [listed]) fun _ => writable_of_mem_features,
      setFeatures_features]

end Tag

end Morphology

end PhraseGrammar
