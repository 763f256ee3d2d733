import Mathlib.Data.List.Nodup
import Mathlib.Data.List.Perm.Basic
import PhraseGrammar.Proofs.FeatureGrammar

/-! Features are read in any order, and printed in the one in which attributes are listed. -/

namespace PhraseGrammar

namespace Text

/-- Whether a text has no characters but blanks. -/
def IsBlank (text : String) : Prop :=
  ∀ c ∈ text.toList, isBlank c = true

instance (text : String) : Decidable (IsBlank text) :=
  decidable_of_iff (text.toList.all isBlank = true) List.all_eq_true

/-- Without the blanks around it a text has no further blanks around it. -/
theorem trim_trim (text : String) : trim (trim text) = trim text := by
  have trims : Trims text (trim text) := trims_iff.mpr rfl
  refine (trims_iff.mp ⟨⟨[], [], ?_, ?_, ?_⟩, trims.first, trims.last⟩).symm
  · rw [List.nil_append, List.append_nil]
  · exact fun c member => absurd member List.not_mem_nil
  · exact fun c member => absurd member List.not_mem_nil

/-- Blanks around a text do not change what is left of it without the blanks around it. -/
theorem trim_between {before text after : String} (ahead : IsBlank before)
    (behind : IsBlank after) : trim (before ++ text ++ after) = trim text := by
  have trims : Trims text (trim text) := trims_iff.mpr rfl
  obtain ⟨front, back, split, frontBlank, backBlank⟩ := trims.around
  refine (trims_iff.mp ⟨⟨before.toList ++ front, back ++ after.toList, ?_, ?_, ?_⟩,
    trims.first, trims.last⟩).symm
  · rw [String.toList_append, String.toList_append, split]
    simp only [List.append_assoc]
  · exact fun c member => (List.mem_append.mp member).elim (ahead c) (frontBlank c)
  · exact fun c member => (List.mem_append.mp member).elim (backBlank c) (behind c)

end Text

namespace Morphology

open Text

namespace Feature

variable {feature : Feature} {features others : List Feature}

/-- The items of a feature string: what stands between its bars, without the blanks around it. -/
def items (text : String) : List String :=
  (splitChars '|' (trim text).toList).map String.ofList

/-- Whether features are in listing order, none of them for an attribute that another one is for. -/
def InOrder (features : List Feature) : Prop :=
  (features.map Prod.fst).Sublist (Attribute.all.map Attribute.name)

/-- Features are accepted if they give values to attributes, to no attribute twice. -/
theorem allAccepted_iff : AllAccepted features ↔
    (∀ feature ∈ features, ∃ (a : Attribute) (v : Value a), feature = (a.name, v.spelling)) ∧
      (features.map Prod.fst).Nodup := by
  -- The last feature is judged by those before it, so the induction is at the end of the list.
  induction features using List.reverseRecOn with
  | nil =>
    exact iff_of_true allAccepted_nil
      ⟨fun _ member => absurd member List.not_mem_nil, List.nodup_nil⟩
  | append_singleton features feature rest =>
    rw [allAccepted_concat, rest, List.map_append, List.map_singleton, List.nodup_append_comm,
      List.singleton_append, List.nodup_cons]
    constructor
    · rintro ⟨⟨known, nodup⟩, fine⟩
      obtain ⟨a, v, rfl, fresh⟩ := exists_of_not_refused fine
      refine ⟨fun other member => ?_, fun given => ?_, nodup⟩
      · rcases List.mem_append.mp member with before | last
        · exact known other before
        · exact ⟨a, v, List.mem_singleton.mp last⟩
      · obtain ⟨other, member, same⟩ := List.mem_map.mp given
        exact fresh other member same
    · rintro ⟨known, fresh, nodup⟩
      refine ⟨⟨fun other member => known other (List.mem_append_left _ member), nodup⟩,
        fun error => ?_⟩
      obtain ⟨a, v, rfl⟩ := known feature (List.mem_append_right _ List.mem_cons_self)
      exact not_refused fun other member same => fresh (List.mem_map.mpr ⟨other, member, same⟩)

/-- The order of features does not matter to whether they are accepted. -/
theorem AllAccepted.perm (accepted : AllAccepted features) (perm : others.Perm features) :
    AllAccepted others := by
  obtain ⟨known, nodup⟩ := allAccepted_iff.mp accepted
  exact allAccepted_iff.mpr ⟨fun other member => known other (perm.subset member),
    ((perm.map Prod.fst).nodup_iff).mpr nodup⟩

/-- The items of a text that lists features are the written forms of those. -/
theorem items_of_lists {text : String} (lists : Lists (trim text) features) :
    items text = features.map Feature.text := by
  obtain ⟨split, _⟩ := ofItems?_eq_some_iff.mp (lists_iff.mp lists)
  rw [items, split, List.map_map]
  exact List.map_congr_left fun feature _ => String.ofList_toList

/-- A row that is a reordering of written features has the written forms of reordered features. -/
theorem exists_of_perm_map {written : List String} (perm : written.Perm (features.map text)) :
    ∃ others : List Feature, written = others.map text ∧ others.Perm features :=
  (congrFun (congrFun (List.eq_map_comp_perm text) written) features).mpr perm

/-- Around written features there are no blanks. -/
theorem trim_intercalate_text (writable : ∀ feature ∈ features, feature.Writable) :
    trim ("|".intercalate (features.map text)) = "|".intercalate (features.map text) := by
  rw [trim, toList_intercalate_text, trimChars_eq_self (not_isBlank_of_mem writable),
    ← toList_intercalate_text, String.ofList_toList]

end Feature

/-- A text that lists features has more in it than an underscore. -/
theorem Lists.ne_nothing {features : List Feature} {text : String} (lists : Lists text features) :
    ¬(text = "" ∨ text = "_") := by
  intro nothing
  refine Feature.ne_nothing lists.nonempty ?_
  rw [← Feature.toList_intercalate_text, ← lists.text_eq]
  exact nothing.imp (congrArg String.toList) (congrArg String.toList)

namespace Tag

open Feature (AllAccepted LeadTo InOrder items)

variable {tag : Tag} {features others : List Feature} {text : String}

/-- The order of features does not matter to whether a tag has exactly those. -/
theorem HasExactly.perm (exactly : tag.HasExactly features) (perm : others.Perm features) :
    tag.HasExactly others := by
  intro a v
  rw [exactly a v, perm.mem_iff]

/-- The features that a tag lists are accepted, and they are exactly those that it has. -/
theorem leadTo_features (tag : Tag) : LeadTo tag.features (.ok tag) :=
  leadTo_iff.mpr tag.setFeatures_features

/-- A tag has exactly the features that it lists. -/
theorem hasExactly_features (tag : Tag) : tag.HasExactly tag.features := by
  cases tag.leadTo_features with
  | tag _ exactly => exact exactly

/-- The features that a tag lists are accepted. -/
theorem allAccepted_features (tag : Tag) : AllAccepted tag.features := by
  cases tag.leadTo_features with
  | tag accepted _ => exact accepted

/-- The features that a tag lists are those that make it, maybe in another order. -/
theorem HasExactly.perm_features (exactly : tag.HasExactly features)
    (accepted : AllAccepted features) : tag.features.Perm features := by
  have nodup {list : List Feature} (accepted : AllAccepted list) : list.Nodup :=
    .of_map _ (Feature.allAccepted_iff.mp accepted).2
  refine (List.perm_ext_iff_of_nodup (nodup tag.allAccepted_features) (nodup accepted)).mpr ?_
  intro feature
  -- A feature of either list gives a value to an attribute, which the tag then has.
  constructor
  · intro member
    obtain ⟨a, v, rfl⟩ := tag.allAccepted_features.exists_value member
    exact (exactly a v).mp ((tag.hasExactly_features a v).mpr member)
  · intro member
    obtain ⟨a, v, rfl⟩ := accepted.exists_value member
    exact (tag.hasExactly_features a v).mp ((exactly a v).mpr member)

/-- The features of a tag have the names of the attributes that it sets. -/
theorem map_fst_features (tag : Tag) :
    tag.features.map Prod.fst = tag.specified.map Attribute.name := by
  rw [features, specified]
  induction Attribute.all with
  | nil => rfl
  | cons a attributes rest =>
    rw [List.filterMap_cons, List.filter_cons]
    cases tag.value a with
    | none => exact rest
    | some v =>
      show a.name :: _ = a.name :: _
      rw [rest]

/-- A tag lists its features in order. -/
theorem inOrder_features (tag : Tag) : InOrder tag.features := by
  rw [InOrder, map_fst_features, specified]
  exact List.filter_sublist.map Attribute.name

/-- A feature string is accepted if nothing is in it, or features of which none is refused. -/
theorem parse_eq_ok_iff : parse text = .ok tag ↔
    ((trim text = "" ∨ trim text = "_") ∧ tag = empty) ∨
      ∃ features, Lists (trim text) features ∧ AllAccepted features ∧ tag.HasExactly features := by
  have leads {features : List Feature} :
      LeadTo features (.ok tag) ↔ AllAccepted features ∧ tag.HasExactly features := by
    constructor
    · rintro ⟨⟩
      rename_i accepted exactly
      exact ⟨accepted, exactly⟩
    · rintro ⟨accepted, exactly⟩
      exact .tag accepted exactly
  rw [parse_eq_iff_reads, Reads]
  split
  · -- Nothing of it can be a list of features.
    rename_i nothing
    rw [Except.ok.injEq]
    constructor
    · rintro rfl
      exact .inl ⟨nothing, rfl⟩
    · rintro (⟨_, same⟩ | ⟨features, lists, _⟩)
      · exact same
      · exact absurd nothing lists.ne_nothing
  · rename_i something
    simp only [something, false_and, false_or, leads, reduceCtorEq, and_false, or_false]

/-- Whatever the order of the items of a feature string is, it is read as the same tag. -/
theorem parse_items (read : parse text = .ok tag) {permuted : List String}
    (perm : permuted.Perm (items text)) {before after : String} (ahead : IsBlank before)
    (behind : IsBlank after) : parse (before ++ "|".intercalate permuted ++ after) = .ok tag := by
  rw [parse_eq_ok_iff] at read ⊢
  rw [trim_between ahead behind]
  rcases read with ⟨nothing, same⟩ | ⟨features, lists, accepted, exactly⟩
  · -- Where there is nothing, it is the only item.
    have single : items text = [trim text] := by
      rcases nothing with empty | underscore
      · rw [items, empty]
        rfl
      · rw [items, underscore]
        rfl
    rw [single, List.perm_singleton] at perm
    rw [perm, String.intercalate_singleton, trim_trim]
    exact .inl ⟨nothing, same⟩
  · -- Otherwise the items are features, which are accepted in their new order, too.
    rw [Feature.items_of_lists lists] at perm
    obtain ⟨others, rfl, same⟩ := Feature.exists_of_perm_map perm
    refine .inr ⟨others, ?_, accepted.perm same, exactly.perm same⟩
    have writable : ∀ feature ∈ others, feature.Writable := fun feature member =>
      lists.writable feature (same.subset member)
    rw [Feature.trim_intercalate_text writable]
    refine ⟨?_, writable, rfl⟩
    rintro rfl
    exact lists.nonempty same.nil_eq.symm

/-- A tag in which no attribute is set has no feature to list, and any other one has. -/
theorem features_eq_nil_iff : tag.features = [] ↔ ∀ a, tag.value a = none := by
  rw [features, List.filterMap_eq_nil_iff]
  simp [Attribute.mem_all]

/-- A tag with features is printed as those, with bars between them. -/
theorem print_of_features (some : tag.features ≠ []) :
    tag.print = "|".intercalate (tag.features.map Feature.text) := by
  rw [print]
  split
  · rename_i none
    exact absurd none some
  · rfl

/-- A feature string that is read as a tag has the features of the tag as its items. -/
theorem perm_items (read : parse text = .ok tag) (some : tag.features ≠ []) :
    (tag.features.map Feature.text).Perm (items text) := by
  rcases parse_eq_ok_iff.mp read with ⟨_, rfl⟩ | ⟨features, lists, accepted, exactly⟩
  · exact absurd rfl some
  · rw [Feature.items_of_lists lists]
    exact (exactly.perm_features accepted).map Feature.text

/-- Features are read in any order and printed in one, so what reads alike prints alike. -/
theorem parse_canonical :
    (∀ (tag : Tag) (before after : String), IsBlank before → IsBlank after →
      parse (before ++ tag.print ++ after) = .ok tag) ∧
    (∀ text tag, parse text = .ok tag →
      (∀ permuted before after, permuted.Perm (items text) → IsBlank before → IsBlank after →
        parse (before ++ "|".intercalate permuted ++ after) = .ok tag) ∧
      ((∀ a, tag.value a = none) → tag.print = "_") ∧
      ((∃ a, tag.value a ≠ none) → ∃ features, InOrder features ∧
        (features.map Feature.text).Perm (items text) ∧
        tag.print = "|".intercalate (features.map Feature.text))) ∧
    ∀ text other tag twin, parse text = .ok tag → parse other = .ok twin →
      (tag = twin ↔ tag.print = twin.print) := by
  refine ⟨fun tag before after ahead behind => ?_, fun text tag read => ⟨?_, ?_, ?_⟩, ?_⟩
  · rw [parse_eq_iff_reads, trim_between ahead behind, ← parse_eq_iff_reads, parse_print]
  · exact fun permuted before after perm => parse_items read perm
  · intro unset
    rw [print, features_eq_nil_iff.mpr unset]
  · rintro ⟨a, set⟩
    have some : tag.features ≠ [] := fun none => set (features_eq_nil_iff.mp none a)
    exact ⟨tag.features, tag.inOrder_features, perm_items read some, print_of_features some⟩
  · rintro text other tag twin - -
    constructor
    · exact congrArg print
    · -- Both are read back from what they are printed as.
      intro same
      have back := tag.parse_print
      rw [same, twin.parse_print] at back
      exact (Except.ok.inj back).symm

/-- A singular nominative is the same with its case in front, where it is also printed. -/
theorem parse_canonical_nominative :
    let tag := (empty.assign .nominative).assign .singular
    parse " Number=Sing|Case=Nom" = .ok tag ∧ parse "Case=Nom|Number=Sing\n" = .ok tag ∧
      ∃ features, InOrder features ∧
        (features.map Feature.text).Perm ["Number=Sing", "Case=Nom"] ∧
        tag.print = "|".intercalate (features.map Feature.text) := by
  intro tag
  have read : parse " Number=Sing|Case=Nom" = .ok tag := rfl
  obtain ⟨permuted, _, listed⟩ := parse_canonical.2.1 _ tag read
  refine ⟨read, ?_, listed ⟨.case, fun unset => nomatch unset⟩⟩
  exact permuted ["Case=Nom", "Number=Sing"] "" "\n" (.swap _ _ _) (by decide) (by decide)

end Tag

end Morphology

end PhraseGrammar
