import PhraseGrammar.Morphology.Attribute

/-! A tag gives some morphological attributes a value, and accepts every tag that says at least as much. -/

namespace PhraseGrammar.Morphology

/-- A bundle of morphological attributes, each of which may be left unset. -/
structure Tag where
  case : Option (Value .case)
  animacy : Option (Value .animacy)
  number : Option (Value .number)
  tense : Option (Value .tense)
  degree : Option (Value .degree)
  verbForm : Option (Value .verbForm)
  mood : Option (Value .mood)
  person : Option (Value .person)
  variant : Option (Value .variant)
  voice : Option (Value .voice)
  aspect : Option (Value .aspect)

/-- Why a feature string or one of its features is refused. -/
inductive TagError where
  /-- The text is no list of features. -/
  | malformed (text : String)
  /-- No attribute has this name. -/
  | unknownFeature (name : String)
  /-- The attribute of this name has no such value. -/
  | unknownValue (name value : String)
  /-- The attribute of this name is set already. -/
  | duplicateFeature (name : String)
deriving DecidableEq, Repr

/-- The wording of a refusal. -/
def TagError.message : TagError → String
  | .malformed text => "Malformed feature string: '" ++ text ++ "'"
  | .unknownFeature name => "Unknown feature: '" ++ name ++ "'"
  | .unknownValue name value => "Unknown value '" ++ value ++ "' for feature '" ++ name ++ "'"
  | .duplicateFeature name => "Feature '" ++ name ++ "' given twice"

namespace Tag

/-- The value of an attribute, or none where it is unset. -/
def value (tag : Tag) : (a : Attribute) → Option (Value a)
  | .case => tag.case
  | .animacy => tag.animacy
  | .number => tag.number
  | .tense => tag.tense
  | .degree => tag.degree
  | .verbForm => tag.verbForm
  | .mood => tag.mood
  | .person => tag.person
  | .variant => tag.variant
  | .voice => tag.voice
  | .aspect => tag.aspect

/-- The tag with given values. -/
def ofValues (values : (a : Attribute) → Option (Value a)) : Tag where
  case := values .case
  animacy := values .animacy
  number := values .number
  tense := values .tense
  degree := values .degree
  verbForm := values .verbForm
  mood := values .mood
  person := values .person
  variant := values .variant
  voice := values .voice
  aspect := values .aspect

/-- A tag of given values has them. -/
theorem value_ofValues (values : (a : Attribute) → Option (Value a)) (a : Attribute) :
    (ofValues values).value a = values a := by
  cases a <;> rfl

/-- A tag is known by its values. -/
theorem ofValues_value (tag : Tag) : ofValues tag.value = tag :=
  rfl

/-- Tags with the same values are the same. -/
theorem ext_value {s t : Tag} (agree : ∀ a, s.value a = t.value a) : s = t := by
  rw [← ofValues_value s, ← ofValues_value t, funext agree]

/-- The tag that leaves every attribute unset. -/
def empty : Tag :=
  ofValues fun _ => none

instance : Inhabited Tag :=
  ⟨empty⟩

/-- Tags are compared attribute by attribute. -/
instance : DecidableEq Tag := fun s t =>
  decidable_of_iff (∀ a ∈ Attribute.all, s.value a = t.value a)
    ⟨fun agree => ext_value fun a => agree a (Attribute.mem_all a), fun same _ _ => same ▸ rfl⟩

/-- The tag with one attribute set to a value. -/
def assign (tag : Tag) {a : Attribute} (v : Value a) : Tag :=
  ofValues fun b => if same : a = b then some (same ▸ v) else tag.value b

/-- The attributes that a tag sets, in listing order. -/
def specified (tag : Tag) : List Attribute :=
  Attribute.all.filter fun a => (tag.value a).isSome

/-- Whether a tag sets no attribute. -/
def isEmpty (tag : Tag) : Bool :=
  tag.specified.isEmpty

/-- The set attributes as a number: an attribute is the bit at its index. -/
def mask (tag : Tag) : Nat :=
  tag.specified.foldr (fun a bits => (1 <<< a.index) ||| bits) 0

/-- Whether a wanted value of one attribute is absent or is the actual one. -/
@[inline]
def valueAccepts {a : Attribute} (wanted actual : Option (Value a)) : Bool :=
  wanted.isNone || wanted = actual

/-- Whether every attribute that the wanted tag sets has the same value in the actual tag. -/
def accepts (wanted actual : Tag) : Bool :=
  valueAccepts wanted.case actual.case &&
  valueAccepts wanted.animacy actual.animacy &&
  valueAccepts wanted.number actual.number &&
  valueAccepts wanted.tense actual.tense &&
  valueAccepts wanted.degree actual.degree &&
  valueAccepts wanted.verbForm actual.verbForm &&
  valueAccepts wanted.mood actual.mood &&
  valueAccepts wanted.person actual.person &&
  valueAccepts wanted.variant actual.variant &&
  valueAccepts wanted.voice actual.voice &&
  valueAccepts wanted.aspect actual.aspect

/-- The acceptance of a tag is that of the values of all attributes. -/
theorem accepts_eq (wanted actual : Tag) :
    wanted.accepts actual =
      Attribute.all.all fun a => valueAccepts (wanted.value a) (actual.value a) := by
  simp only [accepts, Attribute.all, List.all_cons, List.all_nil, value, Bool.and_true,
    Bool.and_assoc]

/-- A tag accepts another one if it does so for the values of each attribute. -/
theorem accepts_iff (wanted actual : Tag) :
    wanted.accepts actual = true ↔
      ∀ a, valueAccepts (wanted.value a) (actual.value a) = true := by
  rw [accepts_eq, List.all_eq_true]
  exact ⟨fun each a => each a (Attribute.mem_all a), fun each a _ => each a⟩

/-- The tag with a named attribute set to the value of that spelling; only an unset one can be set. -/
def setFeature (tag : Tag) (name value : String) : Except TagError Tag :=
  match Attribute.ofName? name with
  | none => .error (.unknownFeature name)
  | some a =>
    -- A second value is refused before it is read.
    if (tag.value a).isSome then .error (.duplicateFeature name)
    else match Value.ofSpelling? a value with
      | none => .error (.unknownValue name value)
      | some v => .ok (tag.assign v)

end Tag

end PhraseGrammar.Morphology
