import PhraseGrammar.Morphology.Tag
import PhraseGrammar.Text.Blank
import PhraseGrammar.Text.Split

/-! Tags are written as `Name=Value` features between bars, and the empty tag as an underscore. -/

namespace PhraseGrammar.Morphology

open Text

/-- A feature as it is written: the name of an attribute and the spelling of a value. -/
abbrev Feature := String × String

namespace Feature

/-- Names and values are made of ASCII letters and digits. -/
def isFeatureChar (c : Char) : Bool :=
  c.isAlphanum

/-- The feature that `Name=Value` writes, where both parts are there. -/
def ofChars? (chars : List Char) : Option Feature :=
  let name := chars.takeWhile isFeatureChar
  match chars.dropWhile isFeatureChar with
  | '=' :: value =>
    if name.isEmpty || value.isEmpty || !value.all isFeatureChar then none
    else some (String.ofList name, String.ofList value)
  | _ => none

/-- The features that all the items write, or none when one item is no feature. -/
def ofItems? : List (List Char) → Option (List Feature)
  | [] => some []
  | item :: items =>
    match ofChars? item, ofItems? items with
    | some feature, some features => some (feature :: features)
    | _, _ => none

/-- A feature in its written form. -/
def text (feature : Feature) : String :=
  feature.1 ++ "=" ++ feature.2

end Feature

namespace Tag

/-- The features of a tag, in listing order. -/
def features (tag : Tag) : List Feature :=
  Attribute.all.filterMap fun a => (tag.value a).map fun v => (a.name, v.spelling)

/-- The feature string of a tag. -/
def print (tag : Tag) : String :=
  match tag.features with
  | [] => "_"
  | features => "|".intercalate (features.map Feature.text)

/-- The tag with all the features set from left to right. -/
def setFeatures (tag : Tag) : List Feature → Except TagError Tag
  | [] => .ok tag
  | (name, value) :: features =>
    match tag.setFeature name value with
    | .error refused => .error refused
    | .ok grown => grown.setFeatures features

/-- The tag that a feature string writes; blanks around it do not matter. -/
def parse (text : String) : Except TagError Tag :=
  let chars := trimChars text.toList
  if chars = [] ∨ chars = ['_'] then .ok empty
  else match Feature.ofItems? (splitChars '|' chars) with
    | none => .error (.malformed (String.ofList chars))
    | some features => empty.setFeatures features

end Tag

end PhraseGrammar.Morphology
