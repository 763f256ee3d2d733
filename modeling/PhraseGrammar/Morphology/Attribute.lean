/-! The morphological attributes, and the values that each of them can take. -/

namespace PhraseGrammar.Morphology

/-- A morphological attribute, in the order in which a tag lists them. -/
inductive Attribute where
  | case
  | animacy
  | number
  | tense
  | degree
  | verbForm
  | mood
  | person
  | variant
  | voice
  | aspect
deriving DecidableEq, Repr

namespace Attribute

/-- Every attribute once, in listing order. -/
def all : List Attribute :=
  [.case, .animacy, .number, .tense, .degree, .verbForm, .mood, .person, .variant, .voice, .aspect]

/-- The name of an attribute in a feature string. -/
def name : Attribute → String
  | .case => "Case"
  | .animacy => "Animacy"
  | .number => "Number"
  | .tense => "Tense"
  | .degree => "Degree"
  | .verbForm => "VerbForm"
  | .mood => "Mood"
  | .person => "Person"
  | .variant => "Variant"
  | .voice => "Voice"
  | .aspect => "Aspect"

/-- The attribute of that name, letter case included. -/
def ofName? (name : String) : Option Attribute :=
  all.find? fun a => a.name = name

/-- The position of an attribute in listing order. -/
def index (a : Attribute) : Nat :=
  all.idxOf a

/-- No attribute is missing from the list of all. -/
theorem mem_all (a : Attribute) : a ∈ all := by
  cases a <;> decide

end Attribute

/-- A value of a morphological attribute. -/
inductive Value : Attribute → Type where
  | nominative : Value .case
  | genitive : Value .case
  | dative : Value .case
  | accusative : Value .case
  | instrumental : Value .case
  | locative : Value .case
  | vocative : Value .case
  | partitive : Value .case
  | animate : Value .animacy
  | inanimate : Value .animacy
  | singular : Value .number
  | plural : Value .number
  | past : Value .tense
  | present : Value .tense
  | future : Value .tense
  | positive : Value .degree
  | comparative : Value .degree
  | superlative : Value .degree
  | finite : Value .verbForm
  | infinitive : Value .verbForm
  | participle : Value .verbForm
  | converb : Value .verbForm
  | indicative : Value .mood
  | imperative : Value .mood
  | conditional : Value .mood
  | first : Value .person
  | second : Value .person
  | third : Value .person
  | short : Value .variant
  | full : Value .variant
  | active : Value .voice
  | passive : Value .voice
  | middle : Value .voice
  | perfective : Value .aspect
  | imperfective : Value .aspect
deriving DecidableEq, Repr

namespace Value

/-- Every value of an attribute once. -/
def all : (a : Attribute) → List (Value a)
  | .case => [.nominative, .genitive, .dative, .accusative, .instrumental, .locative, .vocative,
      .partitive]
  | .animacy => [.animate, .inanimate]
  | .number => [.singular, .plural]
  | .tense => [.past, .present, .future]
  | .degree => [.positive, .comparative, .superlative]
  | .verbForm => [.finite, .infinitive, .participle, .converb]
  | .mood => [.indicative, .imperative, .conditional]
  | .person => [.first, .second, .third]
  | .variant => [.short, .full]
  | .voice => [.active, .passive, .middle]
  | .aspect => [.perfective, .imperfective]

/-- The spelling of a value in a feature string; values of different attributes may share one. -/
def spelling {a : Attribute} : Value a → String
  | .nominative => "Nom"
  | .genitive => "Gen"
  | .dative => "Dat"
  | .accusative => "Acc"
  | .instrumental => "Ins"
  | .locative => "Loc"
  | .vocative => "Voc"
  | .partitive => "Par"
  | .animate => "Anim"
  | .inanimate => "Inan"
  | .singular => "Sing"
  | .plural => "Plur"
  | .past => "Past"
  | .present => "Pres"
  | .future => "Fut"
  | .positive => "Pos"
  | .comparative => "Cmp"
  | .superlative => "Sup"
  | .finite => "Fin"
  | .infinitive => "Inf"
  | .participle => "Part"
  | .converb => "Conv"
  | .indicative => "Ind"
  | .imperative => "Imp"
  | .conditional => "Cnd"
  | .first => "1"
  | .second => "2"
  | .third => "3"
  | .short => "Short"
  | .full => "Full"
  | .active => "Act"
  | .passive => "Pass"
  | .middle => "Mid"
  | .perfective => "Perf"
  | .imperfective => "Imp"

/-- The value of an attribute with that spelling, letter case included. -/
def ofSpelling? (a : Attribute) (text : String) : Option (Value a) :=
  (all a).find? fun v => v.spelling = text

/-- No value of an attribute is missing from the list of all. -/
theorem mem_all {a : Attribute} (v : Value a) : v ∈ all a := by
  cases v <;> decide

/-- Two values of one attribute are spelled differently. -/
theorem spelling_injective {a : Attribute} {v w : Value a} (same : v.spelling = w.spelling) :
    v = w := by
  cases v <;> cases w <;> first | rfl | exact absurd same (by decide)

end Value

end PhraseGrammar.Morphology
