import PhraseGrammar.Archive.Codec
import PhraseGrammar.Pattern

/-! Archives of pattern sets and of sentences: a mark, then the value, and nothing after it. -/

namespace PhraseGrammar

open Morphology

/-- A part of speech by its number. -/
def PartOfSpeech.codec : Codec PartOfSpeech :=
  Codec.nat.via code (fun n => all[n]?) (by intro pos; cases pos <;> rfl)

namespace Morphology.Tag

/-- One more than the index of the value of an attribute, or zero where it is unset. -/
def valueCode (tag : Tag) (a : Attribute) : Nat :=
  match tag.value a with
  | none => 0
  | some v => (Value.all a).idxOf v + 1

/-- The value with that code. -/
def codeValue (a : Attribute) (code : Nat) : Option (Value a) :=
  if code = 0 then none else (Value.all a)[code - 1]?

/-- The value codes of all attributes, in listing order. -/
def codes (tag : Tag) : List Nat :=
  Attribute.all.map tag.valueCode

/-- The tag with those value codes. -/
def ofCodes (codes : List Nat) : Tag :=
  ofValues fun a => codeValue a (codes[a.index]?.getD 0)

/-- The code of a value stands for it. -/
theorem codeValue_valueCode (tag : Tag) (a : Attribute) :
    codeValue a (tag.valueCode a) = tag.value a := by
  unfold codeValue valueCode
  split
  · next unset => simp [unset]
  · next v set =>
    have found : (Value.all a).idxOf v < (Value.all a).length :=
      List.idxOf_lt_length_of_mem (Value.mem_all v)
    simp [set, found]

/-- The codes of a tag stand for it. -/
theorem ofCodes_codes (tag : Tag) : ofCodes tag.codes = tag := by
  refine ext_value fun a => ?_
  have code : tag.codes[a.index]? = some (tag.valueCode a) := by cases a <;> rfl
  simp only [ofCodes, value_ofValues, code, Option.getD_some, codeValue_valueCode]

/-- A tag by its value codes; codes without a value are refused. -/
def codec : Codec Tag :=
  Codec.nat.list.via codes
    (fun codes => if (ofCodes codes).codes = codes then some (ofCodes codes) else none)
    (by simp [ofCodes_codes])

end Morphology.Tag

/-- A dictionary form by its text. -/
def BaseForm.codec : Codec BaseForm :=
  Codec.string.via text (fun text => some (.ofText text)) (by simp)

/-- A role by its place in the list of all. -/
def Role.codec : Codec Role :=
  Codec.nat.via all.idxOf (fun n => all[n]?) (by intro role; cases role <;> rfl)

/-- The demands beyond the attributes, field by field. -/
def Additional.codec : Codec Additional :=
  (Codec.bool.pair (BaseForm.codec.option.pair Codec.string.list)).via
    (fun additional => (additional.repeats, additional.lexeme, additional.themes))
    (fun (repeats, lexeme, themes) => some { repeats, lexeme, themes }) (fun _ => rfl)

/-- A condition, field by field. -/
def Condition.codec : Codec Condition :=
  (Role.codec.pair (Tag.codec.pair Additional.codec)).via
    (fun condition => (condition.role, condition.tag, condition.additional))
    (fun (role, tag, additional) => some { role, tag, additional }) (fun _ => rfl)

/-- A slot for a word, field by field. -/
def WordSlot.codec : Codec WordSlot :=
  (PartOfSpeech.codec.pair Condition.codec).via (fun slot => (slot.pos, slot.condition))
    (fun (pos, condition) => some { pos, condition }) (fun _ => rfl)

/-- A slot for a phrase, field by field. -/
def ModelSlot.codec : Codec ModelSlot :=
  (Codec.string.pair Condition.codec).via (fun slot => (slot.pattern, slot.condition))
    (fun (pattern, condition) => some { pattern, condition }) (fun _ => rfl)

namespace Component

/-- A slot as one of the two kinds. -/
def toSum : Component → WordSlot ⊕ ModelSlot
  | .word slot => .inl slot
  | .model slot => .inr slot

/-- The slot of either kind. -/
def ofSum : WordSlot ⊕ ModelSlot → Component
  | .inl slot => .word slot
  | .inr slot => .model slot

/-- A slot behind its kind. -/
def codec : Codec Component :=
  (WordSlot.codec.either ModelSlot.codec).via toSum (fun slot => some (ofSum slot))
    (by rintro (_ | _) <;> rfl)

end Component

/-- A pattern, field by field. -/
def Pattern.codec : Codec Pattern :=
  (Codec.string.pair Component.codec.list).via (fun pattern => (pattern.name, pattern.components))
    (fun (name, components) => some { name, components }) (fun _ => rfl)

/-- A pattern set, field by field. -/
def PatternSet.codec : Codec PatternSet :=
  (Codec.word.pair Pattern.codec.list).via (fun set => (set.version, set.patterns))
    (fun (version, patterns) => some { version, patterns }) (fun _ => rfl)

namespace Confidence

/-- A confidence by its bits. -/
def codec : Codec Confidence :=
  Codec.nat.via bits ofBits? ofBits?_bits

end Confidence

/-- A reading, field by field. -/
def Reading.codec : Codec Reading :=
  (PartOfSpeech.codec.pair (Tag.codec.pair (BaseForm.codec.pair Confidence.codec))).via
    (fun reading => (reading.pos, reading.tag, reading.baseForm, reading.confidence))
    (fun (pos, tag, baseForm, confidence) => some { pos, tag, baseForm, confidence })
    (fun _ => rfl)

/-- A token, field by field. -/
def Token.codec : Codec Token :=
  (Codec.string.pair Reading.codec.list).via (fun token => (token.text, token.readings))
    (fun (text, readings) => some { text, readings }) (fun _ => rfl)

/-- A sentence, field by field. -/
def Sentence.codec : Codec Sentence :=
  (Codec.word.pair (Codec.word.pair Token.codec.list)).via
    (fun sentence => (sentence.document, sentence.id, sentence.tokens))
    (fun (document, id, tokens) => some { document, id, tokens }) (fun _ => rfl)

namespace Archive

/-- The bytes at the front of every archive: a byte that no text starts with, a name and a version. -/
def mark : List UInt8 :=
  [0x8E, 0x50, 0x47, 0x41, 0x01]

/-- The archive of a value. -/
def encode {α : Type} (codec : Codec α) (value : α) : List UInt8 :=
  mark ++ codec.encode value

/-- The value of an archive; a missing mark, and bytes before or after the value, are refused. -/
def decode {α : Type} (codec : Codec α) (bytes : List UInt8) : Option α :=
  if bytes.take mark.length = mark then
    match codec.decode (bytes.drop mark.length) with
    | some (value, []) => some value
    | _ => none
  else none

/-- The archive of a pattern set. -/
def encodePatterns (set : PatternSet) : List UInt8 :=
  encode PatternSet.codec set

/-- The pattern set of an archive. -/
def decodePatterns (bytes : List UInt8) : Option PatternSet :=
  decode PatternSet.codec bytes

/-- The archive of a sentence. -/
def encodeSentence (sentence : Sentence) : List UInt8 :=
  encode Sentence.codec sentence

/-- The sentence of an archive. -/
def decodeSentence (bytes : List UInt8) : Option Sentence :=
  decode Sentence.codec bytes

end Archive

end PhraseGrammar
