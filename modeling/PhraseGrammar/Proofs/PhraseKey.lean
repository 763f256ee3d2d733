import PhraseGrammar.Json.Extraction
import PhraseGrammar.Proofs.Extraction
import PhraseGrammar.Proofs.FeatureString

/-! The key of a phrase forgets where one dictionary form ends and the next one starts. -/

namespace PhraseGrammar

namespace Text

variable {separator : Char}

/-- Pieces with separators between them are split where they are split one by one. -/
theorem splitChars_intercalate_eq_flatMap {pieces : List (List Char)} (some : pieces ≠ []) :
    splitChars separator ([separator].intercalate pieces) =
      pieces.flatMap (splitChars separator) := by
  induction pieces with
  | nil => exact absurd rfl some
  | cons piece pieces rest =>
    cases pieces with
    | nil => rw [List.intercalate_singleton, List.flatMap_singleton]
    | cons next pieces =>
      -- The separator behind the first piece is where the others are split off.
      have split (behind : List Char) : splitChars separator (piece ++ separator :: behind) =
          splitChars separator piece ++ splitChars separator behind := by
        simp only [splitChars_eq]
        exact List.splitOn_append_cons_self piece behind
      rw [List.intercalate_cons_cons, List.append_assoc, List.singleton_append, split,
        rest (List.cons_ne_nil next pieces)]
      rfl

/-- Texts that are split into the same pieces are the same. -/
theorem splitChars_inj {a b : List Char} :
    splitChars separator a = splitChars separator b ↔ a = b := by
  constructor
  · intro same
    -- Pieces with the separators between them are the text again.
    have joined := congrArg [separator].intercalate same
    rwa [splitChars_eq, splitChars_eq, List.intercalate_splitOn, List.intercalate_splitOn] at joined
  · exact congrArg (splitChars separator)

end Text

namespace Token

/-- The words of the dictionary form, of which a form with spaces in it has several. -/
def formWords (token : Token) : List (List Char) :=
  Text.splitChars ' ' token.baseForm.toList

/-- A dictionary form without a space is one word. -/
theorem formWords_eq_singleton {token : Token} (solid : ' ' ∉ token.baseForm.toList) :
    token.formWords = [token.baseForm.toList] := by
  rw [formWords, Text.splitChars_eq, List.splitOn_eq_singleton solid]

/-- Dictionary forms are equal if their words are. -/
theorem map_formWords_inj {first second : List Token} :
    first.map formWords = second.map formWords ↔ first.map baseForm = second.map baseForm := by
  -- The words can be put together again, form by form.
  have injective : Function.Injective fun form : String => Text.splitChars ' ' form.toList :=
    fun _ _ same => String.toList_inj.mp (Text.splitChars_inj.mp same)
  have split (tokens : List Token) : tokens.map formWords =
      (tokens.map baseForm).map fun form => Text.splitChars ' ' form.toList := by
    rw [List.map_map]
    rfl
  rw [split, split, injective.list_map.eq_iff]

/-- Dictionary forms are equal if all their words are, and if they have as many words each. -/
theorem map_baseForm_inj {first second : List Token} :
    first.map baseForm = second.map baseForm ↔
      first.flatMap formWords = second.flatMap formWords ∧
        first.map (fun token => token.formWords.length) =
          second.map fun token => token.formWords.length := by
  rw [← map_formWords_inj, List.eq_iff_flatten_eq, List.flatMap_def, List.flatMap_def,
    List.map_map, List.map_map]
  rfl

/-- Dictionary forms without spaces are equal if all their words are. -/
theorem flatMap_formWords_inj {first second : List Token}
    (solid : ∀ token ∈ first ++ second, ' ' ∉ token.baseForm.toList) :
    first.flatMap formWords = second.flatMap formWords ↔
      first.map baseForm = second.map baseForm := by
  -- Every form is its only word.
  have words {tokens : List Token} (all : ∀ token ∈ tokens, ' ' ∉ token.baseForm.toList) :
      tokens.flatMap formWords = (tokens.map baseForm).map String.toList := by
    rw [List.map_map, ← List.flatMap_pure_eq_map]
    exact List.flatMap_congr fun token listed => formWords_eq_singleton (all token listed)
  rw [words fun token listed => solid token (List.mem_append_left second listed),
    words fun token listed => solid token (List.mem_append_right first listed)]
  exact (List.map_injective_iff.mpr fun _ _ => String.toList_inj.mp).eq_iff

end Token

namespace Phrase

variable {a b : Phrase}

/-- The words of a key are those of the dictionary forms. -/
theorem splitChars_key (phrase : Phrase) :
    Text.splitChars ' ' phrase.key.toList = phrase.tokens.flatMap Token.formWords := by
  have some : phrase.baseForms.map String.toList ≠ [] := by
    -- No text is split into no pieces at all, but a phrase is never empty.
    simp only [baseForms, tokens, ne_eq, List.map_eq_nil_iff]
    exact phrase.row.toList_ne_nil
  have space : " ".toList = [' '] := rfl
  rw [key, String.toList_intercalate, space, Text.splitChars_intercalate_eq_flatMap some,
    baseForms, List.map_map, List.flatMap_map]
  rfl

/-- Keys are equal if all the words of the dictionary forms are. -/
theorem key_eq_iff :
    a.key = b.key ↔ a.tokens.flatMap Token.formWords = b.tokens.flatMap Token.formWords := by
  rw [← splitChars_key, ← splitChars_key, Text.splitChars_inj, String.toList_inj]

/-- Phrases are the same if their patterns and their dictionary forms are. -/
theorem samePhrase_iff : a.samePhrase b ↔ a.pattern = b.pattern ∧ a.baseForms = b.baseForms := by
  rw [samePhrase, Bool.and_eq_true, decide_eq_true_eq, decide_eq_true_eq]

end Phrase

/-- The value of the first member of a name. -/
def Json.member? (name : String) : Json → Option Json
  | .object members => (members.find? fun member => member.1 = some name).map Prod.snd
  | _ => none

/-- The pattern and the key of a record, which records are grouped by. -/
def Json.group (record : Json) : Option Json × Option Json :=
  (record.member? "pattern", record.member? "key")

/-- Records are in one group if they have one pattern and one key. -/
theorem Phrase.group_toJson_inj {a b : Phrase} :
    a.toJson.group = b.toJson.group ↔ a.pattern = b.pattern ∧ a.key = b.key := by
  have group (phrase : Phrase) : phrase.toJson.group =
      (some (.text phrase.pattern), some (.text phrase.key)) := rfl
  rw [group, group]
  simp only [Json.text, Prod.mk.injEq, Option.some.injEq, Json.string.injEq]

/-- What is found in a sentence shows the tokens at its span. -/
theorem Extractor.tokens_of_extract {extractor : Extractor} (sound : extractor.registry.Sound)
    {sentence : Sentence} {extraction : Extraction} {phrase : Phrase}
    (ended : extractor.extract sentence = .ok extraction)
    (found : phrase ∈ extraction.simple ++ extraction.complex) :
    phrase.tokens = sentence.slice phrase.span := by
  obtain ⟨simple, complex⟩ := extract_pieces sound ended
  rcases List.mem_append.mp found with here | there
  · exact (simple phrase here).tokens_eq
  · exact (complex phrase there).tokens_eq

/-- Records of a group have the same words in their dictionary forms, which are cut alike for the
records of one phrase alone; without spaces in the forms every group is that of a phrase. -/
theorem extract_groups {patterns : List Pattern} {limit : Nat} {registry : Registry}
    (built : Registry.build patterns limit = .ok registry) {options otherOptions : MatchOptions}
    {stopWords otherStopWords : StopWords} {sentence other : Sentence}
    {extraction counterpart : Extraction}
    (ended : Extractor.extract ⟨registry, options, stopWords⟩ sentence = .ok extraction)
    (endedToo : Extractor.extract ⟨registry, otherOptions, otherStopWords⟩ other =
      .ok counterpart)
    {a b : Phrase} (found : a ∈ extraction.simple ++ extraction.complex)
    (foundToo : b ∈ counterpart.simple ++ counterpart.complex) :
    (a.toJson.group = b.toJson.group ↔ a.pattern = b.pattern ∧
        (sentence.slice a.span).flatMap Token.formWords =
          (other.slice b.span).flatMap Token.formWords) ∧
      (a.samePhrase b ↔ a.toJson.group = b.toJson.group ∧
        (sentence.slice a.span).map (fun token => token.formWords.length) =
          (other.slice b.span).map fun token => token.formWords.length) ∧
      ((∀ token ∈ sentence.slice a.span ++ other.slice b.span, ' ' ∉ token.baseForm.toList) →
        (a.samePhrase b ↔ a.toJson.group = b.toJson.group) ∧
          (a.pattern = b.pattern → (a.samePhrase b ↔ a.key = b.key))) := by
  have sound := Registry.sound_of_build built
  rw [← Extractor.tokens_of_extract sound ended found,
    ← Extractor.tokens_of_extract sound endedToo foundToo, Phrase.group_toJson_inj,
    Phrase.samePhrase_iff, Phrase.key_eq_iff]
  refine ⟨Iff.rfl, ?_, ?_⟩
  · -- How many words there are to each form is what the key leaves out.
    rw [Phrase.baseForms, Phrase.baseForms, Token.map_baseForm_inj, and_assoc]
  · intro solid
    -- Where that is one word to each form, the words are the forms.
    rw [Token.flatMap_formWords_inj solid]
    exact ⟨Iff.rfl, fun same => and_iff_right same⟩

/-- A sentence of an adjective and a plural noun. -/
def blackCats : Sentence where
  document := 1
  id := 2
  tokens := [⟨"Black", [⟨.adjective, .empty, .ofText "black", .one⟩]⟩,
    ⟨"cats", [⟨.noun, .empty, .ofText "cat", .one⟩]⟩]

/-- The black cat and the black cats are one phrase, so that they are in one group. -/
theorem extract_groups_blackCats : ∃ registry extraction counterpart a b,
    Registry.build nounPhrases = .ok registry ∧
      Extractor.extract ⟨registry, { validateBoundaries := false }, .empty⟩ blackCat =
        .ok extraction ∧
      Extractor.extract ⟨registry, { validateBoundaries := false }, .empty⟩ blackCats =
        .ok counterpart ∧
      extraction.complex = [a] ∧ counterpart.complex = [b] ∧
      (∀ token ∈ blackCat.slice a.span ++ blackCats.slice b.span,
        ' ' ∉ token.baseForm.toList) ∧
      a.samePhrase b ∧ a.toJson.group = b.toJson.group := by
  obtain ⟨extraction, a, ended, only, span, named, key⟩ : ∃ extraction a,
      Extractor.extract ⟨.assemble nounPhrases [0, 1], { validateBoundaries := false }, .empty⟩
          blackCat = .ok extraction ∧
        extraction.complex = [a] ∧ a.span = ⟨0, 1⟩ ∧ a.pattern = "described noun" ∧
        a.key = "black cat" := ⟨_, _, rfl, rfl, rfl, rfl, rfl⟩
  obtain ⟨counterpart, b, endedToo, onlyToo, spanToo, namedToo, keyToo⟩ : ∃ extraction a,
      Extractor.extract ⟨.assemble nounPhrases [0, 1], { validateBoundaries := false }, .empty⟩
          blackCats = .ok extraction ∧
        extraction.complex = [a] ∧ a.span = ⟨0, 1⟩ ∧ a.pattern = "described noun" ∧
        a.key = "black cat" := ⟨_, _, rfl, rfl, rfl, rfl, rfl⟩
  have found : a ∈ extraction.simple ++ extraction.complex := by simp [only]
  have foundToo : b ∈ counterpart.simple ++ counterpart.complex := by simp [onlyToo]
  have solid : ∀ token ∈ blackCat.slice a.span ++ blackCats.slice b.span,
      ' ' ∉ token.baseForm.toList := by
    rw [span, spanToo]
    decide
  have group : a.toJson.group = b.toJson.group :=
    Phrase.group_toJson_inj.mpr ⟨named.trans namedToo.symm, key.trans keyToo.symm⟩
  have same := ((extract_groups build_nounPhrases ended endedToo found foundToo).2.2 solid).1
  exact ⟨_, extraction, counterpart, a, b, build_nounPhrases, ended, endedToo, only, onlyToo,
    solid, same.mpr group, group⟩

/-- A sentence of an adjective with a space in its dictionary form and a noun. -/
def oldSchoolFriends : Sentence where
  document := 1
  id := 1
  tokens := [⟨"old-school", [⟨.adjective, .empty, .ofText "old school", .one⟩]⟩,
    ⟨"friends", [⟨.noun, .empty, .ofText "friend", .one⟩]⟩]

/-- A sentence of an adjective and a noun with a space in its dictionary form. -/
def oldSchoolmates : Sentence where
  document := 1
  id := 2
  tokens := [⟨"old", [⟨.adjective, .empty, .ofText "old", .one⟩]⟩,
    ⟨"school-friends", [⟨.noun, .empty, .ofText "school friend", .one⟩]⟩]

/-- Friends of the old school and old friends from school are two phrases, but they are in one
group. -/
theorem extract_groups_oldSchoolFriends : ∃ registry extraction counterpart a b,
    Registry.build nounPhrases = .ok registry ∧
      Extractor.extract ⟨registry, { validateBoundaries := false }, .empty⟩ oldSchoolFriends =
        .ok extraction ∧
      Extractor.extract ⟨registry, { validateBoundaries := false }, .empty⟩ oldSchoolmates =
        .ok counterpart ∧
      extraction.complex = [a] ∧ counterpart.complex = [b] ∧
      a.baseForms = ["old school", "friend"] ∧ b.baseForms = ["old", "school friend"] ∧
      a.pattern = b.pattern ∧ a.key = b.key ∧ a.toJson.group = b.toJson.group ∧
      ¬a.samePhrase b := by
  refine ⟨_, _, _, _, _, build_nounPhrases, rfl, rfl, rfl, rfl, rfl, rfl, rfl, rfl, rfl, ?_⟩
  -- The forms differ, although the key joins them to the same text.
  decide

end PhraseGrammar
