import Mathlib
import PhraseGrammar.Proofs.FeatureGrammar
import PhraseGrammar.Proofs.Lines
import PhraseGrammar.StopWords

/-! A text with a stop word on each line means the words that stand on its lines, in any order. -/

namespace PhraseGrammar

namespace Text

variable {front comment after : List Char}

/-- What is in front of the first number sign is that part of a line that has none. -/
theorem takeWhile_append_comment (solid : '#' ∉ front) (marked : ∀ c ∈ comment.head?, c = '#') :
    (front ++ comment).takeWhile (· ≠ '#') = front := by
  have all : ∀ c ∈ front, decide (c ≠ '#') = true := fun c member =>
    decide_eq_true fun sign => solid (sign ▸ member)
  rw [List.takeWhile_append_of_pos all]
  cases comment with
  | nil => rw [List.takeWhile_nil, List.append_nil]
  | cons c comment => rw [marked c rfl, List.takeWhile_cons_of_neg (by decide), List.append_nil]

/-- What follows the part of a line in front of the first number sign starts with that. -/
theorem exists_comment (line : List Char) :
    ∃ comment, line = line.takeWhile (· ≠ '#') ++ comment ∧ ∀ c ∈ comment.head?, c = '#' := by
  refine ⟨line.dropWhile (· ≠ '#'), List.takeWhile_append_dropWhile.symm, ?_⟩
  intro c member
  have refused := List.head?_dropWhile_not (fun c => decide (c ≠ '#')) line
  rw [Option.mem_def.mp member] at refused
  exact Decidable.not_not.mp (of_decide_eq_false refused)

/-- Blanks behind a text are trimmed with those that it ends with. -/
theorem trimChars_append_blanks (chars : List Char) (blank : ∀ c ∈ after, isBlank c = true) :
    trimChars (chars ++ after) = trimChars chars := by
  have trims : Trims (String.ofList chars) (String.ofList (trimChars chars)) := by
    rw [trims_iff, trim, String.toList_ofList]
  obtain ⟨⟨ahead, behind, split, before, past⟩, first, last⟩ := trims
  rw [String.toList_ofList] at first last
  rw [String.toList_ofList, String.toList_ofList] at split
  have whole : chars ++ after = ahead ++ trimChars chars ++ (behind ++ after) := by
    rw [← List.append_assoc, ← split]
  have all : ∀ c ∈ behind ++ after, isBlank c = true := fun c member =>
    (List.mem_append.mp member).elim (past c) (blank c)
  rw [whole, trimChars_append before all first last]

end Text

namespace StopWords

/-- Whether a line lists a word. -/
inductive LineLists (line : List Char) (word : String) : Prop where
  /-- The word is what stands between blanks in front of the first number sign, if anything does. -/
  | word {front : String} {comment : List Char} (solid : '#' ∉ front.toList)
      (marked : ∀ c ∈ comment.head?, c = '#') (stands : line = front.toList ++ comment)
      (trims : Text.Trims front word) (some : word ≠ "")

/-- Whether a text lists a word on one of its lines. -/
def Lists (text word : String) : Prop :=
  ∃ line, Text.HasLine text.toList line ∧ LineLists line word

/-- The word that is read off a line. -/
def word? (line : List Char) : Option String :=
  if (wordOfLine line).isEmpty then none else some (String.ofList (wordOfLine line))

variable {text other word : String} {line : List Char} {words : List String}

/-- The words of a text are read line by line. -/
theorem wordsOfText_eq (text : String) :
    wordsOfText text = (Text.lines text.toList).filterMap word? := by
  rw [wordsOfText, List.filterMap_map]
  rfl

/-- A word is read off a line if it is what is left of that, and if there is something left. -/
theorem word?_eq_some_iff :
    word? line = some word ↔ wordOfLine line = word.toList ∧ word ≠ "" := by
  have written : word ≠ "" ↔ word.toList ≠ [] := not_congr String.toList_eq_nil_iff.symm
  rw [written]
  unfold word?
  by_cases empty : wordOfLine line = []
  · -- Nothing is left, which no word is written with.
    rw [if_pos (List.isEmpty_iff.mpr empty), empty]
    constructor
    · intro read
      cases read
    · rintro ⟨left, written⟩
      exact absurd left.symm written
  · rw [if_neg (mt List.isEmpty_iff.mp empty), Option.some.injEq]
    constructor
    · rintro rfl
      rw [String.toList_ofList]
      exact ⟨rfl, empty⟩
    · rintro ⟨left, -⟩
      rw [left, String.ofList_toList]

/-- A line lists the word that is read off it. -/
theorem lineLists_iff : LineLists line word ↔ word? line = some word := by
  rw [word?_eq_some_iff]
  constructor
  · rintro ⟨solid, marked, rfl, trims, some⟩
    rw [wordOfLine, Text.takeWhile_append_comment solid marked]
    refine ⟨?_, some⟩
    rw [Text.trims_iff.mp trims, Text.trim, String.toList_ofList]
  · rintro ⟨left, some⟩
    obtain ⟨comment, stands, marked⟩ := Text.exists_comment line
    unfold wordOfLine at left
    generalize cut : line.takeWhile (· ≠ '#') = front at stands left
    have front_eq : (String.ofList front).toList = front := String.toList_ofList
    have solid : '#' ∉ front := by
      rw [← cut]
      intro member
      have refused := List.mem_takeWhile_imp member
      exact of_decide_eq_true refused rfl
    have trims : Text.Trims (String.ofList front) word := by
      rw [Text.trims_iff, Text.trim, front_eq, left, String.ofList_toList]
    rw [← front_eq] at solid stands
    exact .word solid marked stands trims some

/-- The words of a text are those that it lists. -/
theorem mem_wordsOfText_iff : word ∈ wordsOfText text ↔ Lists text word := by
  rw [wordsOfText_eq, List.mem_filterMap]
  unfold Lists
  simp only [Text.mem_lines_iff, ← lineLists_iff]

/-- A carriage return at the end of a line makes no difference to its word. -/
theorem word?_dropReturn (line : List Char) : word? (Text.dropReturn line) = word? line := by
  have same : wordOfLine (Text.dropReturn line) = wordOfLine line := by
    obtain ⟨ending, ends, split⟩ := Text.dropReturn_eq_iff.mp (rfl : Text.dropReturn line = _)
    generalize Text.dropReturn line = kept at split
    have blank : ∀ c ∈ ending, Text.isBlank c = true := by
      rcases ends with rfl | ⟨rfl, -⟩
      · exact List.forall_mem_singleton.mpr rfl
      · exact fun _ member => absurd member List.not_mem_nil
    rw [split, wordOfLine, wordOfLine, List.takeWhile_append]
    split
    · -- Without a number sign in front of it the return is one of the blanks behind the word.
      rename_i whole
      rw [(List.takeWhile_prefix _).eq_of_length whole]
      refine (Text.trimChars_append_blanks kept fun c member => blank c ?_).symm
      exact (List.takeWhile_prefix _).subset member
    · rfl
  rw [word?, word?, same]

/-- Texts with a newline between them have the words of the first one, and then the others. -/
theorem wordsOfText_append (text other : String) :
    wordsOfText (text ++ "\n" ++ other) = wordsOfText text ++ wordsOfText other := by
  have joined : (text ++ "\n" ++ other).toList = text.toList ++ '\n' :: other.toList := by
    rw [String.toList_append, String.toList_append, List.append_assoc]
    rfl
  rw [wordsOfText_eq, wordsOfText_eq, wordsOfText_eq, joined]
  exact Text.filterMap_lines_append word?_dropReturn rfl text.toList other.toList

/-- Two texts with a newline between them list what either lists. -/
theorem lists_append : Lists (text ++ "\n" ++ other) word ↔ Lists text word ∨ Lists other word := by
  rw [← mem_wordsOfText_iff, wordsOfText_append, List.mem_append, mem_wordsOfText_iff,
    mem_wordsOfText_iff]

/-- Sets that have the same words are the same. -/
theorem eq_of_mem_iff {a b : StopWords} (same : ∀ word, word ∈ a.words ↔ word ∈ b.words) :
    a = b :=
  congrArg mk (Std.ExtHashSet.ext_mem same)

/-- A word that is inserted adds its lower case. -/
theorem mem_insert {stopWords : StopWords} :
    word ∈ (stopWords.insert other).words ↔
      Text.lowercase other = word ∨ word ∈ stopWords.words := by
  rw [insert, Std.ExtHashSet.mem_insert, beq_iff_eq]

/-- Words that are inserted one by one add their lower cases. -/
theorem mem_foldl_insert {start : StopWords} :
    word ∈ (words.foldl insert start).words ↔
      word ∈ start.words ∨ ∃ other ∈ words, Text.lowercase other = word := by
  induction words generalizing start with
  | nil => simp
  | cons first words rest =>
    -- The first word is in the set that the others are added to.
    rw [List.foldl_cons, rest, mem_insert, List.exists_mem_cons_iff, or_assoc, or_left_comm]

/-- The set of a text has the lower cases of the words that the text lists. -/
theorem mem_ofText :
    word ∈ (ofText text).words ↔ ∃ other, Lists text other ∧ Text.lowercase other = word := by
  rw [ofText, Std.ExtHashSet.mem_ofList, List.contains_iff_mem, List.mem_map]
  simp only [mem_wordsOfText_iff]

/-- A token is found in a set if its word or its dictionary form is there in lower case. -/
theorem contains_iff {stopWords : StopWords} {token : Token} :
    stopWords.contains token ↔
      Text.lowercase token.text ∈ stopWords.words ∨
        Text.lowercase token.baseForm ∈ stopWords.words := by
  rw [contains, Bool.or_eq_true, Std.ExtHashSet.contains_iff_mem, Std.ExtHashSet.contains_iff_mem]

section Listed

variable (listed : ∀ word, word ∈ words ↔ Lists text word)

include listed

/-- The words that a text lists make up its set, whichever of them is inserted first. -/
theorem foldl_insert_eq_ofText : words.foldl insert empty = ofText text := by
  apply eq_of_mem_iff
  intro word
  have none : word ∉ empty.words := Std.ExtHashSet.not_mem_empty
  rw [mem_foldl_insert, mem_ofText, or_iff_right none]
  simp only [listed]

/-- The set of a text is as large as there are different lower cases of its words. -/
theorem size_ofText : (ofText text).size = (words.map Text.lowercase).dedup.length := by
  have once : ofText text = ⟨.ofList (words.map Text.lowercase).dedup⟩ := by
    apply eq_of_mem_iff
    intro word
    rw [Std.ExtHashSet.mem_ofList, List.contains_iff_mem, List.mem_dedup, List.mem_map, mem_ofText]
    simp only [listed]
  -- A list without repetitions makes up a set of its length.
  rw [once, size, Std.ExtHashSet.size_ofList]
  exact (List.nodup_dedup _).imp fun differ => beq_false_of_ne differ

end Listed

/-- The set of a text finds the tokens of which a line lists the word or the dictionary form, up to
lower case; a text that follows on a new line adds its own words; and the words of the lines can be
inserted in any order, of which those of one lower case count once. -/
theorem ofText_lists (text : String) :
    (∀ token : Token, (ofText text).contains token ↔
      ∃ word, Lists text word ∧ (Text.lowercase word = Text.lowercase token.text ∨
        Text.lowercase word = Text.lowercase token.baseForm)) ∧
    (∀ other word, word ∈ (ofText (text ++ "\n" ++ other)).words ↔
      word ∈ (ofText text).words ∨ word ∈ (ofText other).words) ∧
    (∀ word, word ∈ wordsOfText text ↔ Lists text word) ∧
    ∀ words : List String, (∀ word, word ∈ words ↔ Lists text word) →
      words.foldl insert empty = ofText text ∧
        (ofText text).size = (words.map Text.lowercase).dedup.length := by
  refine ⟨?_, ?_, ?_, ?_⟩
  · intro token
    -- Either of the two lookups needs a listed word of its own.
    rw [contains_iff, mem_ofText, mem_ofText, ← exists_or]
    simp only [and_or_left]
  · intro other word
    -- Joined texts list the words of both, whatever these are in lower case.
    simp only [mem_ofText, lists_append, or_and_right, exists_or]
  · exact fun word => mem_wordsOfText_iff
  · intro words listed
    exact ⟨foldl_insert_eq_ofText listed, size_ofText listed⟩

/-- A list of words, of which the first two differ in case alone. -/
def foreignWords : String :=
  "# pronouns\r\n\n  Αυτος # he\r\nΑΥΤΟΣ\u00A0\nİÇİN"

/-- The words are found by form and by dictionary form, and they can be inserted backwards. -/
theorem ofText_lists_foreignWords :
    (ofText foreignWords).contains ⟨"αυτοΣ", []⟩ ∧
      (ofText foreignWords).contains ⟨"αυτή", [⟨.pronoun, .empty, .ofText "αυτος", .one⟩]⟩ ∧
      ¬(ofText foreignWords).contains ⟨"he", []⟩ ∧
      "he" ∈ (ofText (foreignWords ++ "\n" ++ "He")).words ∧
      wordsOfText foreignWords = ["Αυτος", "ΑΥΤΟΣ", "İÇİN"] ∧
      ["İÇİN", "ΑΥΤΟΣ", "Αυτος"].foldl insert empty = ofText foreignWords ∧
      (ofText foreignWords).size = 2 := by
  obtain ⟨found, joined, listed, inserted⟩ := ofText_lists foreignWords
  have words : wordsOfText foreignWords = ["Αυτος", "ΑΥΤΟΣ", "İÇİN"] := by decide +kernel
  have lists : Lists foreignWords "ΑΥΤΟΣ" := (listed "ΑΥΤΟΣ").mp (by rw [words]; decide)
  have backwards : ∀ word, word ∈ ["İÇİN", "ΑΥΤΟΣ", "Αυτος"] ↔ Lists foreignWords word := by
    intro word
    rw [← listed, words, ← List.mem_reverse]
    rfl
  obtain ⟨same, size⟩ := inserted _ backwards
  refine ⟨(found _).mpr ⟨_, lists, .inl (by decide +kernel)⟩,
    (found _).mpr ⟨_, lists, .inr (by decide +kernel)⟩, ?_, (joined "He" "he").mpr (.inr ?_), words,
    same, size.trans (by decide +kernel)⟩
  · -- What stands behind a number sign is no word.
    intro there
    obtain ⟨word, lists, same⟩ := (found _).mp there
    rw [← listed, words] at lists
    revert word
    decide +kernel
  · exact mem_ofText.mpr ⟨"He", mem_wordsOfText_iff.mp (by decide), by decide +kernel⟩

end StopWords

end PhraseGrammar
