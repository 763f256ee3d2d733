import PhraseGrammar.CommandLine.Run
import PhraseGrammar.Proofs.NestingDepth

/-! An archive of patterns stands for the text that it was compiled from. -/

namespace PhraseGrammar

/-- What was written as an archive is read back. -/
theorem Archive.decode_encode {α : Type} (codec : Codec α) (value : α) :
    decode codec (encode codec value) = some value := by
  -- Nothing follows the value, so the bytes after it that a codec leaves are none.
  have whole := codec.decode_encode value []
  rw [List.append_nil] at whole
  simp [decode, encode, whole]

namespace CommandLine

variable {disk later : Disk} {source output text archive path : String} {set : PatternSet}
  {registry : Registry} {effect : Effect}

namespace Disk

/-- A value is read from a file that holds the text of one. -/
theorem parse_eq_ok_iff {α : Type} {decode : Json → Decoded α} {failure : String → Failure}
    {value : α} :
    disk.parse decode failure path = .ok value ↔ ∃ bytes text, disk path = some bytes ∧
      String.fromUTF8? bytes = some text ∧ Json.decodeText decode text = .ok value := by
  -- The file is read, the bytes are taken for a text, and the text is read for a value.
  simp only [parse, Disk.text, bytes, bind, Except.bind, pure, Except.pure]
  cases held : disk path with
  | none => simp
  | some bytes =>
    cases written : String.fromUTF8? bytes with
    | none => simp [written]
    | some text => cases stated : Json.decodeText decode text <;> simp [written, stated]

/-- What a file states depends on what it holds, not on its name. -/
theorem patternText_congr (same : later text = disk source) :
    later.patternText text = .ok set ↔ disk.patternText source = .ok set := by
  rw [patternText, patternText, parse_eq_ok_iff, parse_eq_ok_iff, same]

/-- A registry is loaded from a file with patterns that form a grammar. -/
theorem registry_eq_ok_iff : disk.registry path = .ok registry ↔
    ∃ set, disk.patternSet path = .ok set ∧ Registry.ofSet set = .ok registry := by
  simp only [Disk.registry, bind, Except.bind, pure, Except.pure]
  cases read : disk.patternSet path with
  | error failure => simp
  | ok set => cases built : Registry.ofSet set <;> simp [built]

/-- A registry is loaded from a text with patterns that form a grammar. -/
theorem registry_text_iff (isText : isJsonPath text) : disk.registry text = .ok registry ↔
    ∃ set, disk.patternText text = .ok set ∧ Registry.ofSet set = .ok registry := by
  have read : disk.patternSet text = disk.patternText text := by
    simp [patternSet, isText]
  rw [registry_eq_ok_iff, read]

/-- A file with the archive of patterns is read as these patterns. -/
theorem patternSet_archive (isArchive : isJsonPath archive = false)
    (held : disk archive = some ⟨(Archive.encodePatterns set).toArray⟩) :
    disk.patternSet archive = .ok set := by
  have back : Archive.decodePatterns (Archive.encodePatterns set) = some set :=
    Archive.decode_encode PatternSet.codec set
  simp only [patternSet, isArchive, Bool.false_eq_true, if_false, bytes, held, bind, Except.bind,
    back, pure, Except.pure]

end Disk

namespace Command

/-- Patterns are compiled if they form a grammar, and their archive is saved as it is. -/
theorem run_compile_iff : (Command.compile source output).run disk = .ok effect ↔
    ∃ set registry, disk.patternText source = .ok set ∧ Registry.ofSet set = .ok registry ∧
      effect = .save output ⟨(Archive.encodePatterns set).toArray⟩ := by
  simp only [run, bind, Except.bind, pure, Except.pure]
  cases read : disk.patternText source with
  | error failure => simp
  | ok set =>
    -- The grammar is checked before anything is saved.
    cases built : Registry.ofSet set with
    | error cause => simp [compileSet, built]
    | ok registry => simp [compileSet, built, eq_comm]

/-- An extraction asks of its file of patterns nothing but the registry. -/
theorem extractReport_congr {job : ExtractionJob} {other : String}
    (same : disk.registry path = disk.registry other) :
    extractReport disk { job with patterns := path } =
      extractReport disk { job with patterns := other } := by
  -- Options, stop words and sentences are read from files that the job names apart from it.
  have options : disk.options { job with patterns := path } =
      disk.options { job with patterns := other } := rfl
  simp only [extractReport, same, options]

end Command

open Command

/-- Archives read back as the patterns they were made of, so that compiling a text succeeds exactly if the
text can be loaded, and extractions with the archive come to the same as those with the text. -/
theorem compile_faithful :
    (∀ set, Archive.decodePatterns (Archive.encodePatterns set) = some set) ∧
    ∀ (disk : Disk) (source output text : String), isJsonPath text → disk text = disk source →
      ((∃ effect, (Command.compile source output).run disk = .ok effect) ↔
        ∃ registry, disk.registry text = .ok registry) ∧
      ∀ effect, (Command.compile source output).run disk = .ok effect →
        ∃ bytes, effect = .save output bytes ∧
          ∀ (later : Disk) (archive : String), isJsonPath archive = false →
            later archive = some bytes → later text = disk text →
            (∃ registry, later.registry archive = .ok registry ∧
              later.registry text = .ok registry) ∧
            ∀ job : ExtractionJob,
              extractReport later { job with patterns := archive } =
                extractReport later { job with patterns := text } ∧
              (Command.extract { job with patterns := archive }).run later =
                (Command.extract { job with patterns := text }).run later := by
  refine ⟨Archive.decode_encode PatternSet.codec, ?_⟩
  intro disk source output text isText same
  constructor
  · -- Both sides read the same text and check the same grammar.
    constructor
    · rintro ⟨effect, ended⟩
      obtain ⟨set, registry, read, built, _⟩ := run_compile_iff.mp ended
      exact ⟨registry, (Disk.registry_text_iff isText).mpr
        ⟨set, (Disk.patternText_congr same).mpr read, built⟩⟩
    · rintro ⟨registry, loaded⟩
      obtain ⟨set, read, built⟩ := (Disk.registry_text_iff isText).mp loaded
      exact ⟨_, run_compile_iff.mpr
        ⟨set, registry, (Disk.patternText_congr same).mp read, built, rfl⟩⟩
  · intro effect ended
    obtain ⟨set, registry, read, built, rfl⟩ := run_compile_iff.mp ended
    refine ⟨_, rfl, ?_⟩
    intro later archive isArchive held kept
    -- What is read from the archive is what the text states, and it forms the same grammar.
    have fromArchive : later.registry archive = .ok registry :=
      Disk.registry_eq_ok_iff.mpr ⟨set, Disk.patternSet_archive isArchive held, built⟩
    have fromText : later.registry text = .ok registry :=
      (Disk.registry_text_iff isText).mpr
        ⟨set, (Disk.patternText_congr (kept.trans same)).mpr read, built⟩
    refine ⟨⟨registry, fromArchive, fromText⟩, ?_⟩
    intro job
    have report : extractReport later { job with patterns := archive } =
        extractReport later { job with patterns := text } :=
      extractReport_congr (fromArchive.trans fromText.symm)
    refine ⟨report, ?_⟩
    simp only [run, report]

/-- A noun of one dictionary form, and this noun after adjectives, as the pieces of a text. -/
def cafePieces : List String := [
  "\x7b\"version\":1,\"patterns\":[",
  "\x7b\"name\":\"café\",\"components\":[",
  "\x7b\"slot\":\"word\",\"pos\":\"NOUN\",",
  "\"condition\":\x7b\"role\":\"head\",",
  "\"tag\":\"Number=Sing|Case=Nom\",",
  "\"additional\":\x7b\"lexeme\":\"CAFÉ\"\x7d\x7d\x7d]\x7d,",
  "\x7b\"name\":\"small café\",\"components\":[",
  "\x7b\"slot\":\"word\",\"pos\":\"ADJ\",",
  "\"condition\":\x7b\"additional\":",
  "\x7b\"repeat\":true,\"themes\":[\"size\"]\x7d\x7d\x7d,",
  "\x7b\"slot\":\"model\",\"pattern\":\"café\",",
  "\"condition\":\x7b\"role\":\"head\"\x7d\x7d]\x7d]\x7d"]

/-- The text of the noun with and without adjectives. -/
def cafeText : String :=
  String.join cafePieces

/-- What the text states. -/
def cafes : PatternSet where
  version := 1
  patterns := [
    ⟨"café", [.word {
      pos := .noun
      condition := {
        role := .head
        tag := (Morphology.Tag.empty.assign .nominative).assign .singular
        additional := { lexeme := some (.ofText "CAFÉ") } } }]⟩,
    ⟨"small café", [
      .word {
        pos := .adjective
        condition := { additional := { repeats := true, themes := ["size"] } } },
      .model { pattern := "café", condition := .ofRole .head }]⟩]

/-- A file with the text is loaded as the registry of what the text states. -/
theorem registry_cafeText (held : disk "cafes.json" = some cafeText.toUTF8) :
    disk.registry "cafes.json" = .ok (.assemble cafes.patterns [0, 1]) := by
  have isUTF8 : String.fromUTF8? cafeText.toUTF8 = some cafeText := dif_pos cafeText.isValidUTF8
  have stated : Json.decodeText PatternSet.ofJson cafeText = .ok cafes := by
    unfold Json.decodeText Document.ofText
    -- The characters of the pieces are computed one piece at a time.
    rw [cafeText, String.toList_join]
    decide +kernel
  have built : Registry.ofSet cafes = .ok (.assemble cafes.patterns [0, 1]) :=
    Registry.build_of_flat (Registry.checkNames_eq_none_iff.mp rfl) (by decide) (by decide)
  exact (Disk.registry_text_iff (by decide)).mpr
    ⟨cafes, Disk.parse_eq_ok_iff.mpr ⟨_, _, held, isUTF8, stated⟩, built⟩

/-- A single file, which holds the text. -/
def cafeFile : Disk :=
  fun path => if path = "cafes.json" then some cafeText.toUTF8 else none

/-- The files once an archive has been saved beside the text. -/
def cafeFiles (bytes : ByteArray) : Disk :=
  fun path => if path = "cafes" then some bytes else cafeFile path

/-- The text is compiled, and the archive that is saved then does instead of the text. -/
theorem compile_faithful_cafes :
    Archive.decodePatterns (Archive.encodePatterns cafes) = some cafes ∧
    ∃ bytes, (Command.compile "cafes.json" "cafes").run cafeFile = .ok (.save "cafes" bytes) ∧
      (cafeFiles bytes).registry "cafes.json" = .ok (.assemble cafes.patterns [0, 1]) ∧
      (cafeFiles bytes).registry "cafes" = .ok (.assemble cafes.patterns [0, 1]) ∧
      ∀ job : ExtractionJob,
        (Command.extract { job with patterns := "cafes" }).run (cafeFiles bytes) =
          (Command.extract { job with patterns := "cafes.json" }).run (cafeFiles bytes) := by
  have isText : isJsonPath "cafes.json" = true := by decide
  have isArchive : isJsonPath "cafes" = false := by decide
  obtain ⟨compiles, keeps⟩ := compile_faithful.2 cafeFile "cafes.json" "cafes" "cafes.json" isText rfl
  obtain ⟨effect, ended⟩ := compiles.mpr ⟨_, registry_cafeText rfl⟩
  obtain ⟨bytes, rfl, same⟩ := keeps effect ended
  obtain ⟨⟨registry, fromArchive, fromText⟩, runs⟩ :=
    same (cafeFiles bytes) "cafes" isArchive rfl rfl
  cases fromText.symm.trans (registry_cafeText rfl)
  exact ⟨compile_faithful.1 cafes, bytes, ended, fromText, fromArchive, fun job => (runs job).2⟩

end CommandLine

end PhraseGrammar
