import PhraseGrammar.Proofs.FeatureString
import PhraseGrammar.Text.Split

/-! The lines of a text stand between its newlines, and texts joined by a newline keep theirs. -/

namespace PhraseGrammar.Text

/-- Whether a line starts behind that part of a text. -/
def Opens (before : List Char) : Prop :=
  before = [] ∨ ∃ front, before = front ++ ['\n']

/-- Whether that stands between a line and its newline: one carriage return, or none if there is
none. -/
def Ends (line ending : List Char) : Prop :=
  ending = ['\r'] ∨ ending = [] ∧ line.getLast? ≠ some '\r'

/-- Whether a line stands in a text. -/
inductive HasLine (text line : List Char) : Prop where
  /-- A newline ends the line. -/
  | ended {before ending after : List Char} (opens : Opens before) (solid : '\n' ∉ line)
      (ends : Ends line ending) (stands : text = before ++ (line ++ ending ++ '\n' :: after))
  /-- The text ends, and there is something behind its last newline. -/
  | last {before : List Char} (opens : Opens before) (solid : '\n' ∉ line) (some : line ≠ [])
      (stands : text = before ++ line)

variable {text line ending before piece : List Char} {pieces next : List (List Char)}

/-- A line is what stands in front of its newline, but for one carriage return. -/
theorem dropReturn_eq_iff :
    dropReturn piece = line ↔ ∃ ending, Ends line ending ∧ piece = line ++ ending := by
  unfold dropReturn
  constructor
  · intro dropped
    by_cases returned : piece.getLast? = some '\r'
    · obtain ⟨front, rfl⟩ := List.getLast?_eq_some_iff.mp returned
      rw [if_pos returned, List.dropLast_concat] at dropped
      exact ⟨['\r'], .inl rfl, congrArg (· ++ ['\r']) dropped⟩
    · rw [if_neg returned] at dropped
      subst dropped
      exact ⟨[], .inr ⟨rfl, returned⟩, (List.append_nil piece).symm⟩
  · rintro ⟨ending, rfl | ⟨rfl, kept⟩, rfl⟩
    · rw [List.getLast?_concat, if_pos rfl, List.dropLast_concat]
    · rw [List.append_nil, if_neg kept]

/-- Where more pieces follow, a newline ends each of the first ones. -/
theorem linesOfPieces_append (more : next ≠ []) :
    linesOfPieces (pieces ++ next) = pieces.map dropReturn ++ linesOfPieces next := by
  induction pieces with
  | nil => rfl
  | cons piece pieces rest =>
    obtain ⟨following, others, split⟩ : ∃ following others, pieces ++ next = following :: others :=
      List.exists_cons_of_ne_nil (List.append_ne_nil_of_right_ne_nil pieces more)
    rw [List.cons_append, split, linesOfPieces, ← split, rest]
    rfl

/-- A text without a newline is one line, if there is anything in it. -/
theorem lines_of_not_mem (solid : '\n' ∉ piece) :
    lines piece = if piece = [] then [] else [piece] := by
  rw [lines, splitChars_eq, List.splitOn_eq_singleton solid, linesOfPieces]
  simp only [List.isEmpty_iff]

/-- The lines in front of a newline are the pieces there. -/
theorem lines_append_newline (front rest : List Char) :
    lines (front ++ '\n' :: rest) = (splitChars '\n' front).map dropReturn ++ lines rest := by
  simp only [lines, splitChars_eq, List.splitOn_append_cons_self]
  exact linesOfPieces_append (List.splitOn_ne_nil '\n' rest)

/-- The first newline ends the first line. -/
theorem lines_cons (solid : '\n' ∉ piece) (rest : List Char) :
    lines (piece ++ '\n' :: rest) = dropReturn piece :: lines rest := by
  rw [lines_append_newline, splitChars_eq, List.splitOn_eq_singleton solid]
  rfl

/-- Where a line can start, the lines of a text go apart. -/
theorem lines_append (opens : Opens before) (rest : List Char) :
    lines (before ++ rest) = lines before ++ lines rest := by
  rcases opens with rfl | ⟨front, rfl⟩
  · rfl
  · have none : lines [] = [] := rfl
    rw [List.append_assoc, List.singleton_append, lines_append_newline, lines_append_newline, none,
      List.append_nil]

/-- A line starts behind two parts if one starts behind each. -/
theorem Opens.append {front : List Char} (opens : Opens before) (opensToo : Opens front) :
    Opens (before ++ front) := by
  rcases opensToo with rfl | ⟨front, rfl⟩
  · rwa [List.append_nil]
  · exact .inr ⟨before ++ front, (List.append_assoc ..).symm⟩

/-- A line of what starts a line is one of the whole text. -/
theorem HasLine.behind (opens : Opens before) (hasLine : HasLine text line) :
    HasLine (before ++ text) line := by
  cases hasLine with
  | ended opensToo solid ends stands =>
    subst stands
    exact .ended (opens.append opensToo) solid ends (List.append_assoc ..).symm
  | last opensToo solid some stands =>
    subst stands
    exact .last (opens.append opensToo) solid some (List.append_assoc ..).symm

/-- What is listed as a line stands in the text. -/
theorem hasLine_of_mem_lines {text line : List Char} (member : line ∈ lines text) :
    HasLine text line := by
  have start : Opens [] := .inl rfl
  by_cases newline : '\n' ∈ text
  · -- The line is the first one, or it is among those behind the first newline.
    obtain ⟨piece, rest, split, solid⟩ := List.eq_append_cons_of_mem newline
    have shorter : rest.length < text.length := by
      rw [split, List.length_append, List.length_cons]
      omega
    rw [split, lines_cons solid] at member
    rw [split]
    rcases List.mem_cons.mp member with first | later
    · obtain ⟨ending, ends, rfl⟩ := dropReturn_eq_iff.mp first.symm
      exact .ended start (fun inside => solid (List.mem_append_left ending inside)) ends rfl
    · have behind := (hasLine_of_mem_lines later).behind (.inr ⟨piece, rfl⟩)
      rwa [List.append_assoc] at behind
  · rw [lines_of_not_mem newline] at member
    split at member
    · exact absurd member List.not_mem_nil
    · rename_i some
      rw [List.mem_singleton.mp member]
      exact .last start newline some rfl
termination_by text.length

/-- The lines of a text are those that stand in it. -/
theorem mem_lines_iff : line ∈ lines text ↔ HasLine text line := by
  constructor
  · exact hasLine_of_mem_lines
  · intro hasLine
    cases hasLine with
    | @ended before ending after opens solid ends stands =>
      -- There is no newline in front of the one that ends the line.
      have whole : '\n' ∉ line ++ ending := by
        rcases ends with rfl | ⟨rfl, -⟩
        · simpa using solid
        · simpa using solid
      rw [stands, lines_append opens, lines_cons whole, dropReturn_eq_iff.mpr ⟨ending, ends, rfl⟩]
      exact List.mem_append_right _ List.mem_cons_self
    | last opens solid some stands =>
      rw [stands, lines_append opens, lines_of_not_mem solid, if_neg some]
      exact List.mem_append_right _ (List.mem_singleton.mpr rfl)

section Reading

variable {α : Type} {read : List Char → Option α}
  (returned : ∀ piece, read (dropReturn piece) = read piece) (nothing : read [] = none)

include returned nothing

/-- What is read off lines is read off the pieces between newlines, where neither a carriage return
nor an empty piece matters. -/
theorem filterMap_lines (text : List Char) :
    (lines text).filterMap read = (splitChars '\n' text).filterMap read := by
  have pieces (pieces : List (List Char)) :
      (linesOfPieces pieces).filterMap read = pieces.filterMap read := by
    induction pieces with
    | nil => rfl
    | cons piece pieces rest =>
      cases pieces with
      | nil =>
        -- The last piece is left out if it is empty, which is where nothing is read.
        rw [linesOfPieces]
        split
        · rename_i empty
          rw [List.isEmpty_iff.mp empty, List.filterMap_cons, nothing]
        · rfl
      | cons next pieces =>
        rw [linesOfPieces, List.filterMap_cons, returned, rest, ← List.filterMap_cons]
  exact pieces (splitChars '\n' text)

/-- Then two texts with a newline between them are read one after the other. -/
theorem filterMap_lines_append (front rest : List Char) :
    (lines (front ++ '\n' :: rest)).filterMap read =
      (lines front).filterMap read ++ (lines rest).filterMap read := by
  simp only [filterMap_lines returned nothing, splitChars_eq, List.splitOn_append_cons_self,
    List.filterMap_append]

end Reading

end PhraseGrammar.Text
