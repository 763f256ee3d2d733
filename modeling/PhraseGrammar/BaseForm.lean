import PhraseGrammar.Text.Lowercase

/-! Dictionary forms, which are compared without regard to letter case. -/

namespace PhraseGrammar

/-- A dictionary form with its lower case, which many comparisons ask for. -/
structure BaseForm where
  /-- The form as it is written. -/
  text : String
  /-- The form in lower case. -/
  lower : String
  /-- The lower case is that of the form. -/
  lower_eq : lower = Text.lowercase text
deriving DecidableEq, Repr

namespace BaseForm

/-- The form that a text writes. -/
def ofText (text : String) : BaseForm :=
  ⟨text, Text.lowercase text, rfl⟩

instance : Inhabited BaseForm :=
  ⟨ofText ""⟩

/-- A form is that of its text. -/
@[simp]
theorem ofText_text (form : BaseForm) : ofText form.text = form := by
  obtain ⟨text, lower, rfl⟩ := form
  rfl

/-- Whether two forms differ in letter case at most. -/
def agrees (a b : BaseForm) : Bool :=
  a.lower = b.lower

end BaseForm

end PhraseGrammar
