import PhraseGrammar.Span

/-! Rows of tokens that are put together without a copy, and how they read. -/

namespace PhraseGrammar

/-- A row of at least one token. -/
inductive TokenRow where
  /-- One token alone. -/
  | single (token : Token)
  /-- One row after another. -/
  | join (left right : TokenRow)

namespace TokenRow

/-- The tokens in text order in front of others. -/
def onto : TokenRow → List Token → List Token
  | single token, rest => token :: rest
  | join left right, rest => left.onto (right.onto rest)

/-- The tokens in text order. -/
def toList (row : TokenRow) : List Token :=
  row.onto []

/-- Rows are equal if they hold the same tokens, however they were put together. -/
instance : BEq TokenRow where
  beq a b := a.toList == b.toList

/-- The row with all the tokens of another one at an end. -/
def absorb (row : TokenRow) (side : Side) (other : TokenRow) : TokenRow :=
  match side with
  | .left => join other row
  | .right => join row other

/-- The row with one more token at an end. -/
def push (row : TokenRow) (side : Side) (token : Token) : TokenRow :=
  row.absorb side (single token)

/-- The number of tokens. -/
def length : TokenRow → Nat
  | single _ => 1
  | join left right => left.length + right.length

/-- Whether some token satisfies a test. -/
def any (test : Token → Bool) : TokenRow → Bool
  | single token => test token
  | join left right => left.any test || right.any test

/-- What is found at the first token at which something is found. -/
def findSome? {α : Type} (search : Token → Option α) : TokenRow → Option α
  | single token => search token
  | join left right =>
    match left.findSome? search with
    | some found => some found
    | none => right.findSome? search

/-- The words with spaces between them. -/
def text (row : TokenRow) : String :=
  " ".intercalate (row.toList.map Token.text)

/-- The tokens of a row stand in front of the others. -/
theorem onto_eq (row : TokenRow) (rest : List Token) : row.onto rest = row.toList ++ rest := by
  induction row generalizing rest with
  | single token => rfl
  | join left right fromLeft fromRight =>
    rw [toList, onto, onto, fromLeft, fromRight, fromLeft (right.onto []), fromRight [],
      List.append_assoc, List.append_nil]

/-- A row of one token holds that token. -/
theorem toList_single (token : Token) : (single token).toList = [token] :=
  rfl

/-- The tokens of two joined rows are those of one after those of the other. -/
theorem toList_join (left right : TokenRow) :
    (join left right).toList = left.toList ++ right.toList := by
  rw [toList, onto, onto_eq, onto_eq, List.append_nil]

/-- A row absorbed on the left comes first. -/
theorem toList_absorb_left (row other : TokenRow) :
    (row.absorb .left other).toList = other.toList ++ row.toList :=
  toList_join other row

/-- A row absorbed on the right comes last. -/
theorem toList_absorb_right (row other : TokenRow) :
    (row.absorb .right other).toList = row.toList ++ other.toList :=
  toList_join row other

/-- A token pushed on the left comes first. -/
theorem toList_push_left (row : TokenRow) (token : Token) :
    (row.push .left token).toList = token :: row.toList :=
  toList_join (single token) row

/-- A token pushed on the right comes last. -/
theorem toList_push_right (row : TokenRow) (token : Token) :
    (row.push .right token).toList = row.toList ++ [token] :=
  toList_join row (single token)

/-- No row is empty. -/
theorem toList_ne_nil (row : TokenRow) : row.toList ≠ [] := by
  induction row with
  | single token => exact List.cons_ne_nil token []
  | join left right fromLeft _ =>
    rw [toList_join]
    exact List.append_ne_nil_of_left_ne_nil fromLeft right.toList

/-- The length of a row is the number of its tokens. -/
theorem length_toList (row : TokenRow) : row.toList.length = row.length := by
  induction row with
  | single token => rfl
  | join left right fromLeft fromRight =>
    rw [toList_join, List.length_append, fromLeft, fromRight, length]

/-- A test of the parts is a test of the tokens. -/
theorem any_toList (row : TokenRow) (test : Token → Bool) :
    row.toList.any test = row.any test := by
  induction row with
  | single token => exact Bool.or_false _
  | join left right fromLeft fromRight =>
    rw [toList_join, List.any_append, fromLeft, fromRight, any]

/-- A search in the parts is a search in the tokens. -/
theorem findSome?_toList {α : Type} (row : TokenRow) (search : Token → Option α) :
    row.toList.findSome? search = row.findSome? search := by
  induction row with
  | single token =>
    rw [toList_single, List.findSome?_cons, List.findSome?_nil, findSome?]
    cases search token <;> rfl
  | join left right fromLeft fromRight =>
    rw [toList_join, List.findSome?_append, fromLeft, fromRight, findSome?]
    cases left.findSome? search <;> rfl

/-- The number of bytes of the words and of the spaces between them. -/
def textSize : TokenRow → Nat
  | single token => token.text.utf8ByteSize
  | join left right => left.textSize + right.textSize + 1

/-- Two joined rows read as one, a space and the other. -/
theorem text_join (left right : TokenRow) :
    (join left right).text = left.text ++ " " ++ right.text := by
  rw [text, toList_join, List.map_append,
    String.intercalate_append_of_ne_nil (by simp [toList_ne_nil]) (by simp [toList_ne_nil]),
    text, text]

/-- The size of a text is what it takes. -/
theorem utf8ByteSize_text (row : TokenRow) : row.text.utf8ByteSize = row.textSize := by
  induction row with
  | single token =>
    rw [text, toList_single, List.map_singleton, String.intercalate_singleton, textSize]
  | join left right fromLeft fromRight =>
    have space : " ".utf8ByteSize = 1 := rfl
    rw [text_join, String.utf8ByteSize_append, String.utf8ByteSize_append, fromLeft, fromRight,
      space, textSize]
    omega

/-- Whether two rows read the same; texts of different sizes need not be written out. -/
def readsLike (a b : TokenRow) : Bool :=
  a.textSize = b.textSize && a.text = b.text

/-- Rows read the same if their texts are equal. -/
theorem readsLike_iff (a b : TokenRow) : a.readsLike b = true ↔ a.text = b.text := by
  rw [readsLike, Bool.and_eq_true, decide_eq_true_eq, decide_eq_true_eq]
  exact ⟨And.right, fun same => ⟨by rw [← utf8ByteSize_text, same, utf8ByteSize_text], same⟩⟩

end TokenRow

end PhraseGrammar
