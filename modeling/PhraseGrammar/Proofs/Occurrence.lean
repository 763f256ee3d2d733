import PhraseGrammar.Extractor

/-! A phrase that grows from tokens and neighbours stays a faithful piece of its sentence. -/

namespace PhraseGrammar

/-- What a phrase shows: everything but the way in which its row was put together. -/
structure Occurrence where
  /-- Where the phrase stands. -/
  span : Span
  /-- Its tokens in text order. -/
  tokens : List Token
  /-- The name of the pattern. -/
  pattern : String
  /-- The number of the document. -/
  document : UInt32
  /-- The number of the sentence. -/
  sentence : UInt32
  /-- The position of the head, where one is known. -/
  head : Option Nat

/-- The words of the tokens with spaces between them. -/
def Occurrence.text (occurrence : Occurrence) : String :=
  " ".intercalate (occurrence.tokens.map Token.text)

/-- What a phrase shows. -/
def Phrase.occurrence (phrase : Phrase) : Occurrence where
  span := phrase.span
  tokens := phrase.tokens
  pattern := phrase.pattern
  document := phrase.document
  sentence := phrase.sentence
  head := phrase.head

/-- The tokens of a sentence at the positions of a span. -/
def Sentence.slice (sentence : Sentence) (span : Span) : List Token :=
  -- The last position belongs to the span.
  (sentence.tokens.drop span.first).take (span.last + 1 - span.first)

/-- What a phrase shows that stands in a sentence at a span. -/
def Sentence.occurrence (sentence : Sentence) (pattern : String) (span : Span) (head : Option Nat) :
    Occurrence where
  span
  tokens := sentence.slice span
  pattern
  document := sentence.document
  sentence := sentence.id
  head

namespace Span

/-- Whether a run of positions lies right next to a span on a side. -/
def Beside (run span : Span) (side : Side) : Prop :=
  match side with
  | .left => run.last + 1 = span.first
  | .right => span.last + 1 = run.first

/-- Whether a span lies in a sentence of some length. -/
def Within (length : Nat) (span : Span) : Prop :=
  span.first < length ∧ span.last < length

/-- Where a span in a sentence ends on a side, it is still in the sentence. -/
theorem Within.reach {length : Nat} {span : Span} (within : span.Within length) (side : Side) :
    span.reach side < length := by
  cases side with
  | left => exact within.1
  | right => exact within.2

/-- A span that is stretched to a position in a sentence stays in it. -/
theorem Within.stretch {length position : Nat} {span : Span} {side : Side}
    (within : span.Within length) (inside : position < length) :
    (span.stretch side position).Within length := by
  cases side with
  | left => exact ⟨inside, within.2⟩
  | right => exact ⟨within.1, inside⟩

/-- Stretching a span on a side forgets where it ended there before. -/
@[simp]
theorem stretch_stretch (span : Span) (side : Side) (near far : Nat) :
    (span.stretch side near).stretch side far = span.stretch side far := by
  cases side <;> rfl

/-- A span stretched to a position on a side ends there on that side. -/
@[simp]
theorem reach_stretch (span : Span) (side : Side) (position : Nat) :
    (span.stretch side position).reach side = position := by
  cases side <;> rfl

/-- A span of one position ends there on both sides. -/
@[simp]
theorem reach_single (position : Nat) (side : Side) :
    (⟨position, position⟩ : Span).reach side = position := by
  cases side <;> rfl

/-- Stretching a span to where it ends anyway changes nothing. -/
@[simp]
theorem stretch_reach (span : Span) (side : Side) : span.stretch side (span.reach side) = span := by
  cases side <;> rfl

end Span

namespace Sentence

/-- A span within a sentence has as many tokens as positions. -/
theorem length_slice {sentence : Sentence} {span : Span} (ordered : span.first ≤ span.last)
    (inside : span.last < sentence.length) : (sentence.slice span).length = span.length := by
  unfold length at inside
  -- Enough tokens are left behind the first position.
  rw [slice, List.length_take, List.length_drop, Span.length]
  omega

/-- A span of one position has the token there. -/
theorem slice_single {sentence : Sentence} {position : Nat} {token : Token}
    (found : sentence.tokens[position]? = some token) :
    sentence.slice ⟨position, position⟩ = [token] := by
  obtain ⟨inside, same⟩ := List.getElem?_eq_some_iff.mp found
  have one : position + 1 - position = 1 := by omega
  -- The token is the first of those from its position on.
  rw [slice, one, List.drop_eq_getElem_cons inside, same, List.take_succ_cons, List.take_zero]

/-- The tokens of two spans next to each other are those of both together. -/
theorem slice_append {sentence : Sentence} {first middle last : Nat} (before : first ≤ middle + 1)
    (after : middle ≤ last) :
    sentence.slice ⟨first, middle⟩ ++ sentence.slice ⟨middle + 1, last⟩ =
      sentence.slice ⟨first, last⟩ := by
  -- From the first position on, as many tokens are taken for the first span as are dropped then.
  have both : last + 1 - first = (middle + 1 - first) + (last + 1 - (middle + 1)) := by omega
  have rest : first + (middle + 1 - first) = middle + 1 := by omega
  simp only [slice]
  rw [both, List.take_add, List.drop_drop, rest]

end Sentence

namespace Phrase

variable {extractor : Extractor} {sentence : Sentence} {phrase other : Phrase}

/-- A phrase shows a piece of a sentence, all of it made of tokens that can take part. -/
structure Faithful (extractor : Extractor) (sentence : Sentence) (phrase : Phrase) : Prop where
  /-- The first position is not behind the last one. -/
  ordered : phrase.span.first ≤ phrase.span.last
  /-- The last position lies in the sentence. -/
  inside : phrase.span.last < sentence.length
  /-- The tokens are those of the sentence at the span. -/
  tokens_eq : phrase.tokens = sentence.slice phrase.span
  /-- The document is that of the sentence. -/
  document_eq : phrase.document = sentence.document
  /-- The sentence is named by its number. -/
  sentence_eq : phrase.sentence = sentence.id
  /-- A head lies in the span. -/
  head_inside : ∀ head, phrase.head = some head →
    phrase.span.first ≤ head ∧ head ≤ phrase.span.last
  /-- Every token can take part in phrases. -/
  admitted : ∀ token ∈ phrase.tokens, extractor.admits token

/-- A faithful phrase shows what its sentence has at its span. -/
theorem Faithful.occurrence_eq (faithful : phrase.Faithful extractor sentence) :
    phrase.occurrence = sentence.occurrence phrase.pattern phrase.span phrase.head := by
  -- Each field of the phrase is one of those that the sentence tells.
  rw [occurrence, Sentence.occurrence, faithful.tokens_eq, faithful.document_eq,
    faithful.sentence_eq]

/-- A faithful phrase lies in its sentence. -/
theorem Faithful.within (faithful : phrase.Faithful extractor sentence) :
    phrase.span.Within sentence.length :=
  ⟨Nat.lt_of_le_of_lt faithful.ordered faithful.inside, faithful.inside⟩

/-- The head of a faithful phrase lies in its sentence. -/
theorem Faithful.head_lt (faithful : phrase.Faithful extractor sentence) {head : Nat}
    (headed : head ∈ phrase.head) : head < sentence.length :=
  Nat.lt_of_le_of_lt (faithful.head_inside head headed).2 faithful.inside

/-- A phrase has the span, the pattern and the head of what it shows. -/
theorem of_occurrence_eq {pattern : String} {span : Span} {head : Option Nat}
    (shown : phrase.occurrence = sentence.occurrence pattern span head) :
    phrase.span = span ∧ phrase.pattern = pattern ∧ phrase.head = head :=
  ⟨congrArg Occurrence.span shown, congrArg Occurrence.pattern shown,
    congrArg Occurrence.head shown⟩

/-- A phrase of one admitted token is faithful. -/
theorem faithful_ofToken {token : Token} {position : Nat} {pattern : String}
    (found : sentence.tokens[position]? = some token) (admits : extractor.admits token) :
    (ofToken sentence token position pattern).Faithful extractor sentence where
  ordered := Nat.le_refl _
  inside := (List.getElem?_eq_some_iff.mp found).1
  tokens_eq := (Sentence.slice_single found).symm
  document_eq := rfl
  sentence_eq := rfl
  head_inside := by
    rintro head same
    cases same
    exact ⟨Nat.le_refl _, Nat.le_refl _⟩
  admitted := by
    intro next member
    rw [tokens, ofToken, TokenRow.toList_single, List.mem_singleton] at member
    rwa [member]

/-- A phrase put together from two faithful ones that adjoin is faithful. -/
theorem faithful_of_halves {left right whole : Phrase} (first : left.Faithful extractor sentence)
    (second : right.Faithful extractor sentence) (adjoins : left.span.last + 1 = right.span.first)
    (span_eq : whole.span = ⟨left.span.first, right.span.last⟩)
    (tokens_eq : whole.tokens = left.tokens ++ right.tokens)
    (document_eq : whole.document = sentence.document) (sentence_eq : whole.sentence = sentence.id)
    (head_eq : whole.head = left.head ∨ whole.head = right.head) :
    whole.Faithful extractor sentence := by
  have leftOrdered := first.ordered
  have rightOrdered := second.ordered
  have inside := second.inside
  refine ⟨?_, ?_, ?_, document_eq, sentence_eq, fun head same => ?_, fun token member => ?_⟩
  · -- The first half ends before the second one starts.
    rw [span_eq]
    show left.span.first ≤ right.span.last
    omega
  · rw [span_eq]
    exact inside
  · -- The tokens of the two spans are those of the span from the first start to the last end.
    rw [tokens_eq, first.tokens_eq, second.tokens_eq, span_eq]
    show sentence.slice ⟨left.span.first, left.span.last⟩ ++
      sentence.slice ⟨right.span.first, right.span.last⟩ = _
    rw [← adjoins]
    exact Sentence.slice_append (by omega) (by omega)
  · -- The head stays where it was in one of the halves.
    rw [span_eq]
    rcases head_eq with own | own
    · obtain ⟨above, below⟩ := first.head_inside head (own ▸ same)
      exact ⟨above, by show head ≤ right.span.last; omega⟩
    · obtain ⟨above, below⟩ := second.head_inside head (own ▸ same)
      exact ⟨by show left.span.first ≤ head; omega, below⟩
  · rw [tokens_eq, List.mem_append] at member
    exact member.elim (first.admitted token) (second.admitted token)

/-- A phrase that takes over a faithful neighbour stays faithful. -/
theorem Faithful.absorb (faithful : phrase.Faithful extractor sentence)
    (neighbour : other.Faithful extractor sentence) {side : Side}
    (beside : other.span.Beside phrase.span side) :
    (phrase.absorb side other).Faithful extractor sentence := by
  -- The side tells which of the two comes first.
  cases side with
  | left =>
    exact faithful_of_halves neighbour faithful beside rfl
      (TokenRow.toList_absorb_left phrase.row other.row) faithful.document_eq
      faithful.sentence_eq (.inr rfl)
  | right =>
    exact faithful_of_halves faithful neighbour beside rfl
      (TokenRow.toList_absorb_right phrase.row other.row) faithful.document_eq
      faithful.sentence_eq (.inl rfl)

/-- A phrase that takes one more admitted token stays faithful. -/
theorem Faithful.push (faithful : phrase.Faithful extractor sentence) {side : Side}
    {token : Token} {position : Nat} (found : sentence.tokens[position]? = some token)
    (admits : extractor.admits token) (beside : Span.Beside ⟨position, position⟩ phrase.span side) :
    (phrase.push side position token).Faithful extractor sentence := by
  -- A token is pushed as the phrase of that token alone is absorbed.
  have alone : (ofToken sentence token position phrase.pattern).Faithful extractor sentence :=
    faithful_ofToken found admits
  have same : phrase.push side position token =
      phrase.absorb side (ofToken sentence token position phrase.pattern) := by
    cases side <;> rfl
  rw [same]
  exact faithful.absorb alone beside

/-- A phrase stays faithful as an occurrence of another pattern with a head in its span. -/
theorem Faithful.relabel (faithful : phrase.Faithful extractor sentence) (pattern : String)
    {head : Option Nat}
    (inside : ∀ position, head = some position →
      phrase.span.first ≤ position ∧ position ≤ phrase.span.last) :
    ({ phrase with pattern, head } : Phrase).Faithful extractor sentence :=
  ⟨faithful.ordered, faithful.inside, faithful.tokens_eq, faithful.document_eq,
    faithful.sentence_eq, inside, faithful.admitted⟩

end Phrase

end PhraseGrammar
