import Mathlib.Data.List.InsertIdx
import PhraseGrammar.Condition
import PhraseGrammar.Proofs.TagOrder

/-! Demanding less lets more pass; a further reading can only spoil a match or bring acceptance. -/

namespace PhraseGrammar

open Morphology

/-- The token with one more reading at a place among its own. -/
def Token.insertReading (token : Token) (place : Nat) (reading : Reading) : Token :=
  { token with readings := token.readings.insertIdx place reading }

namespace Token

variable {token : Token} {place : Nat} {reading other : Reading}

/-- No reading is lost where one is added. -/
theorem readings_subset_insertReading :
    token.readings ⊆ (token.insertReading place reading).readings :=
  List.subset_insertIdx token.readings place reading

/-- A reading that is added between others is one of the readings. -/
theorem mem_insertReading (inside : place ≤ token.readings.length) :
    reading ∈ (token.insertReading place reading).readings :=
  (List.mem_insertIdx inside).mpr (.inl rfl)

end Token

namespace Condition

/-- Whether a condition demands no more of a reading than another one does. -/
structure DemandsNoMore (condition other : Condition) : Prop where
  /-- Every attribute that it asks for is asked for by the other one, with the same value. -/
  tag : condition.tag.accepts other.tag = true
  /-- If it asks for a lexeme, then for that of the other one. -/
  lexeme : condition.additional.lexeme = none ∨
    condition.additional.lexeme = other.additional.lexeme

section Demands

variable {lenient strict : Condition} {pos : PartOfSpeech} {token : Token} {reading : Reading}

/-- The attributes that meet a condition meet each one that demands no more. -/
theorem DemandsNoMore.matchesAttributes (less : lenient.DemandsNoMore strict)
    (matched : strict.matchesAttributes reading) : lenient.matchesAttributes reading :=
  Tag.accepts_trans less.tag matched

/-- The lexeme that meets a condition meets each one that demands no more. -/
theorem DemandsNoMore.matchesLexeme (less : lenient.DemandsNoMore strict)
    (matched : strict.additional.matchesLexeme reading) :
    lenient.additional.matchesLexeme reading := by
  unfold Additional.matchesLexeme at matched ⊢
  rcases less.lexeme with none | same
  · -- Without a lexeme every reading passes.
    simp [none]
  · rw [same]
    exact matched

/-- A reading that meets a condition meets each one that demands no more. -/
theorem DemandsNoMore.matchesReading (less : lenient.DemandsNoMore strict)
    (matched : strict.matchesReading reading) : lenient.matchesReading reading := by
  -- Themes are no demand, so that attributes and lexeme are all there is.
  simp only [Condition.matchesReading, Additional.matchesReading, Additional.matchesThemes,
    Bool.and_true, Bool.and_eq_true] at matched ⊢
  obtain ⟨attributes, lexeme⟩ := matched
  exact ⟨less.matchesAttributes attributes, less.matchesLexeme lexeme⟩

/-- A token matches if it has readings and all of them have the part of speech and the rest. -/
theorem matchesToken_iff {condition : Condition} :
    condition.matchesToken pos token ↔ token.readings ≠ [] ∧
      ∀ reading ∈ token.readings, reading.pos = pos ∧ condition.matchesReading reading := by
  simp [matchesToken]

/-- A token that meets a condition meets each one that demands no more. -/
theorem DemandsNoMore.matchesToken (less : lenient.DemandsNoMore strict)
    (matched : strict.matchesToken pos token) : lenient.matchesToken pos token := by
  obtain ⟨some, all⟩ := matchesToken_iff.mp matched
  apply matchesToken_iff.mpr
  refine ⟨some, ?_⟩
  intro reading member
  obtain ⟨same, meets⟩ := all reading member
  exact ⟨same, less.matchesReading meets⟩

/-- What a condition finds, each one that demands no more finds as well, or something before it. -/
theorem DemandsNoMore.acceptedIndex? (less : lenient.DemandsNoMore strict) {index : Nat}
    (found : strict.acceptedIndex? token = some index) :
    ∃ earlier ≤ index, lenient.acceptedIndex? token = some earlier := by
  obtain ⟨earlier, before, foundToo⟩ := List.findIdx?_eq_some_le_of_findIdx?_eq_some
    (fun _ _ matched => less.matchesAttributes matched) found
  exact ⟨earlier, before, foundToo⟩

end Demands

section Readings

variable {condition : Condition} {pos : PartOfSpeech} {token : Token} {place : Nat}
  {reading : Reading}

/-- The reading that is accepted is the one at the index that is found. -/
theorem acceptedReading?_eq_bind : condition.acceptedReading? token =
    (condition.acceptedIndex? token).bind (token.readings[·]?) :=
  List.find?_eq_bind_findIdx?_getElem?

/-- A token is accepted if something is found in it. -/
theorem acceptsToken_eq_isSome :
    condition.acceptsToken token = (condition.acceptedIndex? token).isSome :=
  List.findIdx?_isSome.symm

/-- Something is accepted if some reading has the attributes, whatever its part of speech. -/
theorem isSome_acceptedReading?_iff : (condition.acceptedReading? token).isSome ↔
    ∃ reading ∈ token.readings, condition.matchesAttributes reading :=
  List.find?_isSome

/-- A token that matches with one reading more has matched before, if it had readings then. -/
theorem matchesToken_of_insertReading (some : token.readings ≠ [])
    (matched : condition.matchesToken pos (token.insertReading place reading)) :
    condition.matchesToken pos token := by
  obtain ⟨_, all⟩ := matchesToken_iff.mp matched
  -- All the readings that there were before are among those that meet the condition.
  apply matchesToken_iff.mpr
  refine ⟨some, ?_⟩
  intro other member
  exact all other (Token.readings_subset_insertReading member)

/-- What accepts a token accepts it with one reading more. -/
theorem isSome_acceptedReading?_insertReading (found : (condition.acceptedReading? token).isSome) :
    (condition.acceptedReading? (token.insertReading place reading)).isSome := by
  rw [isSome_acceptedReading?_iff] at found ⊢
  obtain ⟨other, member, accepted⟩ := found
  exact ⟨other, Token.readings_subset_insertReading member, accepted⟩

/-- No token matches once it has a reading of another part of speech. -/
theorem exists_insertReading_not_matchesToken (inside : place ≤ token.readings.length) :
    ∃ reading, ¬condition.matchesToken pos (token.insertReading place reading) := by
  obtain ⟨foreign, differs⟩ : ∃ foreign : PartOfSpeech, foreign ≠ pos := by
    by_cases noun : pos = .noun
    · exact ⟨.verb, by simp [noun]⟩
    · exact ⟨.noun, Ne.symm noun⟩
  let reading : Reading := ⟨foreign, .empty, .ofText "", .one⟩
  refine ⟨reading, ?_⟩
  intro matched
  -- The added reading would have to have the part of speech, too.
  obtain ⟨_, all⟩ := matchesToken_iff.mp matched
  exact differs (all reading (Token.mem_insertReading inside)).1

/-- Every token is accepted once it has a reading with the attributes that are asked for. -/
theorem exists_insertReading_acceptedReading? (inside : place ≤ token.readings.length) :
    ∃ reading, (condition.acceptedReading? (token.insertReading place reading)).isSome := by
  let reading : Reading := ⟨.noun, condition.tag, .ofText "", .one⟩
  refine ⟨reading, ?_⟩
  apply isSome_acceptedReading?_iff.mpr
  exact ⟨reading, Token.mem_insertReading inside, Tag.accepts_refl condition.tag⟩

/-- Whatever a condition asks for, there is a token that meets it. -/
theorem exists_matchesToken (condition : Condition) (pos : PartOfSpeech) :
    ∃ token, condition.matchesToken pos token := by
  let reading : Reading :=
    ⟨pos, condition.tag, condition.additional.lexeme.getD (.ofText ""), .one⟩
  refine ⟨⟨"", [reading]⟩, ?_⟩
  have lexeme : condition.additional.matchesLexeme reading = true := by
    unfold Additional.matchesLexeme
    cases wanted : condition.additional.lexeme with
    | none => rfl
    | some form => simp [reading, wanted, BaseForm.agrees]
  simp [matchesToken, matchesReading, matchesAttributes, Additional.matchesReading,
    Additional.matchesThemes, lexeme, reading, Tag.accepts_refl]

/-- A condition that asks for some attribute does not accept every token that has readings. -/
theorem exists_acceptedReading?_eq_none (asks : condition.tag ≠ .empty) :
    ∃ token, token.readings ≠ [] ∧ condition.acceptedReading? token = none := by
  let reading : Reading := ⟨.noun, .empty, .ofText "", .one⟩
  refine ⟨⟨"", [reading]⟩, List.cons_ne_nil reading [], ?_⟩
  have refused : ¬condition.tag.accepts .empty = true := by
    intro accepted
    -- Everything is asked for by a tag that asks for nothing, so that the two would be the same.
    exact asks (Tag.accepts_antisymm accepted (Tag.empty_accepts condition.tag))
  simp [acceptedReading?, matchesAttributes, reading, refused]

/-- Where all readings meet a condition, the first one is accepted. -/
theorem acceptedIndex?_of_matchesToken (matched : condition.matchesToken pos token) :
    condition.acceptedIndex? token = some 0 := by
  obtain ⟨some, all⟩ := matchesToken_iff.mp matched
  obtain ⟨text, readings⟩ := token
  cases readings with
  | nil => exact absurd rfl some
  | cons first readings =>
    obtain ⟨_, meets⟩ := all first List.mem_cons_self
    -- The attributes are part of what the first reading meets.
    have attributes : condition.matchesAttributes first = true := (Bool.and_eq_true_iff.mp meets).1
    simp [acceptedIndex?, List.findIdx?_cons, attributes]

end Readings

/-- Conditions are monotone in what they demand, and answer one way only to one reading more. -/
theorem demands_monotone :
    (∀ lenient strict : Condition, lenient.DemandsNoMore strict →
      (∀ reading, strict.matchesReading reading → lenient.matchesReading reading) ∧
      (∀ pos token, strict.matchesToken pos token → lenient.matchesToken pos token) ∧
      ∀ token index, strict.acceptedIndex? token = some index →
        ∃ earlier ≤ index, lenient.acceptedIndex? token = some earlier) ∧
    (∀ (condition : Condition) (token : Token),
      condition.acceptedReading? token =
          (condition.acceptedIndex? token).bind (token.readings[·]?) ∧
        condition.acceptsToken token = (condition.acceptedIndex? token).isSome) ∧
    ∀ (condition : Condition) (pos : PartOfSpeech),
      (∀ (token : Token) (place : Nat) (reading : Reading), token.readings ≠ [] →
        (condition.matchesToken pos (token.insertReading place reading) →
          condition.matchesToken pos token) ∧
        ((condition.acceptedReading? token).isSome →
          (condition.acceptedReading? (token.insertReading place reading)).isSome)) ∧
      (∀ (token : Token) (place : Nat), place ≤ token.readings.length →
        (condition.matchesToken pos token →
          ∃ reading, ¬condition.matchesToken pos (token.insertReading place reading)) ∧
        (condition.acceptedReading? token = none →
          ∃ reading, (condition.acceptedReading? (token.insertReading place reading)).isSome)) ∧
      (∃ token, condition.matchesToken pos token) ∧
      (condition.tag ≠ .empty →
        ∃ token, token.readings ≠ [] ∧ condition.acceptedReading? token = none) ∧
      ∀ token, condition.matchesToken pos token →
        condition.acceptedIndex? token = some 0 ∧
          condition.acceptedReading? token = token.readings.head? := by
  refine ⟨?_, fun _ _ => ⟨acceptedReading?_eq_bind, acceptsToken_eq_isSome⟩, ?_⟩
  · -- Two conditions are compared on the same reading or token.
    intro lenient strict less
    exact ⟨fun _ => less.matchesReading, fun _ _ => less.matchesToken,
      fun _ _ => less.acceptedIndex?⟩
  · -- One condition is asked about a token before and after it gets a reading more.
    intro condition pos
    refine ⟨?_, ?_, condition.exists_matchesToken pos, exists_acceptedReading?_eq_none, ?_⟩
    · intro token place reading some
      exact ⟨matchesToken_of_insertReading some, isSome_acceptedReading?_insertReading⟩
    · intro token place inside
      exact ⟨fun _ => exists_insertReading_not_matchesToken inside,
        fun _ => exists_insertReading_acceptedReading? inside⟩
    · intro token matched
      have first := acceptedIndex?_of_matchesToken matched
      refine ⟨first, ?_⟩
      rw [acceptedReading?_eq_bind, first, Option.bind_some, List.head?_eq_getElem?]

/-- A nominative demands less than the nominative singular of one word, and finds a plural first. -/
theorem demands_monotone_nominative :
    let nominative := Tag.empty.assign .nominative
    let lenient : Condition := { tag := nominative }
    let strict : Condition :=
      (ofRole .head).withTag (nominative.assign .singular) |>.withLexeme "cat"
    let singular : Reading := ⟨.noun, nominative.assign .singular, .ofText "Cat", .one⟩
    let plural : Reading := ⟨.noun, nominative.assign .plural, .ofText "cat", .one⟩
    let cat : Token := ⟨"Cat", [singular]⟩
    lenient.DemandsNoMore strict ∧ strict.matchesToken .noun cat ∧
      lenient.matchesToken .noun cat ∧ strict.acceptedReading? cat = some singular ∧
      strict.acceptedIndex? (cat.insertReading 0 plural) = some 1 ∧
      (∃ earlier ≤ 1, lenient.acceptedIndex? (cat.insertReading 0 plural) = some earlier) ∧
      ¬strict.matchesToken .noun (cat.insertReading 0 plural) ∧
      (strict.acceptedReading? (cat.insertReading 0 plural)).isSome ∧
      ∃ reading, ¬strict.matchesToken .noun (cat.insertReading 1 reading) := by
  intro nominative lenient strict singular plural cat
  obtain ⟨less, _, more⟩ := demands_monotone
  have demands : lenient.DemandsNoMore strict := ⟨by decide, .inl rfl⟩
  have matched : strict.matchesToken .noun cat = true := by decide +kernel
  have found : strict.acceptedIndex? (cat.insertReading 0 plural) = some 1 := by decide +kernel
  obtain ⟨_, tokens, indices⟩ := less lenient strict demands
  obtain ⟨never, turns, _, _, first⟩ := more strict .noun
  have accepted := (first cat matched).2
  refine ⟨demands, matched, tokens .noun cat matched, accepted, found, indices _ 1 found,
    ?_, ?_, ?_⟩
  · decide +kernel
  · exact (never cat 0 plural (List.cons_ne_nil singular [])).2 (by rw [accepted]; rfl)
  · exact (turns cat 1 (Nat.le_refl 1)).1 matched

end Condition

end PhraseGrammar
