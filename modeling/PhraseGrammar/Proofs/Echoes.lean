import Mathlib.Data.List.Destutter
import Mathlib.Data.List.Induction
import PhraseGrammar.Proofs.Occurrence

/-! Dropping phrases that read like the one before them drops those that echo the last kept one. -/

namespace PhraseGrammar

/-- Whether two phrases show different texts. -/
abbrev Occurrence.Differs (a b : Occurrence) : Prop :=
  a.text ≠ b.text

/-- Whether two phrases have different texts. -/
abbrev Phrase.Differs (a b : Phrase) : Prop :=
  a.text ≠ b.text

namespace Phrase

/-- What a phrase shows reads as the phrase does. -/
theorem text_occurrence (phrase : Phrase) : phrase.occurrence.text = phrase.text :=
  rfl

/-- After a kept phrase, a phrase is kept if it does not read like the last kept one. -/
theorem cons_dropEchoesAfter (kept previous : Phrase) (phrases : List Phrase)
    (same : kept.text = previous.text) :
    kept :: dropEchoesAfter (some previous) phrases =
      phrases.destutter' Differs kept := by
  -- A dropped phrase reads like the kept one, so that comparing with either is the same.
  induction phrases generalizing kept previous with
  | nil => rfl
  | cons phrase phrases rest =>
    rw [dropEchoesAfter_cons, Option.any_some]
    by_cases echo : previous.text = phrase.text
    · rw [if_pos ((TokenRow.readsLike_iff ..).mpr echo),
        List.destutter'_cons_neg _ (not_not.mpr (same.trans echo))]
      exact rest kept phrase (same.trans echo)
    · rw [if_neg (mt (TokenRow.readsLike_iff ..).mp echo),
        List.destutter'_cons_pos _ (fun equal => echo (same.symm.trans equal))]
      exact congrArg (kept :: ·) (rest phrase phrase rfl)

/-- What stays are the phrases that do not read like the last one kept before them. -/
theorem dropEchoes_eq (phrases : List Phrase) :
    dropEchoes phrases = phrases.destutter Differs := by
  -- The first phrase has none before it that it could echo.
  cases phrases with
  | nil => rfl
  | cons phrase phrases =>
    rw [dropEchoes, dropEchoesAfter_cons, Option.any_none, if_neg Bool.false_ne_true,
      List.destutter_cons']
    exact cons_dropEchoesAfter phrase phrase phrases rfl

/-- What stays shows the same as the phrases did. -/
theorem map_occurrence_dropEchoes (phrases : List Phrase) :
    (dropEchoes phrases).map occurrence =
      (phrases.map occurrence).destutter Occurrence.Differs := by
  rw [dropEchoes_eq]
  -- Whether two phrases differ can be told from what they show.
  refine List.map_destutter fun a _ b _ => ?_
  rw [Occurrence.Differs, text_occurrence, text_occurrence]

/-- Only phrases that were there stay, whatever comes before them. -/
theorem dropEchoesAfter_sublist (previous : Option Phrase) (phrases : List Phrase) :
    (dropEchoesAfter previous phrases).Sublist phrases := by
  induction phrases generalizing previous with
  | nil => exact List.Sublist.refl _
  | cons phrase phrases rest =>
    rw [dropEchoesAfter_cons]
    split
    · exact (rest _).cons phrase
    · exact (rest _).cons_cons phrase

/-- Only phrases that were there stay. -/
theorem dropEchoes_sublist (phrases : List Phrase) : (dropEchoes phrases).Sublist phrases :=
  dropEchoesAfter_sublist none phrases

/-- Of two lists one after the other, the second is compared with the end of the first. -/
theorem dropEchoesAfter_append (previous : Option Phrase) (first second : List Phrase) :
    dropEchoesAfter previous (first ++ second) =
      dropEchoesAfter previous first ++ dropEchoesAfter (first.getLast?.or previous) second := by
  -- What comes before changes along the first list, so it stays general.
  induction first generalizing previous with
  | nil => rfl
  | cons phrase first rest =>
    have last : (phrase :: first).getLast?.or previous = first.getLast?.or (some phrase) := by
      rw [List.getLast?_cons]
      cases first.getLast? <;> rfl
    rw [List.cons_append, dropEchoesAfter_cons, dropEchoesAfter_cons, rest, last]
    split
    · rfl
    · rw [List.cons_append]

/-- The first phrase has none before it, and so it stays. -/
theorem head?_dropEchoes (phrases : List Phrase) : (dropEchoes phrases).head? = phrases.head? := by
  cases phrases with
  | nil => rfl
  | cons phrase phrases =>
    rw [dropEchoes, dropEchoesAfter_cons, Option.any_none, if_neg Bool.false_ne_true,
      List.head?_cons, List.head?_cons]

/-- The last phrase that stays reads like the last one there was. -/
theorem text_getLast?_dropEchoes (phrases : List Phrase) :
    (dropEchoes phrases).getLast?.map text = phrases.getLast?.map text := by
  -- The induction is from the end, since the last phrase is dropped for the one before it.
  induction phrases using List.reverseRecOn with
  | nil => rfl
  | append_singleton phrases phrase rest =>
    rw [dropEchoes, dropEchoesAfter_append, Option.or_none, dropEchoesAfter_cons, ← dropEchoes]
    split
    · rename_i echo
      obtain ⟨before, last, same⟩ := (Option.any_eq_true ..).mp echo
      have texts : before.text = phrase.text := (TokenRow.readsLike_iff ..).mp same
      rw [dropEchoesAfter_nil, List.append_nil, rest, last, List.getLast?_append,
        List.getLast?_singleton, Option.some_or, Option.map_some, Option.map_some, texts]
    · rw [dropEchoesAfter_nil, List.getLast?_append, List.getLast?_append, List.getLast?_singleton]
      rfl

/-- The text of a phrase after a kept one is that of the kept one or of one that stays. -/
theorem exists_mem_destutter'_text {kept phrase : Phrase} {phrases : List Phrase}
    (member : phrase ∈ kept :: phrases) :
    ∃ stays ∈ phrases.destutter' Differs kept, stays.text = phrase.text := by
  -- The last kept phrase changes along the list, so it stays general.
  induction phrases generalizing kept phrase with
  | nil => exact ⟨kept, by simp, by rw [List.mem_singleton.mp member]⟩
  | cons next phrases rest =>
    by_cases differs : kept.text ≠ next.text
    · rw [List.destutter'_cons_pos (R := Differs) phrases differs]
      rcases List.mem_cons.mp member with rfl | member
      · exact ⟨phrase, List.mem_cons_self, rfl⟩
      · obtain ⟨stays, found, same⟩ := rest member
        exact ⟨stays, List.mem_cons_of_mem _ found, same⟩
    · -- The next phrase is dropped, but it reads like the kept one.
      rw [List.destutter'_cons_neg (R := Differs) phrases differs]
      rcases List.mem_cons.mp member with rfl | member
      · exact rest List.mem_cons_self
      · rcases List.mem_cons.mp member with rfl | member
        · obtain ⟨stays, found, same⟩ :
              ∃ stays ∈ phrases.destutter' Differs kept, stays.text = kept.text :=
            rest List.mem_cons_self
          exact ⟨stays, found, same.trans (not_not.mp differs)⟩
        · exact rest (List.mem_cons_of_mem _ member)

/-- No text is lost: what a dropped phrase reads, some phrase that stays reads, too. -/
theorem exists_mem_dropEchoes_text {phrase : Phrase} {phrases : List Phrase}
    (member : phrase ∈ phrases) : ∃ stays ∈ dropEchoes phrases, stays.text = phrase.text := by
  rw [dropEchoes_eq]
  cases phrases with
  | nil => cases member
  | cons kept phrases => exact exists_mem_destutter'_text member

/-- Phrases that read the same one by one lose the same echoes. -/
theorem rel_dropEchoes {related : Phrase → Phrase → Prop} {phrases others : List Phrase}
    (texts : ∀ phrase other, related phrase other → phrase.text = other.text)
    (each : List.Forall₂ related phrases others) :
    List.Forall₂ related (dropEchoes phrases) (dropEchoes others) := by
  have any (before : Option Phrase) (phrase : Phrase) :
      (before.any fun before => before.row.readsLike phrase.row) =
        (before.map text).any fun before => before = phrase.text := by
    cases before with
    | none => rfl
    | some before =>
      rw [Option.map_some, Option.any_some, Option.any_some, Bool.eq_iff_iff,
        TokenRow.readsLike_iff, decide_eq_true_eq, text, text]
  -- What comes before reads the same on both sides, if there is anything.
  have after : ∀ previous previousToo : Option Phrase, previous.map text = previousToo.map text →
      List.Forall₂ related (dropEchoesAfter previous phrases)
        (dropEchoesAfter previousToo others) := by
    induction each with
    | nil => exact fun _ _ _ => .nil
    | @cons phrase other _ _ here _ rest =>
      intro previous previousToo same
      have later := rest (some phrase) (some other) (congrArg some (texts phrase other here))
      rw [dropEchoesAfter_cons, dropEchoesAfter_cons, any previous, any previousToo, same,
        texts phrase other here]
      split
      · exact later
      · exact .cons here later
  exact after none none rfl

end Phrase

end PhraseGrammar
