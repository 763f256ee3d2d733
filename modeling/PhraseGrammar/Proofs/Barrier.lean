import PhraseGrammar.Proofs.BoundaryReduction
import PhraseGrammar.Proofs.Budget
import PhraseGrammar.Proofs.CompositeEmbedding

/-! A token that can take part in nothing splits a sentence into two that are searched on their own. -/

namespace PhraseGrammar

open Search

variable {extractor : Extractor} {first second : Sentence} {barrier : Token} {offset : Nat}

namespace Phrase

variable {near far : List Phrase}

/-- Whether the last of some phrases and the first of others have different texts, where there are both. -/
def Apart (near far : List Phrase) : Prop :=
  ∀ last ∈ near.getLast?, ∀ next ∈ far.head?, last.text ≠ next.text

/-- Whether phrases are apart is a matter of their texts. -/
theorem apart_iff_texts : Apart near far ↔
    ∀ last ∈ (near.map text).getLast?, ∀ next ∈ (far.map text).head?, last ≠ next := by
  rw [Apart, List.getLast?_map, List.head?_map]
  simp

/-- Phrases further on echo each other as they do. -/
theorem dropEchoesAfter_map_shift (previous : Option Phrase) (phrases : List Phrase) :
    dropEchoesAfter (previous.map (shift offset)) (phrases.map (shift offset)) =
      (dropEchoesAfter previous phrases).map (shift offset) := by
  induction phrases generalizing previous with
  | nil => rfl
  | cons phrase phrases rest =>
    have next := rest (some phrase)
    rw [Option.map_some] at next
    rw [List.map_cons, dropEchoesAfter_cons, dropEchoesAfter_cons, next, Option.any_map]
    -- Whether a phrase echoes another one is asked of their rows.
    show (if (previous.any fun before => before.row.readsLike phrase.row) = true then _ else _) = _
    split
    · rfl
    · rw [List.map_cons]

/-- Where no echo is heard from the first phrases to the others, both lose their own echoes only. -/
theorem dropEchoes_append_shift (apart : Apart (dropEchoes near) (dropEchoes far)) :
    dropEchoes (near ++ far.map (shift offset)) =
      dropEchoes near ++ (dropEchoes far).map (shift offset) := by
  -- The others are heard behind the last of the first ones, if there is any.
  rw [dropEchoes, dropEchoesAfter_append, Option.or_none, ← dropEchoes]
  refine congrArg (dropEchoes near ++ ·) ?_
  rw [dropEchoes, ← dropEchoesAfter_map_shift, Option.map_none]
  cases far with
  | nil => rfl
  | cons next far =>
    rw [List.map_cons, dropEchoesAfter_cons, dropEchoesAfter_cons, Option.any_none,
      if_neg Bool.false_ne_true, if_neg]
    intro echo
    obtain ⟨last, isLast, same⟩ := (Option.any_eq_true ..).mp echo
    have texts : last.text = next.text := (TokenRow.readsLike_iff ..).mp same
    -- The last phrase that stays of the first ones reads like the last of them all.
    have kept := text_getLast?_dropEchoes near
    rw [isLast, Option.map_some, Option.map_eq_some_iff] at kept
    obtain ⟨stays, isKept, alike⟩ := kept
    refine apart stays isKept next ?_ (alike.trans texts)
    rw [head?_dropEchoes]
    rfl

/-- Further on phrases outlast each other as they do. -/
theorem outlasts_map_shift (count : Nat) (numbered : List (Phrase × Nat)) (next : Phrase × Nat) :
    outlasts (numbered.map (shiftLeaf offset count)) (shiftLeaf offset count next) =
      outlasts numbered next := by
  rw [outlasts, outlasts, List.all_map]
  congr 1
  funext other
  -- Starts, ends and numbers are each moved on by the same amount.
  refine decide_eq_decide.mpr (imp_congr ?_ (and_congr ?_ (imp_congr ?_ ?_)))
  · exact Nat.add_right_cancel_iff
  · exact Nat.add_le_add_iff_right
  · exact Nat.add_right_cancel_iff
  · exact Nat.add_le_add_iff_right

/-- Phrases with starts before and behind a place are reduced on their own. -/
theorem reduceBoundaries_append_shift (before : ∀ phrase ∈ near, phrase.span.first < offset) :
    reduceBoundaries (near ++ far.map (shift offset)) =
      reduceBoundaries near ++ (reduceBoundaries far).map (shift offset) := by
  -- The others are numbered on from the first ones.
  have numbered : (near ++ far.map (shift offset)).zipIdx =
      near.zipIdx ++ far.zipIdx.map (shiftLeaf offset near.length) := by
    rw [List.zipIdx_append, Nat.zero_add, zipIdx_map_shift]
  -- No phrase further on starts where one of the first phrases does.
  have apart : ∀ next ∈ near.zipIdx, ∀ other ∈ far.zipIdx.map (shiftLeaf offset near.length),
      other.1.span.first ≠ next.1.span.first := by
    intro next member other moved
    have near := before next.1 (List.fst_mem_of_mem_zipIdx member)
    obtain ⟨further, _, rfl⟩ := List.mem_map.mp moved
    show further.1.span.first + offset ≠ next.1.span.first
    omega
  have nears : near.zipIdx.filter (outlasts (near.zipIdx ++
      far.zipIdx.map (shiftLeaf offset near.length))) =
        near.zipIdx.filter (outlasts near.zipIdx) := by
    -- For one of the first phrases none of the others counts.
    refine List.filter_congr fun next member => ?_
    rw [outlasts_append, outlasts_of_apart (apart next member), Bool.and_true]
  have fars : (far.zipIdx.map (shiftLeaf offset near.length)).filter (outlasts (near.zipIdx ++
      far.zipIdx.map (shiftLeaf offset near.length))) =
        (far.zipIdx.filter (outlasts far.zipIdx)).map (shiftLeaf offset near.length) := by
    -- For one of the others none of the first ones does.
    rw [List.filter_map]
    refine congrArg _ (List.filter_congr fun next member => ?_)
    have moved := List.mem_map_of_mem (f := shiftLeaf offset near.length) member
    rw [Function.comp_apply, outlasts_append,
      outlasts_of_apart fun other listed => (apart other listed _ moved).symm, Bool.true_and,
      outlasts_map_shift]
  rw [reduceBoundaries_eq, reduceBoundaries_eq, reduceBoundaries_eq, numbered, List.filter_append,
    List.map_append, nears, fars, List.map_map, List.map_map]
  rfl

end Phrase

section Passes

variable {before after : List Phrase}

/-- The phrases of words of the first sentence come first, and no others are near them. -/
theorem stands_first (befores : ∀ leaf ∈ before, leaf.Faithful extractor first)
    (afters : ∀ leaf ∈ after, leaf.Faithful extractor second) :
    Stands first 0 before [] (before ++ after.map (Phrase.shift (first.length + 1))) where
  split := by
    refine ⟨after.map (Phrase.shift (first.length + 1)), ?_, fun leaf member => ?_⟩
    · rw [List.nil_append, Phrase.map_shift_zero]
    · -- Behind the token between them the second sentence begins one place further on.
      obtain ⟨behind, listed, rfl⟩ := List.mem_map.mp member
      have ordered := (afters behind listed).ordered
      exact ⟨Nat.add_le_add_right ordered _, by
        show 0 + first.length < behind.span.first + (first.length + 1)
        omega⟩
  before := by simp
  inside leaf member := (befores leaf member).within
  headed leaf member _ headed := (befores leaf member).head_lt headed

/-- The phrases of words of the second sentence come last, and no others are near them. -/
theorem stands_second (befores : ∀ leaf ∈ before, leaf.Faithful extractor first)
    (afters : ∀ leaf ∈ after, leaf.Faithful extractor second) :
    Stands second (first.length + 1) after before
      (before ++ after.map (Phrase.shift (first.length + 1))) where
  split := ⟨[], by rw [List.append_nil], by simp⟩
  before leaf member := ⟨(befores leaf member).ordered, by
    have inside := (befores leaf member).inside
    omega⟩
  inside leaf member := (afters leaf member).within
  headed leaf member _ headed := (afters leaf member).head_lt headed

/-- What the pass for phrases of phrases finds in the first sentence comes before what it finds further on. -/
theorem Extractor.compositePass_join (refused : extractor.admits barrier = false)
    (document_eq : second.document = first.document) (id_eq : second.id = first.id)
    (befores : ∀ leaf ∈ before, leaf.Faithful extractor first)
    (afters : ∀ leaf ∈ after, leaf.Faithful extractor second) {near far all : List Phrase}
    (foundFirst : (extractor.compositePass first before).Yields near)
    (foundSecond : (extractor.compositePass second after).Yields far)
    (foundWhole : (extractor.compositePass (first.join barrier second)
      (before ++ after.map (Phrase.shift (first.length + 1)))).Yields all) :
    ∃ nears fars, near = Phrase.dropEchoes nears ∧ far = Phrase.dropEchoes fars ∧
      all = Phrase.dropEchoes (nears ++ fars.map (Phrase.shift (first.length + 1))) := by
  obtain ⟨nears, nearsFound, foundFirst⟩ := foundFirst.of_bind
  obtain ⟨fars, farsFound, foundSecond⟩ := foundSecond.of_bind
  obtain ⟨candidates, found, foundWhole⟩ := foundWhole.of_bind
  refine ⟨nears, fars, foundFirst.of_pure, foundSecond.of_pure, ?_⟩
  rw [foundWhole.of_pure]
  -- The bases of the whole are those of the first sentence, and those of the second further on.
  have bases : (before ++ after.map (Phrase.shift (first.length + 1))).zipIdx =
      before.zipIdx.map (shiftLeaf 0 0) ++
        after.zipIdx.map (shiftLeaf (first.length + 1) before.length) := by
    rw [List.zipIdx_append, Nat.zero_add, zipIdx_map_shift, ← zipIdx_map_shift 0 0,
      Phrase.map_shift_zero]
  dsimp only at found
  rw [bases] at found
  obtain ⟨here, there, hereFound, thereFound, rfl⟩ := found.of_gather_append
  have stays : here = nears.map (Phrase.shift 0) :=
    gather_compositeCandidates (embeds_first second refused) (stands_first befores afters) nears
      here nearsFound hereFound
  have moves : there = fars.map (Phrase.shift (first.length + 1)) :=
    gather_compositeCandidates (embeds_second refused document_eq id_eq)
      (stands_second befores afters) fars there farsFound thereFound
  rw [stays, moves, Phrase.map_shift_zero]

end Passes

/-- Phrases of a sentence and phrases behind it are reduced on their own, where any are. -/
theorem Extractor.reduce_append_shift {near far : List Phrase}
    (before : ∀ phrase ∈ near, phrase.span.first < offset) :
    extractor.reduce (near ++ far.map (Phrase.shift offset)) =
      extractor.reduce near ++ (extractor.reduce far).map (Phrase.shift offset) := by
  unfold reduce
  -- Without the reduction there is nothing to be shown.
  split
  · exact Phrase.reduceBoundaries_append_shift before
  · rfl

/-- Between two sentences a token that can take part in nothing keeps their phrases as they are. -/
theorem extract_join {patterns : List Pattern} {limit : Nat} {extractor : Extractor}
    (built : Registry.build patterns limit = .ok extractor.registry) {first second : Sentence}
    (document_eq : second.document = first.document) (id_eq : second.id = first.id)
    {barrier : Token}
    (refused : extractor.registry.isUsable barrier = false ∨ extractor.isStopWord barrier = true)
    {before after whole : Extraction} (foundFirst : extractor.extract first = .ok before)
    (foundSecond : extractor.extract second = .ok after)
    (foundWhole : extractor.extract (first.join barrier second) = .ok whole)
    (simpleApart : Phrase.Apart before.simple after.simple) {near far : List Phrase}
    (nearFound : (extractor.compositePass first before.simple).Yields near)
    (farFound : (extractor.compositePass second after.simple).Yields far)
    (complexApart : Phrase.Apart near far) :
    whole.simple = before.simple ++ after.simple.map (Phrase.shift (first.length + 1)) ∧
      whole.complex = before.complex ++ after.complex.map (Phrase.shift (first.length + 1)) := by
  have sound := Registry.sound_of_build built
  have refused : extractor.admits barrier = false := by
    rcases refused with unusable | stop
    · simp [Extractor.admits, unusable]
    · simp [Extractor.admits, stop]
  obtain ⟨here, complexHere, hereFound, complexHereFound, rfl⟩ :=
    Extractor.yields_of_extract foundFirst
  obtain ⟨there, complexThere, thereFound, complexThereFound, rfl⟩ :=
    Extractor.yields_of_extract foundSecond
  obtain ⟨all, complexAll, allFound, complexAllFound, rfl⟩ := Extractor.yields_of_extract foundWhole
  -- What the passes find without the reduction are the phrases that are to read differently.
  obtain rfl := (extractor.compositePass_priced_any first here).unique nearFound complexHereFound
  obtain rfl := (extractor.compositePass_priced_any second there).unique farFound complexThereFound
  -- Either pass finds for the whole what it finds for both, and no echo is heard between them.
  have joined : all = here ++ there.map (Phrase.shift (first.length + 1)) := by
    obtain ⟨nears, fars, rfl, rfl, rfl⟩ :=
      Extractor.leafPass_join refused document_eq id_eq hereFound thereFound allFound
    exact Phrase.dropEchoes_append_shift simpleApart
  subst joined
  have complexJoined : complexAll = near ++ far.map (Phrase.shift (first.length + 1)) := by
    obtain ⟨nears, fars, rfl, rfl, rfl⟩ := Extractor.compositePass_join refused document_eq id_eq
      (Extractor.leafPass_yields sound hereFound).2 (Extractor.leafPass_yields sound thereFound).2
      nearFound farFound complexAllFound
    exact Phrase.dropEchoes_append_shift complexApart
  subst complexJoined
  refine ⟨rfl, Extractor.reduce_append_shift fun phrase member => ?_⟩
  -- The phrases of the first sentence start in it, so in front of the token behind it.
  have piece := Extractor.pieces_of_compositePass sound hereFound nearFound member
  have ordered := piece.ordered
  have inside := piece.inside
  omega

/-- A sentence of another adjective and another noun. -/
def redDog : Sentence where
  document := 1
  id := 1
  tokens := [⟨"red", [⟨.adjective, .empty, .ofText "red", .one⟩]⟩,
    ⟨"dog", [⟨.noun, .empty, .ofText "dog", .one⟩]⟩]

/-- A token that no pattern asks for. -/
def fullStop : Token :=
  ⟨".", [⟨.punctuation, .empty, .ofText ".", .one⟩]⟩

/-- A black cat and a red dog are found on both sides of a full stop. -/
theorem extract_join_fullStop : ∃ (extractor : Extractor) (before after whole : Extraction),
    Registry.build nounPhrases = .ok extractor.registry ∧
      extractor.extract blackCat = .ok before ∧ extractor.extract redDog = .ok after ∧
      extractor.extract (blackCat.join fullStop redDog) = .ok whole ∧
      before.simple.map Phrase.text = ["cat"] ∧ after.simple.map Phrase.text = ["dog"] ∧
      whole.simple = before.simple ++ after.simple.map (Phrase.shift 3) ∧
      whole.complex = before.complex ++ after.complex.map (Phrase.shift 3) := by
  obtain ⟨before, near, ended, found, texts, complexTexts⟩ : ∃ extraction near,
      Extractor.extract ⟨.assemble nounPhrases [0, 1], {}, .empty⟩ blackCat = .ok extraction ∧
        (Extractor.compositePass ⟨.assemble nounPhrases [0, 1], {}, .empty⟩ blackCat
          extraction.simple).Yields near ∧
        extraction.simple.map Phrase.text = ["cat"] ∧ near.map Phrase.text = ["black cat"] :=
    ⟨_, _, rfl, ⟨.ofOptions {}, _, rfl⟩, rfl, rfl⟩
  obtain ⟨after, far, endedAfter, foundAfter, textsAfter, complexTextsAfter⟩ : ∃ extraction far,
      Extractor.extract ⟨.assemble nounPhrases [0, 1], {}, .empty⟩ redDog = .ok extraction ∧
        (Extractor.compositePass ⟨.assemble nounPhrases [0, 1], {}, .empty⟩ redDog
          extraction.simple).Yields far ∧
        extraction.simple.map Phrase.text = ["dog"] ∧ far.map Phrase.text = ["red dog"] :=
    ⟨_, _, rfl, ⟨.ofOptions {}, _, rfl⟩, rfl, rfl⟩
  obtain ⟨whole, endedWhole⟩ : ∃ extraction,
      Extractor.extract ⟨.assemble nounPhrases [0, 1], {}, .empty⟩
        (blackCat.join fullStop redDog) = .ok extraction := ⟨_, rfl⟩
  have refused : Registry.isUsable (.assemble nounPhrases [0, 1]) fullStop = false := by decide
  have document_eq : redDog.document = blackCat.document := rfl
  have id_eq : redDog.id = blackCat.id := rfl
  have simpleApart : Phrase.Apart before.simple after.simple := Phrase.apart_iff_texts.mpr (by
    rw [texts, textsAfter]
    decide)
  have complexApart : Phrase.Apart near far := Phrase.apart_iff_texts.mpr (by
    rw [complexTexts, complexTextsAfter]
    decide)
  exact ⟨_, before, after, whole, build_nounPhrases, ended, endedAfter, endedWhole, texts,
    textsAfter, extract_join build_nounPhrases document_eq id_eq (.inl refused) ended endedAfter
      endedWhole simpleApart found foundAfter complexApart⟩

end PhraseGrammar
