import PhraseGrammar.Proofs.Extraction

/-! Tests of parts of speech before a slot is tried change neither what is found nor its cost. -/

namespace PhraseGrammar

open Search

/-- Whether a token is a word by its text and its readings, whatever parts of speech are used. -/
def Token.isWord (token : Token) : Bool :=
  !token.readings.isEmpty && !(Text.trim token.text).isEmpty && !token.isMisclassified &&
    !token.isAnalysisError

/-- Which tokens are let into a search, and which of them may be heads there. -/
structure Screen where
  /-- Whether a token can take part in phrases. -/
  admits : Token → Bool
  /-- Whether a token can be the head of a phrase of words. -/
  canHead : Token → Bool

namespace Extractor

/-- The screen of the grammar, which lets tokens pass by the parts of speech of its slots. -/
def screen (extractor : Extractor) : Screen where
  admits := extractor.admits
  canHead := extractor.registry.isHeadCandidate

/-- The screen that does not ask for parts of speech: every word passes that is no stop word. -/
def openScreen (extractor : Extractor) : Screen where
  admits token := token.isWord && !extractor.isStopWord token
  canHead _ := true

/-- The pass for phrases of words among the tokens that pass a screen. -/
def leafPassThrough (extractor : Extractor) (screen : Screen) (sentence : Sentence) :
    Search (List Phrase) := do
  let around := Surroundings.ofSentence screen.admits sentence
  let heads := around.admitted.filter fun next => screen.canHead next.1
  let candidates ← Search.gather (fun (token, position) =>
    Search.gather (around.leafCandidates token position) extractor.registry.leafPatterns) heads
  return Phrase.dropEchoes candidates

/-- The pass for phrases of phrases among the tokens that pass a screen. -/
def compositePassThrough (extractor : Extractor) (screen : Screen) (sentence : Sentence)
    (leaves : List Phrase) : Search (List Phrase) := do
  let around := Surroundings.ofSentence screen.admits sentence
  let candidates ← Search.gather (fun (base, number) =>
    Search.firstFound (compositeCandidates extractor.registry around (.ofList leaves) base number)
      extractor.registry.compositePatterns) leaves.zipIdx
  return Phrase.dropEchoes candidates

/-- Both passes one after the other among the tokens that pass a screen. -/
def searchThrough (extractor : Extractor) (screen : Screen) (sentence : Sentence) :
    Search Extraction := do
  let simple ← extractor.leafPassThrough screen sentence
  let complex ← extractor.compositePassThrough screen sentence simple
  return ⟨simple, extractor.reduce complex⟩

/-- The phrases of a sentence among the tokens that pass a screen, within the budget. -/
def extractThrough (extractor : Extractor) (screen : Screen) (sentence : Sentence) :
    Except SearchAbort Extraction :=
  match (extractor.searchThrough screen sentence).run (.ofOptions extractor.options) with
  | .ok extraction _ => .ok extraction
  | .error abort _ => .error abort

variable {extractor : Extractor} {sentence : Sentence}

/-- The search goes through the screen of the grammar. -/
theorem search_eq_searchThrough :
    extractor.search sentence = extractor.searchThrough extractor.screen sentence :=
  rfl

end Extractor

/-- A token is usable if it is a word and some pattern uses the part of speech of a reading. -/
theorem Registry.isUsable_eq {registry : Registry} {token : Token} :
    registry.isUsable token =
      (token.isWord && token.readings.any fun reading => registry.isUsedPos reading.pos) :=
  rfl

namespace Search

variable {α β : Type} {search other : α → Search (List β)} {items : List α}

/-- Where nothing is searched for any item, nothing is searched for all of them. -/
theorem gather_eq_pure_nil (each : ∀ item ∈ items, search item = pure []) :
    gather search items = pure [] := by
  induction items with
  | nil => rfl
  | cons item items rest =>
    obtain ⟨here, later⟩ := List.forall_mem_cons.mp each
    rw [gather_cons, here, rest later]
    rfl

/-- Two selections of items may differ in those for which nothing is searched anyway. -/
theorem gather_filter_congr {test check : α → Bool}
    (each : ∀ item ∈ items, (search item = other item ∧ test item = check item) ∨
      (search item = pure [] ∧ other item = pure [])) :
    gather search (items.filter test) = gather other (items.filter check) := by
  -- An item with nothing to search adds nothing, whether it is selected or not.
  rw [gather_filter, gather_filter]
  refine gather_congr (List.forall₂_same.mpr fun item member => ?_)
  rcases each item member with ⟨same, selects⟩ | ⟨none, otherNone⟩
  · rw [same, selects]
  · rw [none, otherNone, ite_self, ite_self]

end Search

section Growth

variable {admits other : Token → Bool} {slot : WordSlot} {side : Side} {phrase : Phrase}
  {tokens outward : List (Token × Nat)}

/-- Whether two tests let the same tokens pass among those that meet a slot. -/
def WordSlot.PassesAlike (admits other : Token → Bool) (slot : WordSlot) : Prop :=
  ∀ token, slot.matchesToken token → admits token = other token

/-- Whether no token comes next that meets a slot. -/
def WordSlot.Blocked (slot : WordSlot) (outward : List (Token × Nat)) : Prop :=
  ∀ next ∈ outward.head?, slot.matchesToken next.1 = false

/-- Tests that agree on a slot let its next token pass alike, or it is blocked under both. -/
theorem WordSlot.PassesAlike.cases (alike : slot.PassesAlike admits other) (next : Token × Nat)
    (tokens : List (Token × Nat)) :
    (slot.matchesToken next.1 ∧
      (next :: tokens).takeWhile (fun item => admits item.1) =
        next :: tokens.takeWhile (fun item => admits item.1) ∧
      (next :: tokens).takeWhile (fun item => other item.1) =
        next :: tokens.takeWhile (fun item => other item.1)) ∨
    (slot.Blocked ((next :: tokens).takeWhile fun item => admits item.1) ∧
      slot.Blocked ((next :: tokens).takeWhile fun item => other item.1)) := by
  rw [List.takeWhile_cons, List.takeWhile_cons]
  by_cases fits : slot.matchesToken next.1 = true
  · rw [alike next.1 fits]
    -- A token that meets the slot is let in by both tests or by neither.
    cases other next.1 with
    | true => exact .inl ⟨fits, rfl, rfl⟩
    | false => exact .inr ⟨by simp [Blocked], by simp [Blocked]⟩
  · -- A token that does not meet the slot blocks it, and so does nothing at all.
    right
    rw [Bool.not_eq_true] at fits
    constructor <;> split <;> simp [Blocked, fits]

namespace Phrase

/-- A last slot that is blocked takes a step, and nothing fills it. -/
theorem growLast_blocked (blocked : slot.Blocked outward) :
    growLast side slot phrase outward = do Search.step; return [] := by
  cases outward with
  | nil => rfl
  | cons next outward =>
    have misfit : slot.matchesToken next.1 = false := blocked next rfl
    simp [growLast, misfit]

/-- Filling the last slot does not depend on tokens that cannot fill it. -/
theorem growLast_screen (alike : slot.PassesAlike admits other) :
    growLast side slot phrase (tokens.takeWhile fun next => admits next.1) =
      growLast side slot phrase (tokens.takeWhile fun next => other next.1) := by
  -- The slot takes the same tokens one after the other, and is blocked at the same place.
  induction tokens generalizing phrase with
  | nil => rfl
  | cons next tokens rest =>
    rcases alike.cases next tokens with ⟨_, taken, takenOther⟩ | ⟨blocked, blockedOther⟩
    · rw [taken, takenOther]
      simp only [growLast, rest]
    · rw [growLast_blocked blocked, growLast_blocked blockedOther]

/-- A slot before further ones that is blocked takes a step, and nothing fills them. -/
theorem grow_blocked {next : WordSlot} {slots : List WordSlot} (blocked : slot.Blocked outward) :
    grow side phrase (slot :: next :: slots) outward = do Search.step; return [] := by
  cases outward with
  | nil => rfl
  | cons first outward =>
    have misfit : slot.matchesToken first.1 = false := blocked first rfl
    simp [grow, misfit]

/-- Filling the slots of a side does not depend on tokens that cannot fill them. -/
theorem grow_screen {slots : List WordSlot} (alike : ∀ slot ∈ slots, slot.PassesAlike admits other) :
    grow side phrase slots (tokens.takeWhile fun next => admits next.1) =
      grow side phrase slots (tokens.takeWhile fun next => other next.1) := by
  -- The induction is on the slots, each but the last one taking one token.
  induction slots generalizing phrase tokens with
  | nil => rfl
  | cons slot slots rest =>
    obtain ⟨here, later⟩ := List.forall_mem_cons.mp alike
    cases slots with
    | nil => exact growLast_screen here
    | cons further slots =>
      cases tokens with
      | nil => rfl
      | cons next tokens =>
        rcases here.cases next tokens with ⟨_, taken, takenOther⟩ | ⟨blocked, blockedOther⟩
        · rw [taken, takenOther]
          simp only [grow, rest later]
        · rw [grow_blocked blocked, grow_blocked blockedOther]

end Phrase

/-- The admitted items from a place on are those before the next refused one. -/
theorem getD_runs_flagged {α : Type} (admits : α → Bool) (items : List α) (place : Nat) :
    (runs (flagged admits items))[place]?.getD [] = (items.drop place).takeWhile admits := by
  have size : (flagged admits items).length = items.length := by rw [flagged, List.length_map]
  rcases Nat.lt_or_ge items.length place with beyond | inside
  · -- Beyond the end there is no run, and there are no items.
    rw [List.getElem?_eq_none (by rw [length_runs, size]; exact beyond),
      List.drop_eq_nil_of_le (Nat.le_of_lt beyond)]
    rfl
  · rw [getElem?_runs _ (by rw [size]; exact inside), Option.getD_some, flagged, ← List.map_drop,
      ← flagged, map_takeWhile_flagged]

/-- The tokens around a place that pass a test are the first ones of a list that it does not touch. -/
theorem Surroundings.exists_outward_eq (sentence : Sentence) (side : Side) (span : Span) :
    ∃ tokens : List (Token × Nat), ∀ admits : Token → Bool,
      (ofSentence admits sentence).outward side span =
        tokens.takeWhile fun next => admits next.1 := by
  cases side with
  | left =>
    -- Backwards from the span come the tokens before it, if the sentence reaches so far.
    refine ⟨if span.first ≤ sentence.tokens.length then
      sentence.tokens.zipIdx.reverse.drop (sentence.tokens.length - span.first) else [],
      fun admits => ?_⟩
    rw [outward, ofSentence, List.getElem?_toArray, flagged, ← List.map_reverse, ← flagged]
    have size : (runs (flagged (fun item : Token × Nat => admits item.1)
        sentence.tokens.zipIdx.reverse)).length = sentence.tokens.length + 1 := by
      simp [length_runs, flagged]
    split
    · rename_i inside
      rw [List.getElem?_reverse (by omega), size, getD_runs_flagged]
      congr 2
    · rename_i beyond
      rw [List.getElem?_eq_none (by rw [List.length_reverse, size]; omega)]
      rfl
  | right =>
    refine ⟨sentence.tokens.zipIdx.drop (span.last + 1), fun admits => ?_⟩
    rw [outward, ofSentence, List.getElem?_toArray, getD_runs_flagged]

namespace Surroundings

variable {sentence : Sentence} {pattern : Pattern}

/-- What grows on a side of a phrase does not depend on tokens that cannot fill the slots there. -/
theorem grow_outward_screen {slots : List WordSlot}
    (alike : ∀ slot ∈ slots, slot.PassesAlike admits other) (span : Span) :
    phrase.grow side slots ((ofSentence admits sentence).outward side span) =
      phrase.grow side slots ((ofSentence other sentence).outward side span) := by
  obtain ⟨tokens, outward⟩ := exists_outward_eq sentence side span
  rw [outward, outward]
  exact Phrase.grow_screen alike

/-- What grows out of a head does not depend on tokens that cannot fill a slot of the pattern. -/
theorem growBoth_screen (alike : ∀ slot ∈ pattern.wordSlots, slot.PassesAlike admits other)
    (head : Nat) (anchor : Phrase) :
    (ofSentence admits sentence).growBoth pattern head anchor =
      (ofSentence other sentence).growBoth pattern head anchor := by
  -- On either side of the head the slots are some of those of the pattern.
  have left (phrase : Phrase) (span : Span) :
      phrase.grow .left (pattern.wordSlots.take head).reverse
          ((ofSentence admits sentence).outward .left span) =
        phrase.grow .left (pattern.wordSlots.take head).reverse
          ((ofSentence other sentence).outward .left span) :=
    grow_outward_screen (fun slot member =>
      alike slot (List.mem_of_mem_take (List.mem_reverse.mp member))) span
  have right (phrase : Phrase) (span : Span) :
      phrase.grow .right (pattern.wordSlots.drop (head + 1))
          ((ofSentence admits sentence).outward .right span) =
        phrase.grow .right (pattern.wordSlots.drop (head + 1))
          ((ofSentence other sentence).outward .right span) :=
    grow_outward_screen (fun slot member => alike slot (List.mem_of_mem_drop member)) span
  simp only [growBoth, left, right]

/-- The phrases of a pattern at a token do not depend on tokens that cannot fill its slots. -/
theorem leafCandidates_screen (alike : ∀ slot ∈ pattern.wordSlots, slot.PassesAlike admits other)
    (token : Token) (position : Nat) :
    (ofSentence admits sentence).leafCandidates token position pattern =
      (ofSentence other sentence).leafCandidates token position pattern := by
  simp only [leafCandidates, growBoth_screen alike]
  rfl

/-- A pattern has no phrases at a token that does not meet its head slot, and takes no step. -/
theorem leafCandidates_eq_pure_nil {around : Surroundings} {token : Token}
    (misfit : ∀ slot, pattern.headWord? = some slot → slot.matchesToken token = false)
    (position : Nat) : around.leafCandidates token position pattern = pure [] := by
  unfold leafCandidates
  split
  · rename_i head slot _ isHead
    simp [misfit slot isHead]
  · rfl

end Surroundings

end Growth

section Composition

variable {admits other : Token → Bool} {sentence : Sentence} {stop : Stop} {route : List Stop}
  {attempt resume : Attempt} {registry larger : Registry} {pattern : Pattern}

/-- A stop on the way around a slot is for a slot of the pattern. -/
theorem Pattern.component_mem_of_mem_route {anchor : Nat} (member : stop ∈ pattern.route anchor) :
    stop.component ∈ pattern.components := by
  -- The slots are numbered, and each stop carries the slot with its number.
  rcases List.mem_append.mp member with member | member
  · obtain ⟨numbered, listed, rfl⟩ := List.mem_map.mp member
    exact List.fst_mem_of_mem_zipIdx (List.mem_of_mem_take (List.mem_reverse.mp listed))
  · obtain ⟨numbered, listed, rfl⟩ := List.mem_map.mp member
    exact List.fst_mem_of_mem_zipIdx (List.mem_of_mem_drop listed)

/-- The head word of a pattern is one of its slots for words. -/
theorem Pattern.headWord?_mem {slot : WordSlot} (isHead : pattern.headWord? = some slot) :
    slot ∈ pattern.wordSlots := by
  obtain ⟨component, found, same⟩ := Option.bind_eq_some_iff.mp isHead
  exact List.mem_filterMap.mpr ⟨component, List.mem_of_find?_eq_some found, same⟩

namespace Attempt

/-- A slot for a word that is blocked is filled by nothing. -/
theorem fillWord_blocked {slot : WordSlot} {goOn : Continue} {outward : List (Token × Nat)}
    {phrase : Phrase} {status : MatchStatus} {depth : Nat} {trials : Trials}
    (blocked : slot.Blocked outward) :
    fillWord stop slot goOn outward phrase status depth trials = pure ⟨[], trials⟩ := by
  cases outward with
  | nil => rfl
  | cons next outward =>
    have misfit : slot.matchesToken next.1 = false := blocked next rfl
    simp [fillWord, misfit]

/-- Filling a slot with words does not depend on tokens that cannot fill it. -/
theorem fillWord_screen {slot : WordSlot} {goOn : Continue} {tokens : List (Token × Nat)}
    (alike : slot.PassesAlike admits other) :
    fillWord stop slot goOn (tokens.takeWhile fun next => admits next.1) =
      fillWord stop slot goOn (tokens.takeWhile fun next => other next.1) := by
  funext phrase status depth trials
  -- The slot takes the same tokens one after the other, and is blocked at the same place.
  induction tokens generalizing phrase status depth trials with
  | nil => rfl
  | cons next tokens rest =>
    rcases alike.cases next tokens with ⟨_, taken, takenOther⟩ | ⟨blocked, blockedOther⟩
    · rw [taken, takenOther]
      simp only [fillWord, rest]
    · rw [fillWord_blocked blocked, fillWord_blocked blockedOther]

/-- Whether a neighbour is taken depends on an attempt only by the tokens of the sentence. -/
theorem takeLeaf?_congr (tokens : attempt.around.tokens = resume.around.tokens) :
    attempt.takeLeaf? = resume.takeLeaf? := by
  funext stop slot referenced leaf phrase status
  simp only [takeLeaf?, headMatches, tokens]

/-- Filling a slot with neighbours depends on an attempt only by the tokens and the base. -/
theorem fillModel_congr {slot : ModelSlot} {goOn : Continue} {phrase : Phrase}
    {status : MatchStatus} {depth : Nat} {candidates : List (Phrase × Nat)} {trials : Trials}
    {referenced : Pattern} (tokens : attempt.around.tokens = resume.around.tokens)
    (base : attempt.base = resume.base) :
    attempt.fillModel stop slot referenced goOn phrase status depth candidates trials =
      resume.fillModel stop slot referenced goOn phrase status depth candidates trials := by
  induction candidates generalizing trials with
  | nil => rfl
  | cons next candidates rest =>
    simp only [fillModel, rest, takeLeaf?_congr tokens, base]

/-- Whether a slot looks the same in two grammars and under two tests of tokens. -/
def SeenAlike (registry larger : Registry) (admits other : Token → Bool) : Component → Prop
  | .word slot => slot.PassesAlike admits other
  | .model slot => registry.byName? slot.pattern = larger.byName? slot.pattern

/-- Following a route depends neither on tokens that cannot fill its slots nor on other patterns. -/
theorem walk_screen {leaves : LeafIndex} {base length : Nat}
    (alike : ∀ stop ∈ route, SeenAlike registry larger admits other stop.component) :
    walk ⟨registry, .ofSentence admits sentence, leaves, base, length⟩ route =
      walk ⟨larger, .ofSentence other sentence, leaves, base, length⟩ route := by
  -- The induction is on the route, so that the search goes on alike behind each slot.
  induction route with
  | nil => rfl
  | cons stop route rest =>
    obtain ⟨here, later⟩ := List.forall_mem_cons.mp alike
    funext phrase status depth trials
    rw [walk, walk, rest later]
    refine bind_congr fun _ => ?_
    cases component : stop.component with
    | word slot =>
      rw [component] at here
      obtain ⟨tokens, outward⟩ :=
        Surroundings.exists_outward_eq sentence stop.side phrase.span
      dsimp only
      rw [outward, outward, fillWord_screen here]
    | model slot =>
      rw [component] at here
      dsimp only
      rw [show registry.byName? slot.pattern = larger.byName? slot.pattern from here]
      -- Both look into the same sentence and start with the same phrase.
      cases larger.byName? slot.pattern with
      | none => rfl
      | some referenced => exact fillModel_congr rfl rfl

end Attempt

namespace Extractor

/-- Growing a base depends neither on tokens that cannot fill a slot nor on patterns not named. -/
theorem compositeCandidates_screen
    (alike : ∀ component ∈ pattern.components,
      Attempt.SeenAlike registry larger admits other component)
    (leaves : LeafIndex) (base : Phrase) (number : Nat) :
    compositeCandidates registry (.ofSentence admits sentence) leaves base number pattern =
      compositeCandidates larger (.ofSentence other sentence) leaves base number pattern := by
  -- Up to the walk itself, only the pattern and the base are asked.
  have walked (anchor : Nat) :
      Attempt.walk ⟨registry, .ofSentence admits sentence, leaves, number, pattern.length⟩
          (pattern.route anchor) =
        Attempt.walk ⟨larger, .ofSentence other sentence, leaves, number, pattern.length⟩
          (pattern.route anchor) :=
    Attempt.walk_screen fun stop member =>
      alike stop.component (Pattern.component_mem_of_mem_route member)
  simp only [compositeCandidates, walked]

end Extractor

end Composition

/-- Whether two screens agree on the tokens that could fill a slot of some patterns. -/
structure Screen.Alike (patterns : List Pattern) (screen other : Screen) : Prop where
  /-- Tokens that meet a slot take part under both screens or under neither. -/
  admits : ∀ pattern ∈ patterns, ∀ slot ∈ pattern.wordSlots,
    slot.PassesAlike screen.admits other.admits
  /-- Tokens that meet the head slot of a pattern may be heads under both or under neither. -/
  canHead : ∀ pattern ∈ patterns, ∀ slot, pattern.headWord? = some slot →
    slot.PassesAlike screen.canHead other.canHead

/-- Screens that are alike for some patterns are so for fewer. -/
theorem Screen.Alike.mono {patterns fewer : List Pattern} {screen other : Screen}
    (alike : screen.Alike patterns other) (some : fewer ⊆ patterns) : screen.Alike fewer other where
  admits pattern member := alike.admits pattern (some member)
  canHead pattern member := alike.canHead pattern (some member)

namespace Extractor

variable {extractor : Extractor} {sentence : Sentence} {screen other : Screen}

/-- The pass for phrases of words does not depend on tokens that fill no slot of a pattern. -/
theorem leafPassThrough_screen (alike : screen.Alike extractor.registry.leafPatterns other) :
    extractor.leafPassThrough screen sentence = extractor.leafPassThrough other sentence := by
  unfold leafPassThrough
  dsimp only
  rw [Surroundings.admitted_ofSentence, Surroundings.admitted_ofSentence, List.filter_filter,
    List.filter_filter]
  refine congrArg (· >>= _) (gather_filter_congr fun next member => ?_)
  -- A token is the head of nothing unless it meets the head slot of some pattern.
  by_cases meets : ∃ pattern ∈ extractor.registry.leafPatterns, ∃ slot,
      pattern.headWord? = some slot ∧ slot.matchesToken next.1
  · left
    obtain ⟨pattern, listed, slot, isHead, fits⟩ := meets
    constructor
    · exact gather_congr <| List.forall₂_same.mpr fun pattern listed =>
        Surroundings.leafCandidates_screen (alike.admits pattern listed) next.1 next.2
    · rw [alike.admits pattern listed slot (Pattern.headWord?_mem isHead) next.1 fits,
        alike.canHead pattern listed slot isHead next.1 fits]
  · right
    have misfit : ∀ pattern ∈ extractor.registry.leafPatterns, ∀ slot,
        pattern.headWord? = some slot → slot.matchesToken next.1 = false := by
      intro pattern listed slot isHead
      by_contra fits
      exact meets ⟨pattern, listed, slot, isHead, Bool.not_eq_false _ ▸ fits⟩
    constructor <;> exact gather_eq_pure_nil fun pattern listed =>
      Surroundings.leafCandidates_eq_pure_nil (misfit pattern listed) next.2

/-- The pass for phrases of phrases does not depend on tokens that fill no slot of a pattern. -/
theorem compositePassThrough_screen
    (alike : screen.Alike extractor.registry.compositePatterns other) (leaves : List Phrase) :
    extractor.compositePassThrough screen sentence leaves =
      extractor.compositePassThrough other sentence leaves := by
  unfold compositePassThrough
  dsimp only
  refine congrArg (· >>= _) (gather_congr <| List.forall₂_same.mpr fun next _ =>
    firstFound_congr fun pattern listed => ?_)
  refine compositeCandidates_screen (fun component member => ?_) _ _ _
  cases component with
  | word slot => exact alike.admits pattern listed slot (Pattern.mem_wordSlots.mpr member)
  | model slot => exact rfl

/-- Both passes depend on a screen only by the tokens that could fill a slot of a pattern. -/
theorem searchThrough_screen (alike : screen.Alike extractor.registry.patterns other) :
    extractor.searchThrough screen sentence = extractor.searchThrough other sentence := by
  have leaf : extractor.leafPassThrough screen sentence =
      extractor.leafPassThrough other sentence :=
    leafPassThrough_screen (alike.mono fun _ member => List.mem_of_mem_filter member)
  have composite (leaves : List Phrase) : extractor.compositePassThrough screen sentence leaves =
      extractor.compositePassThrough other sentence leaves :=
    compositePassThrough_screen (alike.mono fun _ member => List.mem_of_mem_filter member) leaves
  simp only [searchThrough, leaf, composite]

end Extractor

section Registered

variable {patterns : List Pattern} {limit : Nat} {registry : Registry}

/-- A token that meets a slot of a registered pattern has a reading that some pattern uses. -/
theorem Registry.exists_used_reading (built : build patterns limit = .ok registry)
    {pattern : Pattern} (member : pattern ∈ registry.patterns) {slot : WordSlot}
    (isSlot : slot ∈ pattern.wordSlots) {token : Token} (fits : slot.matchesToken token) :
    ∃ reading ∈ token.readings, reading.pos ∈ registry.usedPos := by
  obtain ⟨reading, listed, same⟩ := slot.exists_reading fits
  exact ⟨reading, listed, same ▸ mem_usedPos_of_build built member isSlot⟩

/-- The parts of speech of a grammar refuse no token that could fill one of its slots. -/
theorem Extractor.screen_alike (built : Registry.build patterns limit = .ok registry)
    (options : MatchOptions) (stopWords : StopWords) :
    Screen.Alike registry.patterns (screen ⟨registry, options, stopWords⟩)
      (openScreen ⟨registry, options, stopWords⟩) where
  admits pattern member slot isSlot token fits := by
    obtain ⟨reading, listed, used⟩ := Registry.exists_used_reading built member isSlot fits
    have isUsed : token.readings.any fun reading => registry.isUsedPos reading.pos :=
      List.any_eq_true.mpr ⟨reading, listed, List.contains_iff_mem.mpr used⟩
    simp only [screen, openScreen, Extractor.admits, Registry.isUsable_eq, isUsed, Bool.and_true]
  canHead pattern member slot isHead token fits :=
    (Registry.sound_of_build built).isHeadCandidate member isHead fits

/-- Letting all words pass that are no stop words changes neither what is found nor its cost. -/
theorem Extractor.search_eq_open (built : Registry.build patterns limit = .ok registry)
    (options : MatchOptions) (stopWords : StopWords) (sentence : Sentence) :
    search ⟨registry, options, stopWords⟩ sentence =
      searchThrough ⟨registry, options, stopWords⟩ (openScreen ⟨registry, options, stopWords⟩)
        sentence := by
  rw [search_eq_searchThrough]
  exact searchThrough_screen (screen_alike built options stopWords)

/-- The tests of parts of speech refuse nothing that could be found, and change no search. -/
theorem extract_unscreened (built : Registry.build patterns limit = .ok registry) :
    (∀ pattern ∈ registry.leafPatterns, ∀ slot, pattern.headWord? = some slot →
      ∀ token, slot.matchesToken token → registry.isHeadCandidate token) ∧
    (∀ pattern ∈ registry.patterns, ∀ slot ∈ pattern.wordSlots, ∀ token, slot.matchesToken token →
      ∃ reading ∈ token.readings, reading.pos ∈ registry.usedPos) ∧
    ∀ options stopWords sentence,
      (∀ budget,
        (Extractor.searchThrough ⟨registry, options, stopWords⟩
          (Extractor.openScreen ⟨registry, options, stopWords⟩) sentence).run budget =
        (Extractor.search ⟨registry, options, stopWords⟩ sentence).run budget) ∧
      Extractor.extractThrough ⟨registry, options, stopWords⟩
          (Extractor.openScreen ⟨registry, options, stopWords⟩) sentence =
        Extractor.extract ⟨registry, options, stopWords⟩ sentence := by
  refine ⟨fun pattern member slot isHead token fits => ?_,
    fun pattern member slot isSlot token fits =>
      Registry.exists_used_reading built member isSlot fits,
    fun options stopWords sentence => ⟨fun budget => ?_, ?_⟩⟩
  · exact (Registry.sound_of_build built).isHeadCandidate (List.mem_of_mem_filter member) isHead fits
  · rw [Extractor.search_eq_open built]
  · rw [Extractor.extract, Extractor.search_eq_open built]
    rfl

end Registered

/-- A sentence of an adjective, two nouns and a verb. -/
def sleepingDog : Sentence where
  document := 1
  id := 1
  tokens := blackCat.tokens ++ [⟨"dog", [⟨.noun, .empty, .ofText "dog", .one⟩]⟩,
    ⟨"sleeps", [⟨.verb, .empty, .ofText "sleep", .one⟩]⟩]

/-- No noun phrase uses a verb, and to let the verb pass finds the same phrases. -/
theorem extract_unscreened_sleepingDog : ∃ registry : Registry, ∃ verb ∈ sleepingDog.tokens,
    ∃ options, Registry.build nounPhrases = .ok registry ∧
      verb.isWord ∧ ¬registry.isUsable verb ∧
      (Extractor.extract ⟨registry, options, .empty⟩ sleepingDog).toOption.map
        (fun extraction => extraction.complex.map Phrase.text) = some ["black cat"] ∧
      Extractor.extractThrough ⟨registry, options, .empty⟩
          (Extractor.openScreen ⟨registry, options, .empty⟩) sleepingDog =
        Extractor.extract ⟨registry, options, .empty⟩ sleepingDog := by
  refine ⟨_, _, List.mem_append_right _ (List.mem_cons_of_mem _ List.mem_cons_self),
    { validateBoundaries := false }, build_nounPhrases, rfl, by decide, rfl, ?_⟩
  exact ((extract_unscreened build_nounPhrases).2.2 _ .empty sleepingDog).2

end PhraseGrammar
