import PhraseGrammar.Proofs.CompositePass
import PhraseGrammar.Proofs.Extraction
import PhraseGrammar.Proofs.LeafCost
import PhraseGrammar.Proofs.TrialCount

/-! The trials that can be made bound the steps of the pass for phrases of phrases. -/

namespace PhraseGrammar

open Search

/-- The steps and the charge of a route that is followed some times. -/
def routeCost (tokens leaves times : Nat) (route : List Stop) : Nat :=
  times * routePrice tokens route +
    routeCharge tokens (fun stop => stop.side.trialBound tokens leaves) route

section Routes

variable {tokens leaves times : Nat} {stop : Stop} {route lefts rights : List Stop}

/-- A stop for a phrase costs a step each time, and what lies behind it as often as it has trials. -/
theorem routeCost_model {slot : ModelSlot} (isModel : stop.component = .model slot) :
    routeCost tokens leaves times (stop :: route) =
      times + routeCost tokens leaves (stop.side.trialBound tokens leaves) route := by
  simp only [routeCost, routePrice, routeCharge, isModel]
  omega

/-- A stop for a single word costs a step each time, and what lies behind it as often. -/
theorem routeCost_word {slot : WordSlot} (isWord : stop.component = .word slot)
    (once : ¬(stop.outermost && slot.condition.isRepeated)) :
    routeCost tokens leaves times (stop :: route) =
      times + routeCost tokens leaves times route := by
  simp only [routeCost, routePrice, routeCharge, isWord, if_neg once, Nat.mul_add, Nat.mul_one]
  omega

/-- A stop for repeated words leads on once more for every token. -/
theorem routeCost_repeated {slot : WordSlot} (isWord : stop.component = .word slot)
    (repeats : stop.outermost && slot.condition.isRepeated) :
    routeCost tokens leaves times (stop :: route) =
      times + times * tokens + routeCost tokens leaves (times * tokens) route := by
  simp only [routeCost, routePrice, routeCharge, isWord, if_pos repeats, Nat.mul_add, Nat.mul_one,
    Nat.mul_assoc]
  omega

/-- On one side each slot costs as much as it may be passed, and the last one may lead on often. -/
theorem routeCost_append_le {near far : List Stop} {cap bound : Nat} (some : 0 < tokens)
    (trials : ∀ stop ∈ near, stop.side.trialBound tokens leaves ≤ cap)
    (inner : near.Pairwise fun stop _ => stop.outermost = false)
    (behind : ∀ times ≤ cap * tokens, routeCost tokens leaves times far ≤ bound)
    (few : times ≤ cap) :
    routeCost tokens leaves times (near ++ far) ≤ cap * (near.length + tokens) + bound := by
  -- The induction is on the slots of the side, each of which starts with its own number of times.
  induction near generalizing times with
  | nil =>
    have also := behind times (Nat.le_trans few (Nat.le_mul_of_pos_right cap some))
    rw [List.nil_append]
    omega
  | cons stop near rest =>
    obtain ⟨here, later⟩ := List.forall_mem_cons.mp trials
    obtain ⟨last, inner⟩ := List.pairwise_cons.mp inner
    have oneMore : cap * ((stop :: near).length + tokens) = cap + cap * (near.length + tokens) := by
      simp only [List.length_cons, Nat.mul_add]
      omega
    rw [List.cons_append, oneMore]
    cases component : stop.component with
    | model slot =>
      -- However often the slot is reached, it leads on once for each of its trials.
      have also := rest later inner here
      rw [routeCost_model component]
      omega
    | word slot =>
      by_cases repeats : (stop.outermost && slot.condition.isRepeated) = true
      · -- A slot that repeats is the last one, so that the other side comes next.
        obtain rfl : near = [] := by
          refine List.eq_nil_iff_forall_not_mem.mpr fun other member => ?_
          rw [last other member, Bool.false_and] at repeats
          cases repeats
        have often := Nat.mul_le_mul_right tokens few
        have also := behind (times * tokens) often
        rw [List.nil_append, routeCost_repeated component repeats, List.length_nil, Nat.zero_add]
        omega
      · have also := rest later inner few
        rw [routeCost_word component repeats]
        omega

end Routes

namespace Pattern

variable {pattern : Pattern} {anchor tokens leaves : Nat}

/-- Only the last slot on the way to the left is outermost. -/
theorem pairwise_outermost_left (pattern : Pattern) (anchor : Nat) :
    ((pattern.components.zipIdx.take anchor).reverse.map (pattern.stop .left)).Pairwise
      fun stop _ => stop.outermost = false := by
  rw [List.pairwise_map, List.pairwise_reverse]
  refine ((pairwise_lt_zipIdx _).sublist (List.take_sublist ..)).imp fun before => ?_
  -- A slot that has another one before it is not the first one.
  exact decide_eq_false (Nat.ne_of_gt (Nat.zero_lt_of_lt before))

/-- Only the last slot on the way to the right is outermost. -/
theorem pairwise_outermost_right (pattern : Pattern) (anchor : Nat) :
    ((pattern.components.zipIdx.drop (anchor + 1)).map (pattern.stop .right)).Pairwise
      fun stop _ => stop.outermost = false := by
  rw [List.pairwise_map]
  refine ((pairwise_lt_zipIdx _).sublist (List.drop_sublist ..)).imp_of_mem ?_
  intro slot other _ member before
  -- A slot that has another one behind it is not the last one of the pattern.
  have bound := (lt_of_mem_drop member).2
  exact decide_eq_false (by show slot.2 ≠ pattern.length - 1; omega)

/-- On a route no slot to the left comes after one to the right. -/
theorem pairwise_side_route (pattern : Pattern) (anchor : Nat) :
    (pattern.route anchor).Pairwise fun stop other => stop.side = .right → other.side = .right := by
  refine List.pairwise_append.mpr ⟨?_, ?_, fun stop _ other isRight _ => ?_⟩
  · exact List.pairwise_map.mpr (List.pairwise_of_forall fun _ _ right => nomatch right)
  · exact List.pairwise_map.mpr (List.pairwise_of_forall fun _ _ right => right)
  · obtain ⟨slot, _, rfl⟩ := List.mem_map.mp isRight
    rfl

/-- The stops on a side have as many trials as there can be on that side. -/
theorem trialBound_of_mem {side : Side} {slots : List (Component × Nat)} :
    ∀ stop ∈ slots.map (pattern.stop side),
      stop.side.trialBound tokens leaves ≤ side.trialBound tokens leaves := by
  intro stop member
  obtain ⟨slot, _, rfl⟩ := List.mem_map.mp member
  exact Nat.le_refl _

/-- The route around a slot costs at most as much as the pattern has slots and the sentence tokens. -/
theorem routeCost_route_le (inside : anchor < pattern.length) (some : 0 < tokens)
    (few : 0 < leaves) :
    routeCost tokens leaves 1 (pattern.route anchor) ≤
      tokens * leaves * (pattern.length + tokens) := by
  have length := length_route inside
  rw [show pattern.route anchor =
    (pattern.components.zipIdx.take anchor).reverse.map (pattern.stop .left) ++
      (pattern.components.zipIdx.drop (anchor + 1)).map (pattern.stop .right) from rfl] at length ⊢
  generalize isLefts : (pattern.components.zipIdx.take anchor).reverse.map (pattern.stop .left) =
    lefts at length
  generalize isRights : (pattern.components.zipIdx.drop (anchor + 1)).map (pattern.stop .right) =
    rights at length
  rw [List.length_append] at length
  have innerLeft := isLefts ▸ pairwise_outermost_left pattern anchor
  have innerRight := isRights ▸ pairwise_outermost_right pattern anchor
  have trialsLeft : ∀ stop ∈ lefts, stop.side.trialBound tokens leaves ≤ leaves :=
    isLefts ▸ trialBound_of_mem
  have trialsRight : ∀ stop ∈ rights, stop.side.trialBound tokens leaves ≤ tokens * leaves :=
    isRights ▸ trialBound_of_mem
  -- Nothing is left to be followed behind the way to the right.
  have behind : ∀ times ≤ leaves * tokens, routeCost tokens leaves times rights ≤
      tokens * leaves * (rights.length + tokens) := by
    intro times few
    have ended (times : Nat) : routeCost tokens leaves times [] ≤ 0 := by
      simp [routeCost, routePrice, routeCharge]
    have cost := routeCost_append_le some trialsRight innerRight (fun times _ => ended times)
      (Nat.le_trans few (Nat.le_of_eq (Nat.mul_comm ..)))
    rwa [List.append_nil] at cost
  have whole := routeCost_append_le some trialsLeft innerLeft behind few
  -- The slots to the left cost less than the bound has for them, and the slot to start with its rest.
  have each : leaves ≤ tokens * leaves := Nat.le_mul_of_pos_left leaves some
  calc routeCost tokens leaves 1 (lefts ++ rights)
    _ ≤ leaves * (lefts.length + tokens) + tokens * leaves * (rights.length + tokens) := whole
    _ = leaves * lefts.length + tokens * leaves + tokens * leaves * (rights.length + tokens) := by
      rw [Nat.mul_add, Nat.mul_comm leaves tokens]
    _ ≤ tokens * leaves * lefts.length + tokens * leaves +
          tokens * leaves * (rights.length + tokens) := by
      have slots := Nat.mul_le_mul_right lefts.length each
      omega
    _ = tokens * leaves * (pattern.length + tokens) := by
      rw [← length]
      simp only [Nat.mul_add, Nat.mul_one]
      omega

end Pattern

variable {extractor : Extractor} {sentence : Sentence} {leaves : List Phrase} {pattern : Pattern}
  {base : Phrase} {number anchor : Nat}

/-- Growing a phrase along a route takes no more steps than the route costs. -/
theorem walk_priced {status : MatchStatus} {phrase : Phrase} {depth : Nat} {route : List Stop}
    {span : Span}
    (within : ∀ leaf ∈ leaves, leaf.span.Within sentence.length)
    (apart : route.Pairwise fun stop other => stop.index ≠ other.index)
    (reached : Reached sentence span route phrase.span) :
    ((extractor.attempt sentence leaves number pattern).walk route phrase status depth ∅).Priced
      fun _ steps => steps ≤ routeCost sentence.length leaves.length 1 route := by
  have pays := (extractor.attempt sentence leaves number pattern).walk_pays
    (fun _ _ => Surroundings.length_outward_le_length) route phrase status depth ∅
  refine pays.and_yields.mono fun findings steps paid => ?_
  obtain ⟨⟨_, within'⟩, ended⟩ := paid
  -- At first no trial has been made, so those of the walk are all that there are.
  have made : ∀ trial ∈ findings.trials, ∃ stop ∈ route,
      trial.MadeAt sentence leaves span stop := fun trial tried =>
    (walk_tries within route _ _ _ _ _ reached ended trial tried).resolve_left
      Std.HashSet.not_mem_empty
  have charged : chargedFor sentence.length route findings.trials ≤
      routeCharge sentence.length
        (fun stop => stop.side.trialBound sentence.length leaves.length) route :=
    routeCharge_mono fun stop member => card_triedAt_le apart made member
  rw [routeCost, Nat.one_mul]
  omega

namespace Extractor

/-- Growing a base into a pattern takes no step, or one step before those of the route. -/
theorem compositeCandidates_priced_of_walk {post : Nat → Prop} (nothing : post 0)
    (walked : ∀ anchor slot status, pattern.modelSlotIndex? base.pattern = some anchor →
      ((extractor.attempt sentence leaves number pattern).walk (pattern.route anchor)
        (seed pattern slot base) status 1 ∅).Priced fun _ steps => post (1 + steps)) :
    (compositeCandidates extractor.registry (extractor.surroundings sentence) (.ofList leaves) base
      number pattern).Priced fun _ steps => post steps := by
  unfold compositeCandidates
  split
  · exact .ofPure nothing
  · rename_i anchor index
    split
    · exact .ofPure nothing
    · split
      · exact .ofPure nothing
      · refine .step ((walked anchor _ _ index).bind fun findings steps holds => ?_)
        exact .ofPure holds

/-- Growing a base into a pattern takes a step more than its route costs, at the most. -/
theorem compositeCandidates_priced (isLeaf : ∀ leaf ∈ leaves, extractor.IsLeaf sentence leaf)
    (isBase : leaves[number]? = some base) :
    (compositeCandidates extractor.registry (extractor.surroundings sentence) (.ofList leaves) base
      number pattern).Priced fun _ steps =>
        steps ≤ 1 + sentence.length * leaves.length * (pattern.length + sentence.length) := by
  have member := List.mem_of_getElem? isBase
  have within : ∀ leaf ∈ leaves, leaf.span.Within sentence.length := fun leaf listed =>
    (isLeaf leaf listed).faithful.within
  -- There is a base, so that there are tokens and phrases of words.
  have start := (within base member).1
  refine compositeCandidates_priced_of_walk (Nat.zero_le _) fun anchor slot status index => ?_
  obtain ⟨inside, _⟩ := Pattern.model_of_modelSlotIndex? index
  -- The base stands where it stood, so that nothing has grown out of it yet.
  have reached : Reached sentence base.span (pattern.route anchor) (seed pattern slot base).span :=
    ⟨start, fun _ _ _ => rfl, pattern.pairwise_side_route anchor⟩
  refine (walk_priced within (pattern.pairwise_route anchor) reached).mono fun _ steps few => ?_
  exact Nat.add_le_add_left (Nat.le_trans few (Pattern.routeCost_route_le inside
    (Nat.zero_lt_of_lt start) (List.length_pos_of_mem member))) 1

/-- The steps that the pass for phrases of phrases takes at the most, for so many tokens and bases. -/
def compositeBound (extractor : Extractor) (tokens leaves : Nat) : Nat :=
  leaves * (extractor.registry.compositePatterns.map fun pattern =>
    1 + tokens * leaves * (pattern.length + tokens)).sum

/-- The pass for phrases of phrases keeps within its bound. -/
theorem compositePass_priced (isLeaf : ∀ leaf ∈ leaves, extractor.IsLeaf sentence leaf) :
    (extractor.compositePass sentence leaves).Priced fun _ steps =>
      steps ≤ extractor.compositeBound sentence.length leaves.length := by
  unfold compositePass
  -- For each base all patterns may be tried before one of them finds anything.
  have each : ∀ next ∈ leaves.zipIdx,
      (Search.firstFound (compositeCandidates extractor.registry (extractor.surroundings sentence)
        (.ofList leaves) next.1 next.2) extractor.registry.compositePatterns).Priced fun _ steps =>
          steps ≤ (extractor.registry.compositePatterns.map fun pattern =>
            1 + sentence.length * leaves.length * (pattern.length + sentence.length)).sum :=
    fun next listed => .firstFound fun pattern _ =>
      compositeCandidates_priced isLeaf (List.mem_zipIdx_iff_getElem?.mp listed)
  refine (Priced.gather each).bind fun candidates steps within => .ofPure ?_
  rwa [List.map_const', List.sum_replicate_nat, List.length_zipIdx] at within

/-- Both passes together keep within the sum of their bounds. -/
theorem search_priced (sound : extractor.registry.Sound)
    (found : (extractor.leafPass sentence).Yields leaves) :
    (extractor.search sentence).Priced fun _ steps => steps ≤
      extractor.leafBound sentence.length +
        extractor.compositeBound sentence.length leaves.length := by
  have leafPass := extractor.leafPass_priced sentence
  refine leafPass.and_yields.bind fun simple steps priced => ?_
  obtain ⟨within, ended⟩ := priced
  -- The phrases of words that are found are those that were.
  obtain rfl : simple = leaves := leafPass.unique ended found
  refine (compositePass_priced (isLeaf_of_leafPass sound ended)).bind fun complex more also => ?_
  exact .ofPure (by omega)

end Extractor

/-- Both passes count no more steps than their bounds, and within both no extraction runs short. -/
theorem extract_within_bounds {patterns : List Pattern} {limit : Nat} {extractor : Extractor}
    (built : Registry.build patterns limit = .ok extractor.registry) (sentence : Sentence) :
    (extractor.leafPass sentence).TakesAtMost (extractor.leafBound sentence.length) ∧
      ∃ leaves, (∀ found, (extractor.leafPass sentence).Yields found ↔ found = leaves) ∧
        (extractor.compositePass sentence leaves).TakesAtMost
          (extractor.compositeBound sentence.length leaves.length) ∧
        (extractor.leafBound sentence.length +
            extractor.compositeBound sentence.length leaves.length ≤ extractor.options.maxSteps →
          ∀ limit, extractor.extract sentence ≠ .error (.stepBudgetExceeded limit)) := by
  have sound := Registry.sound_of_build built
  have leafPass := extractor.leafPass_priced sentence
  obtain ⟨leaves, unique⟩ := leafPass.exists_yields_iff
  have found := (unique leaves).mpr rfl
  have isLeaf := Extractor.isLeaf_of_leafPass sound found
  refine ⟨leafPass.takesAtMost, leaves, unique, (Extractor.compositePass_priced isLeaf).takesAtMost,
    fun enough limit cut => ?_⟩
  -- An extraction that is cut off comes from a search that is.
  unfold Extractor.extract at cut
  split at cut
  · cases cut
  · rename_i abort after ran
    cases cut
    have start : (Budget.ofOptions extractor.options).steps = 0 := rfl
    exact (Extractor.search_priced sound found).not_stepBudgetExceeded
      (by rw [start, Nat.zero_add]; exact enough) ran

/-- For a black cat eight steps are enough for the words, and nine more for the whole. -/
theorem extract_within_bounds_blackCat : ∃ registry, Registry.build nounPhrases = .ok registry ∧
    Extractor.leafBound ⟨registry, { maxSteps := 17 }, .empty⟩ blackCat.length = 8 ∧
    ∃ leaves, Extractor.compositeBound ⟨registry, { maxSteps := 17 }, .empty⟩ blackCat.length
        (List.length leaves) = 9 ∧
      Search.Yields (Extractor.leafPass ⟨registry, { maxSteps := 17 }, .empty⟩ blackCat) leaves ∧
      ∀ limit, Extractor.extract ⟨registry, { maxSteps := 17 }, .empty⟩ blackCat ≠
        .error (.stepBudgetExceeded limit) := by
  obtain ⟨found, after, ended, one⟩ : ∃ found after,
      Extractor.leafPass ⟨.assemble nounPhrases [0, 1], { maxSteps := 17 }, .empty⟩ blackCat
        (.ofOptions {}) = .ok found after ∧ found.length = 1 := ⟨_, _, rfl, rfl⟩
  obtain ⟨_, leaves, unique, _, bounded⟩ := @extract_within_bounds _ _
    ⟨.assemble nounPhrases [0, 1], { maxSteps := 17 }, .empty⟩ build_nounPhrases blackCat
  obtain rfl : found = leaves := (unique found).mp ⟨_, after, ended⟩
  have bound : Extractor.compositeBound ⟨.assemble nounPhrases [0, 1], { maxSteps := 17 }, .empty⟩
      blackCat.length found.length = 9 := by
    rw [one]
    rfl
  refine ⟨_, build_nounPhrases, rfl, found, bound, ⟨_, after, ended⟩, bounded ?_⟩
  rw [bound]
  exact Nat.le_refl _

end PhraseGrammar
