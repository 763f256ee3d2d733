import Mathlib.Data.Finset.Card
import PhraseGrammar.CompositePass
import PhraseGrammar.Proofs.Cost

/-! A search along a route pays its way by the trials it makes, none of which is made twice. -/

namespace PhraseGrammar

/-- The steps that it takes to follow a route up to its first slot for a phrase. -/
def routePrice (room : Nat) : List Stop → Nat
  | [] => 0
  | stop :: route =>
    match stop.component with
    | .word slot =>
      -- A slot that repeats is left behind once for every token that there can be on a side.
      if stop.outermost && slot.condition.isRepeated then 1 + room * (routePrice room route + 1)
      else 1 + routePrice room route
    | .model _ => 1

/-- The steps behind the slots for phrases on a route, each of which is passed some times. -/
def routeCharge (room : Nat) (passed : Stop → Nat) : List Stop → Nat
  | [] => 0
  | stop :: route =>
    match stop.component with
    | .word _ => routeCharge room passed route
    | .model _ => passed stop * routePrice room route + routeCharge room passed route

/-- The trials that have been made at the slot with an index. -/
def triedAt (trials : Trials) (index : Nat) : Finset Trial :=
  trials.toList.toFinset.filter fun trial => trial.index = index

/-- Whether all trials have been made that have been made at another time. -/
def Retains (earlier later : Trials) : Prop :=
  ∀ trial ∈ earlier, trial ∈ later

variable {earlier between later trials : Trials} {trial : Trial} {index : Nat}

/-- A trial has been made at a slot if it is one of those made and has its index. -/
theorem mem_triedAt : trial ∈ triedAt trials index ↔ trial ∈ trials ∧ trial.index = index := by
  simp [triedAt]

/-- Once more trials have been made, there are at least as many at each slot. -/
theorem Retains.card_triedAt (retains : Retains earlier later) (index : Nat) :
    (triedAt earlier index).card ≤ (triedAt later index).card := by
  refine Finset.card_le_card fun trial member => ?_
  obtain ⟨made, same⟩ := mem_triedAt.mp member
  exact mem_triedAt.mpr ⟨retains trial made, same⟩

/-- Making a trial keeps those made before. -/
theorem retains_insert (trials : Trials) (trial : Trial) : Retains trials (trials.insert trial) :=
  fun _ made => Std.HashSet.mem_insert.mpr (.inr made)

/-- Trials that are kept for a while and then for another one are kept. -/
theorem Retains.trans (first : Retains earlier between) (second : Retains between later) :
    Retains earlier later :=
  fun trial made => second trial (first trial made)

/-- A trial that has not been made before is one more at its slot. -/
theorem card_triedAt_insert (fresh : trial ∉ trials) :
    (triedAt (trials.insert trial) trial.index).card = (triedAt trials trial.index).card + 1 := by
  -- At its own slot the trial is added, and the trials of other slots do not count.
  have others : triedAt (trials.insert trial) trial.index =
      insert trial (triedAt trials trial.index) := by
    ext other
    rw [Finset.mem_insert, mem_triedAt, mem_triedAt, Std.HashSet.mem_insert, beq_iff_eq]
    constructor
    · rintro ⟨rfl | made, same⟩
      · exact .inl rfl
      · exact .inr ⟨made, same⟩
    · rintro (rfl | ⟨made, same⟩)
      · exact ⟨.inl rfl, rfl⟩
      · exact ⟨.inr made, same⟩
  rw [others, Finset.card_insert_of_notMem fun member => fresh (mem_triedAt.mp member).1]

/-- The more often slots are passed, the more is charged. -/
theorem routeCharge_mono {fewer more : Stop → Nat} {room : Nat} {route : List Stop}
    (each : ∀ stop ∈ route, fewer stop ≤ more stop) :
    routeCharge room fewer route ≤ routeCharge room more route := by
  induction route with
  | nil => exact Nat.le_refl _
  | cons stop route rest =>
    obtain ⟨here, later⟩ := List.forall_mem_cons.mp each
    have behind := rest later
    simp only [routeCharge]
    split
    · exact behind
    · have charged := Nat.mul_le_mul_right (routePrice room route) here
      omega

/-- What the trials that have been made at the slots of a route are charged. -/
def chargedFor (room : Nat) (route : List Stop) (trials : Trials) : Nat :=
  routeCharge room (fun stop => (triedAt trials stop.index).card) route

/-- Once more trials have been made, at least as much is charged. -/
theorem Retains.chargedFor (retains : Retains earlier later) (room : Nat) (route : List Stop) :
    chargedFor room route earlier ≤ chargedFor room route later :=
  routeCharge_mono fun stop _ => retains.card_triedAt stop.index

namespace Attempt

open Search

/-- Whether a search keeps the trials made before, and pays for its steps apart from a price. -/
def Pays (search : Search Findings) (price : Nat) (charge : Trials → Nat) (trials : Trials) : Prop :=
  search.Priced fun findings steps =>
    Retains trials findings.trials ∧ steps + charge trials ≤ price + charge findings.trials

/-- Whether a way to go on pays for its steps apart from a price, wherever it starts. -/
def PaysOn (goOn : Continue) (price : Nat) (charge : Trials → Nat) : Prop :=
  ∀ phrase status depth trials, Pays (goOn phrase status depth trials) price charge trials

variable {goOn : Continue} {price : Nat} {charge : Trials → Nat}

/-- A search that ends where it starts pays for itself. -/
theorem pays_nothing (trials : Trials) : Pays (pure ⟨[], trials⟩) price charge trials :=
  .ofPure ⟨fun _ made => made, by dsimp only; omega⟩

/-- Going a step deeper takes one step. -/
theorem priced_descend {α : Type} {depth : Nat} {second : Unit → Search α} {post : α → Nat → Prop}
    (after : (second ()).Priced fun result more => post result (1 + more)) :
    (descend depth >>= second).Priced post := by
  have descended : Costs (descend depth) () (1 + 0) (max 0 depth) := by
    rw [descend]
    exact costs_step.bind (costs_enter depth)
  obtain ⟨result, more, deeper, costs, holds⟩ := after
  exact ⟨result, 1 + more, _, descended.bind costs, holds⟩

/-- Filling a slot with tokens pays the price of going on for each token, and a step to go there. -/
theorem fillWord_pays (next : PaysOn goOn price charge) (stop : Stop) (slot : WordSlot)
    (outward : List (Token × Nat)) (phrase : Phrase) (status : MatchStatus) (depth : Nat)
    (trials : Trials) :
    Pays (fillWord stop slot goOn outward phrase status depth trials)
      (if stop.outermost && slot.condition.isRepeated then outward.length * (price + 1) else price)
      charge trials := by
  -- The induction is on the tokens outwards, since a slot may be filled again by the next one.
  induction outward generalizing phrase status depth trials with
  | nil => exact pays_nothing trials
  | cons first outward rest =>
    obtain ⟨token, position⟩ := first
    rw [fillWord]
    split
    · generalize takeWord stop slot token position phrase status = taken
      obtain ⟨grown, counted⟩ := taken
      refine (next grown counted (depth + 1) trials).bind fun here steps paid => ?_
      obtain ⟨kept, within⟩ := paid
      split
      · -- Each further token has its own price, and one step to get there.
        rename_i repeats
        simp only [if_pos repeats] at rest
        refine priced_descend ((rest grown counted (depth + 1) here.trials).bind ?_)
        rintro further more ⟨keptOn, also⟩
        refine .ofPure ⟨kept.trans keptOn, ?_⟩
        rw [List.length_cons, Nat.succ_mul]
        dsimp only
        omega
      · exact .ofPure ⟨kept, by omega⟩
    · exact pays_nothing trials

/-- Filling a slot with neighbours is paid for by the trials that are made at the slot. -/
theorem fillModel_pays (next : PaysOn goOn price charge)
    (mono : ∀ earlier later, Retains earlier later → charge earlier ≤ charge later)
    (attempt : Attempt) (stop : Stop) (slot : ModelSlot) (pattern : Pattern) (phrase : Phrase)
    (status : MatchStatus) (depth : Nat) (leaves : List (Phrase × Nat)) (trials : Trials) :
    Pays (attempt.fillModel stop slot pattern goOn phrase status depth leaves trials) 0
      (fun trials => (triedAt trials stop.index).card * price + charge trials) trials := by
  -- A neighbour is passed over, or it is one more trial, which pays for what lies behind it.
  induction leaves generalizing trials with
  | nil => exact pays_nothing trials
  | cons first leaves rest =>
    obtain ⟨leaf, number⟩ := first
    rw [fillModel]
    split
    · exact rest trials
    · rename_i fresh
      have untried : (⟨stop.side, stop.index, number, phrase.span⟩ : Trial) ∉ trials := by
        simp only [Bool.or_eq_true, not_or, Std.HashSet.contains_iff_mem] at fresh
        exact fresh.2
      have one := card_triedAt_insert untried
      have inserted := retains_insert trials ⟨stop.side, stop.index, number, phrase.span⟩
      generalize trials.insert ⟨stop.side, stop.index, number, phrase.span⟩ = tried at one inserted
      have charged := mono trials tried inserted
      -- The charge for the new trial is what going on behind it may cost.
      have paidFor : (triedAt trials stop.index).card * price + price =
          (triedAt tried stop.index).card * price := by
        rw [one, Nat.succ_mul]
      dsimp only
      split
      · -- What does not meet the slot costs nothing.
        refine (rest tried).mono fun findings steps paid => ?_
        obtain ⟨kept, within⟩ := paid
        refine ⟨inserted.trans kept, ?_⟩
        dsimp only at within ⊢
        omega
      · rename_i grown grownStatus _
        refine (next grown grownStatus (depth + 1) tried).bind fun here steps paid => ?_
        refine (rest here.trials).bind fun further more also => .ofPure ?_
        obtain ⟨kept, within⟩ := paid
        obtain ⟨keptOn, withinOn⟩ := also
        refine ⟨(inserted.trans kept).trans keptOn, ?_⟩
        -- Going on may have made more trials at this slot, but not fewer.
        have more := Nat.mul_le_mul_right price (kept.card_triedAt stop.index)
        dsimp only at withinOn ⊢
        omega

/-- Following a route is paid for by its price and by the trials that are made at its slots. -/
theorem walk_pays {room : Nat} (attempt : Attempt)
    (enough : ∀ side span, (attempt.around.outward side span).length ≤ room) (route : List Stop) :
    PaysOn (attempt.walk route) (routePrice room route) (chargedFor room route) := by
  -- The induction is on the route, so that what follows a slot has its price already.
  induction route with
  | nil =>
    intro phrase status depth trials
    rw [walk]
    exact .ofPure ⟨fun _ made => made, Nat.le_refl _⟩
  | cons stop route rest =>
    intro phrase status depth trials
    rw [walk]
    refine priced_descend ?_
    simp only [routePrice, chargedFor, routeCharge]
    cases stop.component with
    | word slot =>
      dsimp only
      refine (fillWord_pays rest stop slot _ phrase status depth trials).mono ?_
      rintro findings steps ⟨kept, within⟩
      refine ⟨kept, ?_⟩
      -- There are no more tokens on a side than there is room for.
      have tokens := Nat.mul_le_mul_right (routePrice room route + 1)
        (enough stop.side phrase.span)
      simp only [chargedFor] at within
      split
      · rename_i repeats
        rw [if_pos repeats] at within
        omega
      · rename_i once
        rw [if_neg once] at within
        omega
    | model slot =>
      dsimp only
      split
      · exact .ofPure ⟨fun _ made => made, Nat.le_refl _⟩
      · refine (fillModel_pays rest (fun _ _ retains => retains.chargedFor room route) attempt stop
          slot _ phrase status depth _ trials).mono ?_
        rintro findings steps ⟨kept, within⟩
        refine ⟨kept, ?_⟩
        simp only [chargedFor] at within
        omega

end Attempt

end PhraseGrammar
