import PhraseGrammar.Json.PatternSet
import PhraseGrammar.Proofs.FeatureString

/-! The full form of a pattern set reads back as that set. -/

namespace PhraseGrammar

namespace Json

variable {α : Type} {set : α → String → Json → Decoded α} {fields required : List String}
  {defaults record : α}

/-- Members under names of fields that differ are set one after another. -/
theorem fill_map {members : List (String × Json)} {seen : List String} {filled : α}
    (known : ∀ name ∈ members.map Prod.fst, name ∈ fields)
    (nodup : (members.map Prod.fst ++ seen).Nodup)
    (sets : members.foldlM (fun record member => set record member.1 member.2) record = .ok filled) :
    fill fields set seen record (members.map fun member => (some member.1, member.2)) =
      .ok ((members.map Prod.fst).reverse ++ seen, filled) := by
  induction members generalizing seen record with
  | nil =>
    cases sets
    rfl
  | cons member members rest =>
    obtain ⟨name, value⟩ := member
    obtain ⟨isField, known⟩ := List.forall_mem_cons.mp known
    obtain ⟨fresh, nodup⟩ := List.nodup_cons.mp nodup
    rw [List.foldlM_cons] at sets
    -- The first member is set, and its name is seen from then on.
    cases first : set record name value with
    | error fault =>
      rw [first] at sets
      cases sets
    | ok grown =>
      rw [first] at sets
      have unseen : name ∉ seen := fun member => fresh (List.mem_append_right _ member)
      have apart : (members.map Prod.fst ++ name :: seen).Nodup :=
        List.perm_middle.nodup_iff.mpr (List.nodup_cons.mpr ⟨fresh, nodup⟩)
      have later := rest known apart sets
      simp only [List.map_cons, List.reverse_cons, List.append_assoc, List.singleton_append]
      rw [fill, if_pos isField, if_neg unseen, first]
      exact later

/-- A record written with all its fields in order is read by setting them in that order. -/
theorem asRecord_record {members : List (String × Json)} {filled : α}
    (all : members.map Prod.fst = fields) (nodup : fields.Nodup) (enough : required ⊆ fields)
    (sets : members.foldlM (fun record member => set record member.1 member.2) defaults =
      .ok filled) :
    asRecord fields required defaults set (Json.record members) = .ok filled := by
  subst all
  -- Nothing has been seen before the first member.
  rw [← List.append_nil (members.map Prod.fst)] at nodup
  have filling := fill_map (fun _ member => member) nodup sets
  have seen : required.all (· ∈ (members.map Prod.fst).reverse ++ []) :=
    List.all_eq_true.mpr fun name needed =>
      decide_eq_true (List.mem_append_left _ (List.mem_reverse.mpr (enough needed)))
  rw [asRecord, Json.record, membersOf, filling]
  show (if _ then _ else _) = _
  rw [if_pos seen]
  rfl

/-- Items that read back one by one do so as a list. -/
theorem asList_map {items : List α} {decode : Json → Decoded α} {encode : α → Json}
    (each : ∀ item ∈ items, decode (encode item) = .ok item) :
    asList decode (.array (items.map encode)) = .ok items := by
  rw [asList]
  induction items with
  | nil => rfl
  | cons item items rest =>
    obtain ⟨here, later⟩ := List.forall_mem_cons.mp each
    rw [List.map_cons, decodeItems, here, rest later]
    rfl

/-- A number of 32 bits reads back. -/
theorem asWord_nat (word : UInt32) : asWord (.nat word.toNat) = .ok word := by
  have small : asNatBelow UInt32.size (.nat word.toNat) = .ok word.toNat :=
    if_pos word.toNat_lt
  rw [asWord, small]
  exact congrArg Except.ok UInt32.ofNat_toNat

/-- A record can be kept if all its members can. -/
theorem keepable_record {members : List (String × Json)}
    (each : ∀ member ∈ members, member.2.keepable = true) : (Json.record members).keepable = true := by
  rw [Json.record, keepable]
  induction members with
  | nil => rfl
  | cons member members rest =>
    obtain ⟨here, later⟩ := List.forall_mem_cons.mp each
    rw [List.map_cons, keepableMembers, here, rest later]
    rfl

/-- A text can be kept. -/
theorem keepable_text (value : String) : (text value).keepable = true :=
  rfl

/-- Texts can be kept. -/
theorem keepableItems_texts (texts : List String) : keepableItems (texts.map text) = true := by
  induction texts with
  | nil => rfl
  | cons first texts rest =>
    rw [List.map_cons, keepableItems, rest]
    rfl

/-- A tag reads back from its feature string. -/
theorem asTag_print (tag : Morphology.Tag) : asTag (.text tag.print) = .ok tag := by
  have parsed := tag.parse_print
  rw [asTag, text, asString]
  simp only [bind, Except.bind, parsed]
  rfl

end Json

/-- A role reads back from its name. -/
theorem Role.ofJson_name (kept : Bool) (role : Role) : ofJson kept (.text role.name) = .ok role := by
  cases role <;> rfl

/-- A part of speech reads back from its name. -/
theorem PartOfSpeech.ofJson_name (kept : Bool) (pos : PartOfSpeech) :
    ofJson kept (.text pos.name) = .ok pos := by
  cases pos <;> rfl

/-- Demands beyond the attributes read back. -/
theorem Additional.ofJson_toJson (additional : Additional) :
    ofJson additional.toJson = .ok additional := by
  obtain ⟨repeats, lexeme, themes⟩ := additional
  have listed : Json.asList Json.asString (.array (themes.map .text)) = .ok themes :=
    Json.asList_map fun _ _ => rfl
  refine Json.asRecord_record rfl (by decide) (by decide) ?_
  simp only [List.foldlM_cons, List.foldlM_nil, setField, listed]
  cases lexeme with
  | none => rfl
  | some lexeme =>
    -- The lower case of a dictionary form is not written, but found again.
    show Except.ok (Additional.mk repeats (some (BaseForm.ofText lexeme.text)) themes) = _
    rw [BaseForm.ofText_text]

/-- A condition reads back. -/
theorem Condition.ofJson_toJson (kept : Bool) (condition : Condition) :
    ofJson kept condition.toJson = .ok condition := by
  refine Json.asRecord_record rfl (by decide) (by decide) ?_
  simp only [List.foldlM_cons, List.foldlM_nil, setField, Role.ofJson_name, Json.asTag_print,
    Additional.ofJson_toJson]
  rfl

/-- A slot for a word reads back. -/
theorem WordSlot.ofJson_record (slot : WordSlot) :
    ofJson (.record [("pos", .text slot.pos.name), ("condition", slot.condition.toJson)]) =
      .ok slot := by
  refine Json.asRecord_record rfl (by decide) (by decide) ?_
  simp only [List.foldlM_cons, List.foldlM_nil, setField, PartOfSpeech.ofJson_name,
    Condition.ofJson_toJson]
  rfl

/-- A slot for a phrase reads back. -/
theorem ModelSlot.ofJson_record (slot : ModelSlot) :
    ofJson (.record [("pattern", .text slot.pattern), ("condition", slot.condition.toJson)]) =
      .ok slot := by
  refine Json.asRecord_record rfl (by decide) (by decide) ?_
  simp only [List.foldlM_cons, List.foldlM_nil, setField, Condition.ofJson_toJson]
  rfl

/-- A condition can be kept. -/
theorem Condition.keepable_toJson (condition : Condition) : condition.toJson.keepable = true := by
  have lexeme : (condition.additional.lexeme.elim Json.null fun lexeme =>
      Json.text lexeme.text).keepable = true := by
    cases condition.additional.lexeme <;> rfl
  have additional : condition.additional.toJson.keepable = true := by
    refine Json.keepable_record ?_
    simp [lexeme, Json.keepableItems_texts, Json.keepable]
  refine Json.keepable_record ?_
  simp [additional, Json.keepable_text]

/-- A slot can be kept. -/
theorem Component.keepable_toJson (component : Component) : component.toJson.keepable = true := by
  cases component with
  | word slot =>
    refine Json.keepable_record ?_
    simp [Json.keepable_text, slot.condition.keepable_toJson]
  | model slot =>
    refine Json.keepable_record ?_
    simp [Json.keepable_text, slot.condition.keepable_toJson]

/-- A slot reads back. -/
theorem Component.ofJson_toJson (component : Component) :
    ofJson component.toJson = .ok component := by
  unfold ofJson
  -- What is kept is told apart by its kind, and the other members are read without it.
  rw [component.keepable_toJson]
  cases component with
  | word slot =>
    show (do return Component.word (← WordSlot.ofJson
      (.record [("pos", .text slot.pos.name), ("condition", slot.condition.toJson)]))) = _
    rw [WordSlot.ofJson_record]
    rfl
  | model slot =>
    show (do return Component.model (← ModelSlot.ofJson
      (.record [("pattern", .text slot.pattern), ("condition", slot.condition.toJson)]))) = _
    rw [ModelSlot.ofJson_record]
    rfl

/-- A pattern reads back. -/
theorem Pattern.ofJson_toJson (pattern : Pattern) : ofJson pattern.toJson = .ok pattern := by
  have listed : Json.asList Component.ofJson (.array (pattern.components.map Component.toJson)) =
      .ok pattern.components :=
    Json.asList_map fun component _ => component.ofJson_toJson
  refine Json.asRecord_record rfl (by decide) (by decide) ?_
  simp only [List.foldlM_cons, List.foldlM_nil, setField, listed]
  rfl

/-- A pattern set reads back. -/
theorem PatternSet.ofJson_toJson (set : PatternSet) : ofJson set.toJson = .ok set := by
  have listed : Json.asList Pattern.ofJson (.array (set.patterns.map Pattern.toJson)) =
      .ok set.patterns :=
    Json.asList_map fun pattern _ => pattern.ofJson_toJson
  refine Json.asRecord_record rfl (by decide) (by decide) ?_
  simp only [List.foldlM_cons, List.foldlM_nil, setField, Json.asWord_nat, listed]
  rfl

namespace PatternSet

/-- Every pattern set reads back from its full form, and whatever is read as a pattern set reads the same
once it is written in full. -/
theorem ofJson_form :
    (∀ set : PatternSet, ofJson set.toJson = .ok set) ∧
      ∀ (value : Json) (set : PatternSet), ofJson value = .ok set →
        ofJson set.toJson = ofJson value := by
  refine ⟨ofJson_toJson, fun value set accepted => ?_⟩
  rw [accepted, ofJson_toJson]

/-- A pattern set that leaves out what it can, with its members in no fixed order. -/
def sketch : Json :=
  .record [("patterns", .array [.record [
    ("components", .array [.record [
      ("condition", .record [("tag", .text " Number=Sing|Case=Nom ")]),
      ("slot", .text "word"),
      ("pos", .text "NOUN")]]),
    ("name", .text "noun")]])]

/-- What the sketch leaves out is written in full, with the attributes in their order. -/
theorem ofJson_form_sketch : ∃ set : PatternSet, ofJson sketch = .ok set ∧
    set.toJson = .record [
      ("version", .nat 0),
      ("patterns", .array [.record [
        ("name", .text "noun"),
        ("components", .array [.record [
          ("slot", .text "word"),
          ("pos", .text "NOUN"),
          ("condition", .record [
            ("role", .text "dependent"),
            ("tag", .text "Case=Nom|Number=Sing"),
            ("additional", .record [
              ("repeat", .bool false), ("lexeme", .null), ("themes", .array [])])])]])]])] ∧
    ofJson set.toJson = ofJson sketch := by
  let tag := (Morphology.Tag.empty.assign .nominative).assign .singular
  have accepted : ofJson sketch =
      .ok ⟨0, [⟨"noun", [.word { pos := .noun, condition := { tag } }]⟩]⟩ := rfl
  exact ⟨_, accepted, rfl, ofJson_form.2 sketch _ accepted⟩

end PatternSet

end PhraseGrammar
