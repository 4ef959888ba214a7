import StepPlan.Proofs.Json.Forms

/-! Forms that hold literals. A double that is not finite has no numeral, and a long numeral may be
read as a neighbour of the double that it was written for. So a formula, a model or a registry is
read back from its text if each of its literals is, and its text cannot be read if one of its
literals is not finite. All other parts of it lose nothing. This holds however doubles are printed
and read, as long as well-formed numerals are printed.
-/

namespace StepPlan

open Json

-----------------------------------------------------------------------------------------
-- Literals
-----------------------------------------------------------------------------------------

/-- The literal of an instruction, if it is one. -/
def Instruction.literals : Instruction → List Binary64
  | .number value => [value]
  | _ => []

/-- The literals of a formula. -/
def Formula.literals (formula : Formula) : List Binary64 :=
  formula.flatMap Instruction.literals

/-- The literals in the definition of a variable. -/
def Variable.literals (known : Variable) : List Binary64 :=
  Formula.literals (known.definition.getD [])

/-- The literals in the definitions of a model. -/
def Model.literals (model : Model) : List Binary64 :=
  model.vars.flatMap Variable.literals

/-- The literals in the formulas of a registry. -/
def Registry.Columns.literals (columns : Registry.Columns) : List Binary64 :=
  columns.formulas.flatMap Formula.literals

/-- Finite doubles are printed as well-formed numerals. -/
class LawfulNumberForm [NumberForm] : Prop where
  wellFormed_print : ∀ x : Binary64, x.isFinite = true → (NumberForm.print x).WellFormed

instance : LawfulNumberForm where
  wellFormed_print x _ := Numeral.wellFormed_ofBinary64 x

theorem legible_binary64 [NumberForm] [LawfulNumberForm] (x : Binary64) : (toJson x).Legible := by
  change (if x.isFinite then Json.numeral (NumberForm.print x) else .null).Legible
  split
  · rename_i finite
    exact .numeral (LawfulNumberForm.wellFormed_print x finite)
  · exact .null

theorem toJson_of_not_isFinite [NumberForm] {x : Binary64} (infinite : x.isFinite = false)
    : toJson x = Json.null := by
  change (if x.isFinite then Json.numeral (NumberForm.print x) else .null) = .null
  simp [infinite]

theorem not_isFinite {x : Binary64} (special : x.isNaN = true ∨ x.isInfinite = true)
    : x.isFinite = false := by
  simp only [Binary64.isNaN, Binary64.isInfinite, Binary64.isFinite, decide_eq_true_eq] at *
  rcases special with ⟨field, _⟩ | ⟨field, _⟩ <;> simp [field]

-----------------------------------------------------------------------------------------
-- Parts of a text
-----------------------------------------------------------------------------------------

namespace Json

theorem infix_compactItems {items : List Json} {item : Json} (member : item ∈ items)
    : item.compact.toList <:+: (compactItems items).toList := by
  induction items with
  | nil => cases member
  | cons first rest ih =>
      cases rest with
      | nil =>
          obtain rfl := List.mem_singleton.mp member
          exact List.infix_rfl
      | cons second rest =>
          simp only [compactItems, String.toList_append, List.append_assoc]
          rcases List.mem_cons.mp member with rfl | later
          · exact (List.prefix_append _ _).isInfix
          · exact (ih later).trans ((List.suffix_append _ _).trans (List.suffix_append _ _)).isInfix

theorem infix_compactFields {fields : List (Option String × Json)} {field : Option String × Json}
    (member : field ∈ fields)
    : field.2.compact.toList <:+: (compactFields fields).toList := by
  induction fields with
  | nil => cases member
  | cons first rest ih =>
      obtain ⟨key, value⟩ := first
      cases rest with
      | nil =>
          obtain rfl := List.mem_singleton.mp member
          exact ⟨(textText key).toList ++ [':'], [], by simp [compactFields]⟩
      | cons second rest =>
          rcases List.mem_cons.mp member with rfl | later
          · refine ⟨(textText key).toList ++ [':'],
              ',' :: (compactFields (second :: rest)).toList, ?_⟩
            simp [compactFields]
          · simp only [compactFields, String.toList_append]
            exact (ih later).trans (List.suffix_append _ _).isInfix

/-- An item is written inside its array. -/
theorem infix_array {items : List Json} {item : Json} (member : item ∈ items)
    : item.compact.toList <:+: (Json.array items).compact.toList := by
  refine (infix_compactItems member).trans ⟨['['], [']'], ?_⟩
  simp [compact]

/-- A field is written inside its record. -/
theorem infix_record {fields : List (String × Json)} {name : String} {value : Json}
    (member : (name, value) ∈ fields)
    : value.compact.toList <:+: (record fields).compact.toList := by
  have field : (some name, value) ∈ fields.map fun field => (some field.1, field.2) :=
    List.mem_map.mpr ⟨(name, value), member, rfl⟩
  refine (infix_compactFields field).trans ⟨['\x7b'], ['\x7d'], ?_⟩
  simp [compact, record]

end Json

-----------------------------------------------------------------------------------------
-- Texts without literals
-----------------------------------------------------------------------------------------

theorem Json.Legible.bind_parse? {value : Json} (legible : value.Legible) {α : Type}
    (read? : Json → Option α)
    : (parse? value.compact).bind read? = read? value := by
  rw [legible.parse?_compact, Option.bind_some]

theorem readText?_writeText {α : Type} [JsonForm α] [LawfulForm α] (value : α)
    : readText? (writeText value) = some value := by
  rw [readText?, writeText, (legible value).bind_parse?, ofJson?_toJson]

/-- A signature is read back, since its codes are 32-bit numbers. -/
theorem Signature.bind_parse? (codes : List UInt32)
    : (parse? (Signature.toJson (codes.map UInt32.toNat)).compact).bind Signature.ofJson?
      = some (codes.map UInt32.toNat) := by
  have legible : (Signature.toJson (codes.map UInt32.toNat)).Legible :=
    legible_array fun code _ => legible_ofNat code
  have each : ∀ code ∈ codes.map UInt32.toNat,
      (Json.ofNat code).toNatBelow? 0x100000000 = some code := by
    intro code member
    obtain ⟨word, _, rfl⟩ := List.mem_map.mp member
    exact toNatBelow?_ofNat word.toNat_lt
  rw [legible.bind_parse?, Signature.ofJson?, Signature.toJson, list?_array, mapM_eq_some each,
    List.map_id']

/-- The columns of a registry are its states. -/
theorem Registry.ofColumns_columns (registry : Registry)
    : Registry.ofColumns registry.columns = ⟨registry.states, .empty⟩ := by
  simp only [Registry.ofColumns, Registry.columns, List.zip_map', List.map_map]
  exact congrArg (Registry.mk · .empty) (List.map_id _)

-----------------------------------------------------------------------------------------
-- Forms that hold literals
-----------------------------------------------------------------------------------------

/-- (Exchanges write read? literals value) means that the form of a value is legible and shows its
literals, that the value is read back from it if the literals are, and that it cannot be read if one
of the literals cannot.
-/
structure Exchanges [NumberForm] {α : Type} (write : α → Json) (read? : Json → Option α)
    (literals : α → List Binary64) (value : α)
    : Prop where
  legible : (write value).Legible
  shows
    : ∀ x ∈ literals value,
        (Instruction.number x).toJson.compact.toList <:+: (write value).compact.toList
  returns
    : (∀ x ∈ literals value, ofJson? (toJson x) = some x) → read? (write value) = some value
  fails
    : ∀ x ∈ literals value,
        (ofJson? (toJson x) : Option Binary64) = none → read? (write value) = none

section NumberForm

variable [NumberForm] {α β : Type} {write : α → Json} {read? : Json → Option α}
  {literals : α → List Binary64}

/-- What has no literals is exchanged if it is read back. -/
theorem exchanges_of_read {value : α} (none : literals value = []) (legible : (write value).Legible)
    (read : read? (write value) = some value)
    : Exchanges write read? literals value := by
  refine ⟨legible, ?_, fun _ => read, ?_⟩ <;> simp [none]

/-- A list is exchanged if its items are. -/
theorem Exchanges.list {values : List α}
    (each : ∀ value ∈ values, Exchanges write read? literals value)
    : Exchanges (fun values => .array (values.map write)) (list? read?)
        (fun values => values.flatMap literals) values where
  legible := legible_array fun value member => (each value member).legible
  shows x member := by
    obtain ⟨value, inside, literal⟩ := List.mem_flatMap.mp member
    exact ((each value inside).shows x literal).trans (infix_array (List.mem_map_of_mem inside))
  returns all := by
    rw [list?_array, mapM_eq_some fun value member => (each value member).returns ?_, List.map_id']
    exact fun x literal => all x (List.mem_flatMap.mpr ⟨value, member, literal⟩)
  fails x member unread := by
    obtain ⟨value, inside, literal⟩ := List.mem_flatMap.mp member
    rw [list?_array]
    exact mapM_eq_none inside ((each value inside).fails x literal unread)

/-- What holds its literals in one part is exchanged if the part is. -/
theorem Exchanges.enclose {part : α} (exchanges : Exchanges write read? literals part)
    {writeWhole : β → Json} {readWhole? : Json → Option β} {literalsWhole : β → List Binary64}
    {whole : β} (legible : (writeWhole whole).Legible)
    (inside : (write part).compact.toList <:+: (writeWhole whole).compact.toList)
    (same : literalsWhole whole = literals part) (complete : α → β) (result : complete part = whole)
    (read : readWhole? (writeWhole whole) = (read? (write part)).map complete)
    : Exchanges writeWhole readWhole? literalsWhole whole where
  legible := legible
  shows x member := (exchanges.shows x (same ▸ member)).trans inside
  returns all := by rw [read, exchanges.returns (same ▸ all), Option.map_some, result]
  fails x member unread := by rw [read, exchanges.fails x (same ▸ member) unread, Option.map_none]

-----------------------------------------------------------------------------------------
-- Formulas, models and registries
-----------------------------------------------------------------------------------------

theorem Instruction.exchanges [LawfulNumberForm] (instruction : Instruction)
    : Exchanges Instruction.toJson Instruction.ofJson? Instruction.literals instruction := by
  cases instruction with
  | number value =>
      have read : ofJson? (Instruction.number value).toJson
          = (Json.ofJson? (Json.toJson value)).map .number :=
        rfl
      refine ⟨legible_variant (legible_binary64 value), ?_, ?_, ?_⟩
      · simp [literals]
      · intro all
        rw [read, all value (List.mem_singleton_self value), Option.map_some]
      · intro x literal unread
        obtain rfl := List.mem_singleton.mp literal
        rw [read, unread, Option.map_none]
  | customFunction name arity =>
      refine exchanges_of_read rfl ?_ ?_
      · exact legible_variant (legible_record (by simp [legible name, legible arity]))
      · simp [Instruction.ofJson?, Instruction.toJson, variant?_variant, ofContent?, record?_pair]
  | customOperator id name access =>
      have fields : (record [("id", Json.toJson id), ("name", Json.toJson name),
          ("kind", Json.toJson access)]).record? ["id", "name", "kind"]
          = some [some (Json.toJson id), some (Json.toJson name), some (Json.toJson access)] :=
        record?_record (by simp)
      refine exchanges_of_read rfl ?_ ?_
      · exact legible_variant
          (legible_record (by simp [legible id, legible name, legible access]))
      · simp [Instruction.ofJson?, Instruction.toJson, variant?_variant, ofContent?, fields]
  | routine cluster arity =>
      refine exchanges_of_read rfl ?_ ?_
      · exact legible_variant (legible_record (by simp [legible cluster, legible arity]))
      · simp [Instruction.ofJson?, Instruction.toJson, variant?_variant, ofContent?, record?_pair]
  | _ =>
      refine exchanges_of_read rfl (legible_variant (legible _)) ?_
      simp [Instruction.ofJson?, Instruction.toJson, variant?_variant, ofContent?]

theorem Formula.exchanges [LawfulNumberForm] (formula : Formula)
    : Exchanges Formula.toJson Formula.ofJson? Formula.literals formula := by
  have list := Exchanges.list fun instruction (_ : instruction ∈ formula) => instruction.exchanges
  have fields : (Formula.toJson formula).record? ["instructions"]
      = some [some (.array (formula.map Instruction.toJson))] :=
    record?_record (by simp)
  have inside := infix_record
    (List.mem_singleton_self ("instructions", Json.array (formula.map Instruction.toJson)))
  have read : Formula.ofJson? (Formula.toJson formula)
      = (list? Instruction.ofJson? (.array (formula.map Instruction.toJson))).map id := by
    simp [Formula.ofJson?, fields]
  exact list.enclose (legible_record (by simpa using list.legible)) inside rfl id rfl read

theorem Variable.exchanges [LawfulNumberForm] (known : Variable)
    : Exchanges Variable.toJson Variable.ofJson? Variable.literals known := by
  obtain ⟨name, flags, definition⟩ := known
  have fields : (Variable.toJson ⟨name, flags, definition⟩).record? ["name", "flags", "definition"]
      = some [some (Json.toJson name), some (Json.toJson flags),
        some ((definition.map Formula.toJson).getD .null)] :=
    record?_record (by simp)
  cases definition with
  | none =>
      -- A missing definition is written as null, which is read as none.
      refine exchanges_of_read rfl ?_ ?_
      · exact legible_record (by simp [legible name, legible flags, Legible.null])
      · simp [Variable.ofJson?, fields, definition?]
  | some formula =>
      have part := formula.exchanges
      have inside := infix_record (show ("definition", Formula.toJson formula)
        ∈ [("name", Json.toJson name), ("flags", Json.toJson flags),
          ("definition", Formula.toJson formula)] by simp)
      have definition : Variable.definition? (some (Formula.toJson formula))
          = (Formula.ofJson? (Formula.toJson formula)).map some :=
        rfl
      have read : Variable.ofJson? (Variable.toJson ⟨name, flags, some formula⟩)
          = (Formula.ofJson? (Formula.toJson formula)).map
              fun read => ⟨name, flags, some read⟩ := by
        simp only [Variable.ofJson?, fields, Option.map_some, Option.getD_some, definition]
        cases Formula.ofJson? (Formula.toJson formula) <;> simp
      refine part.enclose (legible_record ?_) inside rfl _ rfl read
      simp [legible name, legible flags, part.legible]

theorem Model.exchanges [LawfulNumberForm] (model : Model)
    : Exchanges toJson ofJson? Model.literals model := by
  have list := Exchanges.list fun known (_ : known ∈ model.vars) => known.exchanges
  have fields : (record [("variables", toJson model.vars)]).record? ["variables"]
      = some [some (toJson model.vars)] :=
    record?_record (by simp)
  have inside := infix_record
    (List.mem_singleton_self ("variables", Json.array (model.vars.map Variable.toJson)))
  have read : ofJson? (toJson model)
      = (list? Variable.ofJson? (.array (model.vars.map Variable.toJson))).map Model.mk := by
    unfold instJsonFormModel
    rw [Option.map_eq_bind]
    simp only [fields]
    rfl
  have legible : (toJson model).Legible :=
    legible_record (List.forall_mem_singleton.mpr list.legible)
  exact list.enclose legible inside rfl Model.mk rfl read

theorem Registry.Columns.exchanges [LawfulNumberForm] (columns : Registry.Columns)
    : Exchanges toJson ofJson? Registry.Columns.literals columns := by
  obtain ⟨targets, roles, formulas, names⟩ := columns
  have list := Exchanges.list fun formula (_ : formula ∈ formulas) => Formula.exchanges formula
  have fields : (record [("targets", toJson targets), ("roles", toJson roles),
        ("expressions", .array (formulas.map Formula.toJson)), ("names", toJson names)]).record?
        ["targets", "roles", "expressions", "names"]
      = some [some (toJson targets), some (toJson roles),
        some (.array (formulas.map Formula.toJson)), some (toJson names)] :=
    record?_record (by simp)
  have inside := infix_record (show ("expressions", Json.array (formulas.map Formula.toJson))
    ∈ [("targets", toJson targets), ("roles", toJson roles),
      ("expressions", Json.array (formulas.map Formula.toJson)), ("names", toJson names)] by simp)
  have read : ofJson? (toJson (⟨targets, roles, formulas, names⟩ : Registry.Columns))
      = (list? Formula.ofJson? (.array (formulas.map Formula.toJson))).map
          fun read => Registry.Columns.mk targets roles read names := by
    unfold instJsonFormColumns
    simp only [fields, Option.bind_some]
    cases list? Formula.ofJson? (.array (formulas.map Formula.toJson)) <;> simp
  refine list.enclose (legible_record ?_) inside rfl _ rfl read
  simp [legible targets, legible roles, legible names, list.legible]

-----------------------------------------------------------------------------------------
-- Texts
-----------------------------------------------------------------------------------------

/-- A literal is finite, and its text is read back as the same double. -/
def Binary64.Returns (x : Binary64) : Prop :=
  x.isFinite = true ∧ readText? (writeText x) = some x

/-- The text of an instruction whose literal is not finite. -/
def lostLiteral : String :=
  "\x7b\"Number\":null\x7d"

/-- (Exchanged text read? literals value) means that a text is read as a value if its literals are
read back, and that it cannot be read if one of them is a NaN or infinite, which is written as null.
-/
structure Exchanged {α : Type} (text : String) (read? : String → Option α)
    (literals : List Binary64) (value : α)
    : Prop where
  returns : (∀ x ∈ literals, x.Returns) → read? text = some value
  fails
    : ∀ x ∈ literals,
        x.isNaN = true ∨ x.isInfinite = true
        → lostLiteral.toList <:+: text.toList ∧ read? text = none

theorem compact_lostLiteral {x : Binary64} (infinite : x.isFinite = false)
    : (Instruction.number x).toJson.compact = lostLiteral := by
  change (variant "Number" (toJson x)).compact = lostLiteral
  rw [toJson_of_not_isFinite infinite]
  decide +kernel

theorem Exchanges.exchanged [LawfulNumberForm] {value : α}
    (exchanges : Exchanges write read? literals value)
    : Exchanged (write value).compact (fun text => (parse? text).bind read?) (literals value)
        value where
  returns all := by
    rw [exchanges.legible.bind_parse?]
    -- What is assumed of the texts of the literals holds of their forms.
    refine exchanges.returns fun x member => ?_
    rw [← (legible_binary64 x).bind_parse? ofJson?]
    exact (all x member).2
  fails x member special := by
    have infinite := not_isFinite special
    rw [exchanges.legible.bind_parse?, ← compact_lostLiteral infinite]
    refine ⟨exchanges.shows x member, exchanges.fails x member ?_⟩
    rw [toJson_of_not_isFinite infinite]
    rfl

theorem Exchanged.map {text : String} {read? : String → Option α} {literals : List Binary64}
    {value : α} (exchanged : Exchanged text read? literals value) (change : α → β)
    : Exchanged text (fun text => (read? text).map change) literals (change value) where
  returns all := by rw [exchanged.returns all, Option.map_some]
  fails x member special := by
    obtain ⟨shown, unread⟩ := exchanged.fails x member special
    exact ⟨shown, by rw [unread, Option.map_none]⟩

end NumberForm

/-- However doubles are printed and read, all exchanged values are read back from their texts,
whatever the characters of their texts and however many parts they have, if their literals are. A
registry comes back with empty lookups. A literal that is not finite is written as null, and then
the text cannot be read.
-/
theorem texts_roundTrip [NumberForm] [LawfulNumberForm]
    : (∀ instruction : Instruction,
        Exchanged (writeText instruction) readText? instruction.literals instruction)
      ∧ (∀ formula : Formula,
          Exchanged (Formula.toJson formula).compact
            (fun text => (parse? text).bind Formula.ofJson?) (Formula.literals formula) formula)
      ∧ (∀ model : Model, Exchanged (writeText model) readText? model.literals model)
      ∧ (∀ columns : Registry.Columns,
          Exchanged (writeText columns) readText? columns.literals columns)
      ∧ (∀ registry : Registry,
          Exchanged (writeText registry.columns)
            (fun text => (readText? text).map Registry.ofColumns) registry.columns.literals
            ⟨registry.states, .empty⟩)
      ∧ (∀ key : Key, readText? (writeText key) = some key)
      ∧ (∀ target : Target, readText? (writeText target) = some target)
      ∧ (∀ flags : VariableFlags, readText? (writeText flags) = some flags)
      ∧ ∀ codes : List UInt32,
          (parse? (Signature.toJson (codes.map UInt32.toNat)).compact).bind Signature.ofJson?
          = some (codes.map UInt32.toNat) := by
  refine ⟨fun instruction => instruction.exchanges.exchanged,
    fun formula => formula.exchanges.exchanged, fun model => model.exchanges.exchanged,
    fun columns => columns.exchanges.exchanged, fun registry => ?_, readText?_writeText,
    readText?_writeText, readText?_writeText, Signature.bind_parse?⟩
  rw [← registry.ofColumns_columns]
  exact registry.columns.exchanges.exchanged.map Registry.ofColumns

/-- A model with a quote, a line break and a control in its texts, and with two literals. -/
def quotedModel (second : Binary64) : Model :=
  ⟨[⟨"a \"b\"\n", ⟨true, false, true, false⟩, none⟩,
    ⟨"", ⟨false, true, false, false⟩,
      some [.number ⟨0x3fe0000000000000⟩, .customFunction "\x01\\" 2, .number second]⟩]⟩

/-- In standard numerals, the model is read back with the literals `0.5` and `-1e300`, and it is
lost with a NaN.
-/
theorem texts_roundTrip_quoted
    : readText? (writeText (quotedModel ⟨0xfe37e43c8800759c⟩))
        = some (quotedModel ⟨0xfe37e43c8800759c⟩)
      ∧ (readText? (writeText (quotedModel .nan)) : Option Model) = none := by
  obtain ⟨_, _, model, _⟩ := texts_roundTrip
  have literals : ∀ second,
      (quotedModel second).literals = [⟨0x3fe0000000000000⟩, second] := fun _ => rfl
  have half : Binary64.Returns ⟨0x3fe0000000000000⟩ := ⟨by decide +kernel, by decide +kernel⟩
  have large : Binary64.Returns ⟨0xfe37e43c8800759c⟩ := ⟨by decide +kernel, by decide +kernel⟩
  refine ⟨(model (quotedModel _)).returns ?_, ((model (quotedModel .nan)).fails .nan ?_ ?_).2⟩
  · rw [literals]
    exact List.forall_mem_cons.mpr ⟨half, List.forall_mem_singleton.mpr large⟩
  · rw [literals]
    exact List.mem_cons_of_mem _ (List.mem_singleton_self _)
  · exact Or.inl (by decide)

end StepPlan
