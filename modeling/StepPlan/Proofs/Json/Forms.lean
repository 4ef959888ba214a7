import StepPlan.Json.Exchange
import StepPlan.Proofs.Json.Parsing

/-! Forms that lose nothing. A form is lawful if every value is legible as JSON and is read back
from it. Numbers of fixed width, texts, vocabularies, lists of such and the records and variants
made of them have lawful forms.
-/

namespace StepPlan

open Json

namespace Json

-----------------------------------------------------------------------------------------
-- Numbers, lists and records
-----------------------------------------------------------------------------------------

theorem legible_ofNat (n : Nat) : (ofNat n).Legible :=
  .numeral (Numeral.wellFormed_ofNat n)

theorem toNatBelow?_ofNat {limit n : Nat} (below : n < limit)
    : (ofNat n).toNatBelow? limit = some n := by
  have value : (Numeral.mk false (digitsOf n) none none).toNat? = some n := by
    simp [Numeral.toNat?, Numeral.isInteger, valueOf_digitsOf]
  simp [toNatBelow?, ofNat, value, Option.filter, below]

/-- A list whose items can all be read can be read. -/
theorem mapM_eq_some {α β : Type} {read? : α → Option β} {result : α → β} {values : List α}
    (each : ∀ value ∈ values, read? value = some (result value))
    : values.mapM read? = some (values.map result) := by
  induction values with
  | nil => rfl
  | cons first rest ih =>
      obtain ⟨one, others⟩ := List.forall_mem_cons.mp each
      simp [List.mapM_cons, one, ih others]

/-- A list with an item that cannot be read cannot be read. -/
theorem mapM_eq_none {α β : Type} {read? : α → Option β} {values : List α} {value : α}
    (member : value ∈ values) (unread : read? value = none)
    : values.mapM read? = none := by
  induction values with
  | nil => cases member
  | cons first rest ih =>
      rcases List.mem_cons.mp member with rfl | later
      · simp [List.mapM_cons, unread]
      · cases one : read? first <;> simp [List.mapM_cons, one, ih later]

theorem list?_array {α β : Type} (read? : Json → Option β) (write : α → Json) (values : List α)
    : list? read? (.array (values.map write)) = values.mapM fun value => read? (write value) := by
  rw [list?, List.mapM_map]
  rfl

theorem legible_array {α : Type} {write : α → Json} {values : List α}
    (each : ∀ value ∈ values, (write value).Legible)
    : (Json.array (values.map write)).Legible := by
  refine .array fun item member => ?_
  obtain ⟨value, inside, rfl⟩ := List.mem_map.mp member
  exact each value inside

/-- A record is legible if its fields are. -/
theorem legible_record {fields : List (String × Json)}
    (each : ∀ field ∈ fields, field.2.Legible)
    : (record fields).Legible := by
  refine .object ?_ ?_
  · intro field member
    obtain ⟨named, _, rfl⟩ := List.mem_map.mp member
    rfl
  · intro field member
    obtain ⟨named, inside, rfl⟩ := List.mem_map.mp member
    exact each named inside

/-- A field of a record whose names are distinct occurs once, by induction on the fields. -/
theorem occurrences_of_mem {fields : List (String × Json)} (distinct : (fields.map Prod.fst).Nodup)
    {field : String × Json} (member : field ∈ fields)
    : occurrences (fields.map fun field => (some field.1, field.2)) field.1 = [field.2] := by
  induction fields with
  | nil => cases member
  | cons first rest ih =>
      obtain ⟨absent, later⟩ := List.nodup_cons.mp distinct
      unfold occurrences at ih ⊢
      rw [List.map_cons, List.filterMap_cons]
      rcases List.mem_cons.mp member with rfl | inside
      · have none : ∀ other ∈ rest, other.1 ≠ field.1 :=
          fun other otherMember same => absent (same ▸ List.mem_map_of_mem otherMember)
        simpa [List.filterMap_map, List.filterMap_eq_nil_iff] using none
      · have other : first.1 ≠ field.1 := fun same => absent (same ▸ List.mem_map_of_mem inside)
        simpa [other] using ih later inside

/-- The fields of a record whose names are distinct are all found. -/
theorem record?_record {fields : List (String × Json)} (distinct : (fields.map Prod.fst).Nodup)
    : (record fields).record? (fields.map Prod.fst)
      = some (fields.map fun field => some field.2) := by
  have readable : ((fields.map fun field => (some field.1, field.2)).all fun field =>
      field.1.isSome) = true := by
    simp
  simp only [record?, record, fields?, readable, if_true, List.mapM_map]
  refine mapM_eq_some fun field member => ?_
  simp only [Function.comp_apply, occurrence?, occurrences_of_mem distinct member]

theorem record?_pair {first second : String} (different : first ≠ second) (one two : Json)
    : (record [(first, one), (second, two)]).record? [first, second]
      = some [some one, some two] :=
  record?_record (by simpa using different)

end Json

-----------------------------------------------------------------------------------------
-- Lawful forms
-----------------------------------------------------------------------------------------

/-- (LawfulForm α) means that every value of a type is legible as JSON and read back from it. -/
class LawfulForm (α : Type) [JsonForm α] : Prop where
  legible : ∀ value : α, (toJson value).Legible
  ofJson?_toJson : ∀ value : α, ofJson? (toJson value) = some value

export LawfulForm (legible ofJson?_toJson)

attribute [simp] LawfulForm.ofJson?_toJson

@[simp] theorem required?_toJson {α : Type} [JsonForm α] [LawfulForm α] (value : α)
    : required? (some (toJson value)) = some value :=
  ofJson?_toJson value

instance : LawfulForm Bool := ⟨.bool, fun _ => rfl⟩

instance : LawfulForm String := ⟨.text, fun _ => rfl⟩

instance : LawfulForm UInt16 where
  legible n := legible_ofNat n.toNat
  ofJson?_toJson n := by
    change ((ofNat n.toNat).toNatBelow? 0x10000).map UInt16.ofNat = some n
    rw [toNatBelow?_ofNat n.toNat_lt, Option.map_some, UInt16.ofNat_toNat]

instance : LawfulForm UInt32 where
  legible n := legible_ofNat n.toNat
  ofJson?_toJson n := by
    change ((ofNat n.toNat).toNatBelow? 0x100000000).map UInt32.ofNat = some n
    rw [toNatBelow?_ofNat n.toNat_lt, Option.map_some, UInt32.ofNat_toNat]

instance {kind : IdentKind} : LawfulForm (Ident kind) where
  legible id := legible id.number
  ofJson?_toJson id := by
    change (ofJson? (toJson id.number)).map Ident.mk = some id
    rw [ofJson?_toJson, Option.map_some]

instance {α : Type} [JsonForm α] [LawfulForm α] : LawfulForm (List α) where
  legible values := legible_array fun value _ => legible value
  ofJson?_toJson values := by
    change list? ofJson? (.array (values.map toJson)) = some values
    rw [list?_array, mapM_eq_some fun value _ => ofJson?_toJson value, List.map_id']

/-- A vocabulary has a lawful form if its words tell its values apart. -/
theorem Tagged.lawfulForm {α : Type} [Tagged α]
    (apart : ∀ value : α, ofTag? (tag value) = some value)
    : @LawfulForm α (Tagged.form α) := by
  refine @LawfulForm.mk α (Tagged.form α) (fun value => .text _) apart

instance : LawfulForm Operator := Tagged.lawfulForm fun op => by cases op <;> rfl
instance : LawfulForm Elementary := Tagged.lawfulForm fun fn => by cases fn <;> rfl
instance : LawfulForm Access := Tagged.lawfulForm fun access => by cases access <;> rfl
instance : LawfulForm Role := Tagged.lawfulForm fun role => by cases role <;> rfl
instance : LawfulForm View := Tagged.lawfulForm fun view => by cases view <;> rfl


-----------------------------------------------------------------------------------------
-- Targets, keys, flags and signatures
-----------------------------------------------------------------------------------------

theorem variant?_variant (word : String) (content : Json)
    : (variant word content).variant? = some (word, some content) :=
  rfl

theorem legible_variant {word : String} {content : Json} (legible : content.Legible)
    : (variant word content).Legible :=
  legible_record (by simpa using legible)

instance : LawfulForm Target where
  legible target := by
    cases target with
    | var id => exact legible_variant (legible id)
    | operator id => exact legible_variant (legible id)
    | draw id => exact legible_variant (legible id)
    | eventNode node slot =>
        exact legible_variant (legible_record (by simp [legible node, legible slot]))
    | synthetic number => exact legible_variant (legible number)
  ofJson?_toJson target := by
    unfold instJsonFormTarget
    cases target with
    | eventNode node slot =>
        simp [Target.toJson, variant?_variant, Target.ofContent?, record?_pair]
    | _ => simp [Target.toJson, variant?_variant, Target.ofContent?]

instance : LawfulForm Key where
  legible key := legible_record (by simp [legible key.target, legible key.view])
  ofJson?_toJson key := by
    unfold instJsonFormKey
    simp [record?_pair]

instance : LawfulForm VariableFlags where
  legible flags := by
    apply legible_record
    simp [legible flags.input, legible flags.output, legible flags.once, legible flags.integrated]
  ofJson?_toJson flags := by
    have fields : (record [("input", toJson flags.input), ("output", toJson flags.output),
          ("once", toJson flags.once), ("integrated", toJson flags.integrated)]).record?
        ["input", "output", "once", "integrated"]
        = some [some (toJson flags.input), some (toJson flags.output), some (toJson flags.once),
          some (toJson flags.integrated)] :=
      record?_record (by simp)
    unfold instJsonFormVariableFlags
    simp [fields]

end StepPlan
