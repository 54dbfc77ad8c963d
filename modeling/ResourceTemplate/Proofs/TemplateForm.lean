import ResourceTemplate.Proofs.JsonValues
import ResourceTemplate.Proofs.TemplateRules
import ResourceTemplate.Template.JsonPrinter
import ResourceTemplate.Template.JsonReader

/-! The JSON form of a template holds all there is to it: what is written of a field is what is
looked for when the field is read, and no key is written twice. -/
namespace ResourceTemplate

def Field.toJson (field : Field) : Json :=
  .object (("name", .string field.name) :: ("type", .string field.tag.name) ::
    field.parametersToJson)

theorem Field.listToJson_eq (fields : List Field) :
    Field.listToJson fields = fields.map Field.toJson := by
  induction fields with
  | nil => rfl
  | cons field fields ih => rw [Field.listToJson, ih, List.map_cons, Field.toJson]

namespace JsonForm

section Values

theorem mapM_of_printed {α : Type} {print : α → Json} {read : Json → Result α} {all : List α}
    (each : ∀ a ∈ all, read (print a) = .ok a) : (all.map print).mapM read = .ok all := by
  induction all with
  | nil => rfl
  | cons a all ih =>
    obtain ⟨first, others⟩ := List.forall_mem_cons.mp each
    rw [List.map_cons, List.mapM_cons, first, ok_bind, ih others, ok_bind]
    rfl

theorem int64_bounds (n : Int64) :
    Numeral.minSigned ≤ n.toInt ∧ n.toInt ≤ Numeral.maxSigned := by
  have high := n.toInt_lt
  refine ⟨n.le_toInt, ?_⟩
  simp only [Numeral.maxSigned]
  omega

theorem int64_printed (n : Int64) : int64 (.integer n.toInt) = .ok n := by
  obtain ⟨low, high⟩ := int64_bounds n
  unfold int64
  simp only [Json.integer?, expected]
  rw [pure_bind, if_pos ⟨low, high⟩, Int64.ofInt_toInt]
  rfl

theorem enumEntry_printed (entry : EnumEntry) : enumEntry entry.toJson = .ok entry := by
  have value : required "value" [("value", .integer entry.value.toInt), ("name", .string entry.name)] =
      .ok (.integer entry.value.toInt) := rfl
  have name : required "name" [("value", .integer entry.value.toInt), ("name", .string entry.name)] =
      .ok (.string entry.name) := rfl
  rw [EnumEntry.toJson, enumEntry, value, ok_bind, int64_printed, ok_bind, name]
  rfl

theorem intType_printed (type : IntType) : intType (.string type.name) = .ok type := by
  obtain ⟨signed, width⟩ := type
  cases signed <;> cases width <;> rfl

theorem repetition_printed (given : Repetition) : repetition given.toJson = .ok given := by
  cases given with
  | fixed count => rfl
  | counted countField zeroBased => rfl
  | untilEnd => rfl
  | zeroTerminated => rfl

theorem condition_printed (given : Condition) : condition given.toJson = .ok (some given) := by
  cases given with
  | equals field value =>
    have tag : tagged "when" [("equals", ["field", "value"]), ("non_zero", ["field"])]
        (Condition.equals field value).toJson =
          .ok ("equals", [some (.string field), some (.integer value.toInt)]) := rfl
    rw [condition, tag, ok_bind]
    · simp only [JsonForm.string, Json.string?, expected, pure_bind, int64_printed, ok_bind]
      rfl
    · exact nofun
  | nonZero field => rfl

theorem enumEntries_printed (entries : List EnumEntry) :
    enumEntries (.array (entries.map EnumEntry.toJson)) = .ok entries :=
  mapM_of_printed fun entry _ => enumEntry_printed entry

theorem type_printed (field : Field) :
    choice Tag.name types (.string field.tag.name) = .ok field.tag := by
  cases field with
  | scalar name type =>
    cases type with
    | int type =>
      obtain ⟨signed, width⟩ := type
      cases signed <;> cases width <;> rfl
    | _ => rfl
  | composite => rfl
  | group => rfl

end Values

section Entries

variable {keys : List String} {parameters : Parameters} {key : String} {value : Json}
  {entries : List (String × Json)}

theorem required_head (others : ∀ entry ∈ entries, entry.1 ≠ key) :
    required key ((key, value) :: entries) = .ok value := by
  have absent : entries.filter (·.1 == key) = [] := by
    rw [List.filter_eq_nil_iff]
    intro entry member
    simpa using others entry member
  simp only [required, optional, List.filter_cons, beq_self_eq_true, if_true, absent]
  rfl

theorem required_tail {other : String} (apart : other ≠ key) {first : Json} :
    required key ((other, first) :: entries) = required key entries := by
  have passed : (((other, first) :: entries).filter (·.1 == key)) = entries.filter (·.1 == key) :=
    List.filter_cons_of_neg (by simpa using apart)
  simp only [required, optional, passed]

theorem addAll_other (other : key ∉ keys) :
    addAll keys parameters ((key, value) :: entries) = addAll keys parameters entries := by
  rw [addAll, if_pos (by simp [other])]

theorem addAll_plain {longer : Parameters} (listed : key ∈ keys) (plain : key ≠ "fields")
    (added : parameters.add key value = .ok longer) :
    addAll keys parameters ((key, value) :: entries) = addAll keys longer entries := by
  rw [addAll, if_neg (by simp [listed]), if_neg plain, added, ok_bind]

theorem addAll_fields {fields : Template} (listed : "fields" ∈ keys)
    (first : parameters.fields = none) (read : template value = .ok fields) :
    addAll keys parameters (("fields", value) :: entries) =
      addAll keys { parameters with fields := some fields } entries := by
  rw [addAll, if_neg (by simp [listed]), if_pos rfl, first, read]
  rfl

end Entries

/-- The keys of parameters are none of those that all fields have. -/
theorem parameters_apart (field : Field) :
    ∀ entry ∈ field.parametersToJson, entry.1 ≠ "name" ∧ entry.1 ≠ "type" := by
  cases field with
  | scalar name type => cases type <;> simp [Field.parametersToJson, ScalarType.parametersToJson]
  | composite => simp [Field.parametersToJson]
  | group name fields repetition condition =>
    cases condition <;> simp [Field.parametersToJson]

theorem parameterKeys_apart (tag : Tag) :
    "name" ∉ parameterKeys tag ∧ "type" ∉ parameterKeys tag := by
  cases tag with
  | scalar tag => cases tag <;> simp [parameterKeys]
  | branch tag => cases tag <;> simp [parameterKeys]

/-- A field is read from its description when its parameters are. -/
theorem field_printed {given : Field} (parameters : Parameters)
    (added : addAll (parameterKeys given.tag) .none given.parametersToJson = .ok parameters)
    (made : parameters.field given.name given.tag = .ok given) : field given.toJson = .ok given := by
  have apart := parameters_apart given
  have keys := parameterKeys_apart given.tag
  have name : required "name" (("name", .string given.name) :: ("type", .string given.tag.name) ::
      given.parametersToJson) = .ok (.string given.name) := by
    apply required_head
    rw [List.forall_mem_cons]
    exact ⟨by simp, fun entry member => (apart entry member).1⟩
  have type : required "type" (("name", .string given.name) :: ("type", .string given.tag.name) ::
      given.parametersToJson) = .ok (.string given.tag.name) := by
    rw [required_tail (by simp)]
    exact required_head fun entry member => (apart entry member).2
  rw [Field.toJson, field, name, ok_bind]
  simp only [JsonForm.string, Json.string?, expected, pure_bind, type, ok_bind, type_printed,
    addAll_other keys.1, addAll_other keys.2, added, made]

theorem scalar_printed (name : String) (type : ScalarType) :
    field (Field.scalar name type).toJson = .ok (.scalar name type) := by
  cases type with
  | int type => exact field_printed _ rfl rfl
  | fixedString length => exact field_printed _ rfl rfl
  | pascalString => exact field_printed _ rfl rfl
  | boolean wide => exact field_printed _ rfl rfl
  | enumeration base names =>
    have first : Parameters.none.add "base" (.string base.name) =
        .ok { Parameters.none with base := some base } := by
      simp only [Parameters.add, Parameters.none, once, intType_printed]
      rfl
    have second : { Parameters.none with base := some base }.add "entries"
        (.array (names.entries.map EnumEntry.toJson)) =
          .ok { Parameters.none with base := some base, entries := some names.entries } := by
      simp only [Parameters.add, Parameters.none, once, enumEntries_printed]
      rfl
    apply field_printed { Parameters.none with
      base := some base, entries := some names.entries, bitmask := some names.bitmask }
    · simp only [Field.parametersToJson, ScalarType.parametersToJson]
      rw [addAll_plain (by simp [parameterKeys, Field.tag, ScalarType.tag]) (by decide) first,
        addAll_plain (by simp [parameterKeys, Field.tag, ScalarType.tag]) (by decide) second]
      rfl
    · rfl

theorem template_printed {fields : List Field} (checked : Template.check fields = .ok ())
    (listed : fieldList (Field.listToJson fields) = .ok fields) :
    template (.array (Field.listToJson fields)) = .ok fields := by
  rw [template, listed, ok_bind, JsonForm.checked, checked]
  rfl

theorem composite_printed (name : String) {fields : List Field}
    (read : template (.array (Field.listToJson fields)) = .ok fields) :
    field (Field.composite name fields).toJson = .ok (.composite name fields) := by
  apply field_printed { Parameters.none with fields := some fields }
  · rw [Field.parametersToJson, addAll_fields (by simp [parameterKeys, Field.tag]) rfl read]
    rfl
  · rfl

theorem group_printed (name : String) {fields : List Field} (repetition : Repetition)
    (condition : Option Condition) (read : template (.array (Field.listToJson fields)) = .ok fields) :
    field (Field.group name fields repetition condition).toJson =
      .ok (.group name fields repetition condition) := by
  have second : { Parameters.none with fields := some fields }.add "repeat" repetition.toJson =
      .ok { Parameters.none with fields := some fields, repetition := some repetition } := by
    simp only [Parameters.add, Parameters.none, once, repetition_printed]
    rfl
  cases condition with
  | none =>
    apply field_printed
      { Parameters.none with fields := some fields, repetition := some repetition }
    · simp only [Field.parametersToJson, List.cons_append, List.nil_append]
      rw [addAll_fields (by simp [parameterKeys, Field.tag]) rfl read,
        addAll_plain (by simp [parameterKeys, Field.tag]) (by decide) second]
      rfl
    · rfl
  | some condition =>
    have third : { Parameters.none with fields := some fields, repetition := some repetition }.add
        "condition" condition.toJson =
          .ok { Parameters.none with
            fields := some fields, repetition := some repetition,
            condition := some (some condition) } := by
      simp only [Parameters.add, Parameters.none, once, condition_printed]
      rfl
    apply field_printed { Parameters.none with
      fields := some fields, repetition := some repetition, condition := some (some condition) }
    · simp only [Field.parametersToJson, List.cons_append, List.nil_append]
      rw [addAll_fields (by simp [parameterKeys, Field.tag]) rfl read,
        addAll_plain (by simp [parameterKeys, Field.tag]) (by decide) second]
      exact addAll_plain (by simp [parameterKeys, Field.tag]) (by decide) third
    · rfl

mutual
theorem field_toJson : (given : Field) → given.Nested (·.check = .ok ()) →
    field given.toJson = .ok given
  | .scalar name type, _ => scalar_printed name type
  | .composite name fields, ⟨checked, nested⟩ =>
    composite_printed name (template_printed checked (fieldList_toJson fields nested))
  | .group name fields repetition condition, ⟨checked, nested⟩ =>
    group_printed name repetition condition
      (template_printed checked (fieldList_toJson fields nested))

theorem fieldList_toJson : (fields : List Field) → Field.AllNested (·.check = .ok ()) fields →
    fieldList (Field.listToJson fields) = .ok fields
  | [], _ => rfl
  | given :: fields, ⟨first, others⟩ => by
    have head := field_toJson given first
    rw [Field.toJson] at head
    rw [Field.listToJson, fieldList, head, ok_bind, fieldList_toJson fields others]
    rfl
end

end JsonForm
end ResourceTemplate
