import ResourceTemplate.Record.Decode
import ResourceTemplate.Record.Layout
import ResourceTemplate.Template.WellFormed

/-! Templates without the names that enumerations have for their values. An enumeration is an integer
with labels: it is stored, counted and referred to as its base is, so that the rules for templates
cannot tell the two apart. -/
namespace ResourceTemplate

/-- An enumeration is taken as the integer that it is stored as. -/
def ScalarType.unlabelled : ScalarType → ScalarType
  | .enumeration base _ => .int base
  | type => type

mutual
def Field.unlabelled : Field → Field
  | .scalar name type => .scalar name type.unlabelled
  | .composite name fields => .composite name (unlabelledAll fields)
  | .group name fields repetition condition =>
    .group name (unlabelledAll fields) repetition condition

def Field.unlabelledAll : List Field → List Field
  | [] => []
  | field :: fields => field.unlabelled :: unlabelledAll fields
end

/-- The template with integers for its enumerations, at every level. -/
def Template.unlabelled (template : Template) : Template := Field.unlabelledAll template

namespace ScalarType

variable (type : ScalarType)

@[simp] theorem intType?_unlabelled : type.unlabelled.intType? = type.intType? := by
  cases type <;> rfl

@[simp] theorem minWidth_unlabelled : type.unlabelled.minWidth = type.minWidth := by
  cases type <;> rfl

@[simp] theorem encodedLength_unlabelled (value : Value) :
    type.unlabelled.encodedLength value = type.encodedLength value := by
  cases type <;> rfl

@[simp] theorem defaultValue_unlabelled : type.unlabelled.defaultValue = type.defaultValue := by
  cases type <;> rfl

@[simp] theorem label?_unlabelled (value : Value) : type.unlabelled.label? value = none := by
  cases type <;> rfl

theorem read_unlabelled (path : Path) (input : Input) :
    type.unlabelled.read path input = type.read path input := by
  cases type <;> rfl

/-- No other type is taken for another one. -/
theorem tag_unlabelled : type.unlabelled.tag = type.tag ∨
    type.tag = .enumeration ∧ ∃ base, type.unlabelled.tag = .int base := by
  cases type with
  | enumeration base names => exact .inr ⟨rfl, base, rfl⟩
  | int | fixedString | pascalString | boolean => exact .inl rfl

end ScalarType

namespace Field

section Fields

variable (field : Field) (fields : List Field)

theorem unlabelledAll_eq : unlabelledAll fields = fields.map unlabelled := by
  induction fields with
  | nil => rfl
  | cons field fields ih => rw [unlabelledAll, ih, List.map_cons]

@[simp] theorem length_unlabelledAll : (unlabelledAll fields).length = fields.length := by
  simp [unlabelledAll_eq]

theorem unlabelledAll_append (others : List Field) :
    unlabelledAll (fields ++ others) = unlabelledAll fields ++ unlabelledAll others := by
  simp [unlabelledAll_eq]

@[simp] theorem name_unlabelled : field.unlabelled.name = field.name := by
  cases field <;> rfl

@[simp] theorem intType?_unlabelled : field.unlabelled.intType? = field.intType? := by
  cases field with
  | scalar name type => exact type.intType?_unlabelled
  | composite | group => rfl

@[simp] theorem isTestable_unlabelled : field.unlabelled.isTestable = field.isTestable := by
  cases field with
  | scalar name type => cases type <;> rfl
  | composite | group => rfl

@[simp] theorem countField?_unlabelled : field.unlabelled.countField? = field.countField? := by
  cases field with
  | scalar | composite => rfl
  | group name fields repetition => cases repetition <;> rfl

@[simp] theorem condition?_unlabelled : field.unlabelled.condition? = field.condition? := by
  cases field <;> rfl

end Fields

mutual
theorem minWidth_unlabelled : (field : Field) → field.unlabelled.minWidth = field.minWidth
  | .scalar _ type => type.minWidth_unlabelled
  | .composite _ fields => minWidths_unlabelled fields
  | .group _ fields repetition condition => by
    cases condition with
    | some => rfl
    | none =>
      cases repetition with
      | fixed count => exact congrArg (count * ·) (minWidths_unlabelled fields)
      | counted | untilEnd | zeroTerminated => rfl

theorem minWidths_unlabelled :
    (fields : List Field) → minWidths (unlabelledAll fields) = minWidths fields
  | [] => rfl
  | field :: fields => by
    rw [unlabelledAll, minWidths, minWidths, minWidth_unlabelled field, minWidths_unlabelled fields]
end

mutual
theorem footprint_unlabelled : (field : Field) → field.unlabelled.footprint = field.footprint
  | .scalar _ type => congrArg (· + 1) type.minWidth_unlabelled
  | .composite _ fields => congrArg (1 + ·) (footprints_unlabelled fields)
  | .group _ fields repetition _ => by
    cases repetition with
    | fixed count =>
      rw [unlabelled, footprint, footprint, footprints_unlabelled fields]
    | counted | untilEnd | zeroTerminated => rfl

theorem footprints_unlabelled :
    (fields : List Field) → footprints (unlabelledAll fields) = footprints fields
  | [] => rfl
  | field :: fields => by
    rw [unlabelledAll, footprints, footprints, footprint_unlabelled field,
      footprints_unlabelled fields]
end

end Field

namespace Template

variable (fields : List Field) (name : String)

theorem find?_unlabelled :
    find? (Field.unlabelledAll fields) name = (find? fields name).map Field.unlabelled := by
  have same : (·.name == name) ∘ Field.unlabelled = (·.name == name) :=
    funext fun field => by rw [Function.comp_apply, Field.name_unlabelled]
  rw [find?, find?, Field.unlabelledAll_eq, List.find?_map, same]

@[simp] theorem position?_unlabelled :
    position? (Field.unlabelledAll fields) name = position? fields name := by
  simp [position?, Field.unlabelledAll_eq, Function.comp_def]

theorem groupCountedBy?_unlabelled : groupCountedBy? (Field.unlabelledAll fields) name =
    (groupCountedBy? fields name).map Field.unlabelled := by
  have same : (·.countField? == some name) ∘ Field.unlabelled = (·.countField? == some name) :=
    funext fun field => by rw [Function.comp_apply, Field.countField?_unlabelled]
  rw [groupCountedBy?, groupCountedBy?, Field.unlabelledAll_eq, List.find?_map, same]

theorem checkReference_unlabelled {suitable : Field → Bool}
    (same : ∀ field : Field, suitable field.unlabelled = suitable field) (group : String) :
    checkReference (Field.unlabelledAll fields) suitable group name =
      checkReference fields suitable group name := by
  rw [checkReference, checkReference, find?_unlabelled]
  cases find? fields name with
  | none => rfl
  | some field => simp only [Option.map_some, same]

theorem checkField_unlabelled (field : Field) :
    checkField (Field.unlabelledAll fields) field.unlabelled = checkField fields field := by
  have counts (reference : String) :
      checkReference (Field.unlabelledAll fields) (·.intType?.isSome) field.name reference =
        checkReference fields (·.intType?.isSome) field.name reference :=
    checkReference_unlabelled fields reference (by simp) field.name
  have tests (reference : String) :
      checkReference (Field.unlabelledAll fields) Field.isTestable field.name reference =
        checkReference fields Field.isTestable field.name reference :=
    checkReference_unlabelled fields reference Field.isTestable_unlabelled field.name
  simp [checkField, checkCount, checkCondition, Field.footprint_unlabelled,
    Field.footprints_unlabelled, find?_unlabelled, groupCountedBy?_unlabelled, counts, tests]

theorem checkFrom_unlabelled (earlier : List Field) :
    checkFrom (Field.unlabelledAll earlier) (Field.unlabelledAll fields) =
      checkFrom earlier fields := by
  induction fields generalizing earlier with
  | nil => rfl
  | cons field fields ih =>
    have follow := ih (earlier ++ [field])
    rw [Field.unlabelledAll_append] at follow
    rw [Field.unlabelledAll, checkFrom, checkFrom, checkField_unlabelled, ← follow]
    rfl

/-- Labels are nothing to the rules. -/
@[simp] theorem check_unlabelled : check (Field.unlabelledAll fields) = check fields :=
  checkFrom_unlabelled fields []

end Template
end ResourceTemplate
