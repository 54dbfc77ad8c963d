import ResourceTemplate.Template.Size
import ResourceTemplate.Text.Numeral

/-! The rules that every field list of a template keeps. `check` reports the first breach in
field order; `WellFormed` asks for no breach at any level. -/
namespace ResourceTemplate

inductive TemplateError where
  | emptyName
  | reservedName (name : String)
  | numericName (name : String)
  | tooLarge (name : String)
  | duplicate (name : String)
  | unknownReference (group reference : String)
  | notAnInteger (group reference : String)
  | sharedCount (reference : String)
  deriving DecidableEq, Repr

def TemplateError.message : TemplateError → String
  | .emptyName => "field names must not be empty"
  | .reservedName name =>
    s!"field name `{name}` contains one of the reserved characters `.[]`"
  | .numericName name => s!"field name `{name}` would be read as an item index"
  | .tooLarge name => s!"field `{name}` makes the template too large"
  | .duplicate name => s!"field `{name}` is declared more than once in the same record"
  | .unknownReference group reference =>
    s!"group `{group}` refers to `{reference}`, which is not an earlier field of the same record"
  | .notAnInteger group reference =>
    s!"group `{group}` refers to `{reference}`, which is not an integer field"
  | .sharedCount reference =>
    s!"count field `{reference}` is shared by more than one group"

namespace Template

def reserved : List Char := ['.', '[', ']']

def checkName (name : String) : Except TemplateError Unit := do
  if name.isEmpty then throw .emptyName
  if name.toList.any reserved.contains then throw (.reservedName name)
  if (Numeral.word? name.toList).isSome then throw (.numericName name)

/-- A group may refer to an earlier field only, and only to a suitable one. -/
def checkReference (earlier : List Field) (suitable : Field → Bool) (group reference : String) :
    Except TemplateError Unit :=
  match Template.find? earlier reference with
  | none => throw (.unknownReference group reference)
  | some field => if suitable field then return else throw (.notAnInteger group reference)

/-- A count field serves one group. -/
def checkCount (earlier : List Field) (field : Field) : Except TemplateError Unit := do
  if let some reference := field.countField? then
    checkReference earlier (·.intType?.isSome) field.name reference
    if (groupCountedBy? earlier reference).isSome then throw (.sharedCount reference)

def checkCondition (earlier : List Field) (field : Field) : Except TemplateError Unit := do
  if let some condition := field.condition? then
    checkReference earlier Field.isTestable field.name condition.field

/-- The rules for one field, given the fields before it. -/
def checkField (earlier : List Field) (field : Field) : Except TemplateError Unit := do
  checkName field.name
  if maxFootprint < Field.footprints earlier + field.footprint then
    throw (.tooLarge field.name)
  checkCount earlier field
  checkCondition earlier field
  if (Template.find? earlier field.name).isSome then throw (.duplicate field.name)

def checkFrom : (earlier fields : List Field) → Except TemplateError Unit
  | _, [] => return
  | earlier, field :: fields => do
    checkField earlier field
    checkFrom (earlier ++ [field]) fields

/-- The rules for one field list; the lists nested in it are not looked into. -/
def check (template : Template) : Except TemplateError Unit := checkFrom [] template

end Template

instance (template : Template) : Decidable (template.check = .ok ()) :=
  match template.check with
  | .ok () => isTrue rfl
  | .error _ => isFalse nofun

mutual
def Field.Nested (rule : Template → Prop) : Field → Prop
  | .scalar .. => True
  | .composite _ fields => rule fields ∧ AllNested rule fields
  | .group _ fields _ _ => rule fields ∧ AllNested rule fields

def Field.AllNested (rule : Template → Prop) : List Field → Prop
  | [] => True
  | field :: fields => field.Nested rule ∧ AllNested rule fields
end

/-- A rule for field lists, kept at every level. -/
def Template.Everywhere (rule : Template → Prop) (template : Template) : Prop :=
  rule template ∧ Field.AllNested rule template

/-- The rules hold at every level. -/
abbrev Template.WellFormed : Template → Prop := Template.Everywhere (·.check = .ok ())

section Decidable

variable (rule : Template → Prop) [DecidablePred rule]

mutual
def Field.decNested : (field : Field) → Decidable (field.Nested rule)
  | .scalar .. => isTrue trivial
  | .composite _ fields | .group _ fields _ _ =>
    have := Field.decAllNested fields
    inferInstanceAs (Decidable (rule fields ∧ Field.AllNested rule fields))

def Field.decAllNested : (fields : List Field) → Decidable (Field.AllNested rule fields)
  | [] => isTrue trivial
  | field :: fields =>
    have := Field.decNested field
    have := Field.decAllNested fields
    inferInstanceAs (Decidable (field.Nested rule ∧ Field.AllNested rule fields))
end

instance (template : Template) : Decidable (template.Everywhere rule) :=
  have := Field.decAllNested rule template
  inferInstanceAs (Decidable (rule template ∧ Field.AllNested rule template))

end Decidable

end ResourceTemplate
