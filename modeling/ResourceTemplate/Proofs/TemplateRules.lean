import ResourceTemplate.Template.WellFormed

/-! Rules that a template may keep beyond those that are checked: that no condition tests a
count, that items take up bytes, and that a group which takes all bytes comes last. -/
namespace ResourceTemplate

namespace Field

def TestsCount (fields : List Field) (field : Field) : Prop :=
  ∃ condition ∈ field.condition?, condition.field ∈ fields.filterMap Field.countField?

/-- The items of a group take up at least one byte. -/
def ItemsTakeBytes : Field → Prop
  | .group _ fields _ _ => 0 < minWidths fields
  | _ => True

/-- The field is a group that takes all bytes that are left. -/
def TakesRest : Field → Prop
  | .group _ _ .untilEnd _ => True
  | _ => False

instance (fields : List Field) (field : Field) : Decidable (field.TestsCount fields) :=
  inferInstanceAs (Decidable (∃ condition ∈ field.condition?, _))

instance : (field : Field) → Decidable field.ItemsTakeBytes
  | .group _ fields _ _ => inferInstanceAs (Decidable (0 < minWidths fields))
  | .scalar .. | .composite .. => isTrue trivial

instance : (field : Field) → Decidable field.TakesRest
  | .group _ _ .untilEnd _ => isTrue trivial
  | .group _ _ (.fixed _) _ | .group _ _ (.counted ..) _ | .group _ _ .zeroTerminated _ => isFalse nofun
  | .scalar .. | .composite .. => isFalse nofun

end Field

namespace Template

def CountsUntested (template : Template) : Prop :=
  ∀ field ∈ template, ¬ field.TestsCount template

def ItemsTakeBytes (template : Template) : Prop :=
  ∀ field ∈ template, field.ItemsTakeBytes

def LeavesRest (template : Template) : Prop :=
  ∀ field ∈ template, ¬ field.TakesRest

/-- Only the last field of the record takes all bytes that are left, and always does so. -/
structure TakesRestLast (template : Template) : Prop where
  front : LeavesRest template.dropLast
  last : ∀ field ∈ template.getLast?, field.TakesRest → field.condition? = none
  nested : Field.AllNested LeavesRest template

instance : DecidablePred CountsUntested := fun template =>
  inferInstanceAs (Decidable (∀ field ∈ template, _))

instance : DecidablePred ItemsTakeBytes := fun template =>
  inferInstanceAs (Decidable (∀ field ∈ template, _))

instance : DecidablePred LeavesRest := fun template =>
  inferInstanceAs (Decidable (∀ field ∈ template, _))

instance (template : Template) : Decidable template.TakesRestLast :=
  have := Field.decAllNested LeavesRest template
  decidable_of_iff
    (LeavesRest template.dropLast ∧
      (∀ field ∈ template.getLast?, field.TakesRest → field.condition? = none) ∧
      Field.AllNested LeavesRest template)
    ⟨fun ⟨front, last, nested⟩ => ⟨front, last, nested⟩,
      fun ⟨front, last, nested⟩ => ⟨front, last, nested⟩⟩

/-- A field of every kind and a group of every repetition. -/
def sample : Template :=
  [.scalar "kind" (.enumeration ⟨false, .byte⟩ ⟨[⟨1, "point"⟩, ⟨2, "path"⟩], false⟩),
   .scalar "count" (.int ⟨true, .byte⟩),
   .group "points" [.scalar "v" (.int ⟨true, .word⟩), .scalar "h" (.int ⟨true, .word⟩)]
     (.counted "count" true) (some (.nonZero "kind")),
   .composite "pen" [.scalar "wide" (.boolean true), .scalar "mode" (.fixedString 2)],
   .group "bounds" [.scalar "edge" (.int ⟨false, .byte⟩)] (.fixed 2) (some (.equals "kind" 2)),
   .group "names" [.scalar "text" .pascalString] .zeroTerminated none,
   .group "rest" [.scalar "byte" (.int ⟨false, .byte⟩)] .untilEnd none]

/-- A list of items with a count, and a group that is present when there are any. -/
def counting : Template :=
  [.scalar "count" (.int ⟨false, .byte⟩),
   .group "list" [.scalar "x" (.int ⟨false, .byte⟩)] (.counted "count" false) none,
   .group "extra" [.scalar "y" (.int ⟨false, .byte⟩)] (.fixed 1) (some (.nonZero "count"))]

theorem sample_wellFormed : sample.WellFormed := by decide +kernel

end Template

section Nested

variable {rule weaker : Template → Prop}

mutual
theorem Field.Nested.imp (implies : ∀ fields, rule fields → weaker fields) :
    (field : Field) → field.Nested rule → field.Nested weaker
  | .scalar .., _ => trivial
  | .composite _ fields, ⟨kept, nested⟩ | .group _ fields _ _, ⟨kept, nested⟩ =>
    ⟨implies fields kept, Field.AllNested.imp implies fields nested⟩

theorem Field.AllNested.imp (implies : ∀ fields, rule fields → weaker fields) :
    (fields : List Field) → Field.AllNested rule fields → Field.AllNested weaker fields
  | [], _ => trivial
  | field :: fields, ⟨first, follow⟩ =>
    ⟨Field.Nested.imp implies field first, Field.AllNested.imp implies fields follow⟩
end

mutual
theorem Field.Nested.and {other : Template → Prop} :
    (field : Field) → field.Nested rule → field.Nested other →
      field.Nested fun fields => rule fields ∧ other fields
  | .scalar .., _, _ => trivial
  | .composite _ fields, ⟨first, nested⟩, ⟨second, others⟩
  | .group _ fields _ _, ⟨first, nested⟩, ⟨second, others⟩ =>
    ⟨⟨first, second⟩, Field.AllNested.and fields nested others⟩

theorem Field.AllNested.and {other : Template → Prop} :
    (fields : List Field) → Field.AllNested rule fields → Field.AllNested other fields →
      Field.AllNested (fun fields => rule fields ∧ other fields) fields
  | [], _, _ => trivial
  | field :: fields, ⟨first, follow⟩, ⟨second, others⟩ =>
    ⟨Field.Nested.and field first second, Field.AllNested.and fields follow others⟩
end

theorem Field.AllNested.member {fields : List Field} (nested : Field.AllNested rule fields)
    {field : Field} (member : field ∈ fields) : field.Nested rule := by
  induction fields with
  | nil => nomatch member
  | cons first fields ih =>
    obtain ⟨head, tail⟩ := nested
    rcases List.mem_cons.mp member with rfl | member
    · exact head
    · exact ih tail member

end Nested
end ResourceTemplate
