import ResourceTemplate.Tag

/-! Templates describe the bytes of a resource: an ordered list of named fields, where
composites and groups hold field lists of their own. -/
namespace ResourceTemplate

structure EnumEntry where
  value : Int64
  name : String
  deriving DecidableEq, Repr

structure NameTable where
  entries : List EnumEntry
  bitmask : Bool
  deriving DecidableEq, Repr

inductive ScalarType where
  | int (type : IntType)
  | enumeration (base : IntType) (names : NameTable)
  /-- Exactly this many bytes, kept verbatim. -/
  | fixedString (length : Nat)
  /-- One byte of length, then that many bytes. -/
  | pascalString
  /-- A byte, or a word when wide, of which zero alone is false. -/
  | boolean (wide : Bool)
  deriving DecidableEq, Repr

inductive Repetition where
  | fixed (count : Nat)
  /-- As often as an earlier integer field says; a zero-based count is one less. -/
  | counted (countField : String) (zeroBased : Bool)
  | untilEnd
  /-- Until a zero byte stands where the next item would start. -/
  | zeroTerminated
  deriving DecidableEq, Repr

/-- A test on an earlier field, without which a group is absent. -/
inductive Condition where
  | equals (field : String) (value : Int64)
  | nonZero (field : String)
  deriving DecidableEq, Repr

def Condition.field : Condition → String
  | .equals field _ => field
  | .nonZero field => field

def Condition.holds : Condition → Int → Bool
  | .equals _ value, n => n == value.toInt
  | .nonZero _, n => n != 0

inductive Field where
  | scalar (name : String) (type : ScalarType)
  | composite (name : String) (fields : List Field)
  | group (name : String) (fields : List Field) (repetition : Repetition)
      (condition : Option Condition)
  deriving Repr, Inhabited

/-- The fields of a record, of a composite or of one group item. -/
abbrev Template := List Field

def ScalarType.tag : ScalarType → ScalarTag
  | .int type => .int type
  | .enumeration .. => .enumeration
  | .fixedString _ => .fixedString
  | .pascalString => .pascalString
  | .boolean _ => .boolean

def ScalarType.intType? : ScalarType → Option IntType
  | .int type => some type
  | .enumeration base _ => some base
  | _ => none

namespace Field

def name : Field → String
  | scalar name _ => name
  | composite name _ => name
  | group name .. => name

def tag : Field → Tag
  | scalar _ type => .scalar type.tag
  | composite .. => .branch .composite
  | group .. => .branch .group

def intType? : Field → Option IntType
  | scalar _ type => type.intType?
  | _ => none

/-- Conditions may test integers, enumerations and booleans. -/
def isTestable : Field → Bool
  | scalar _ (.boolean _) => true
  | field => field.intType?.isSome

def countField? : Field → Option String
  | group _ _ (.counted countField _) _ => some countField
  | _ => none

def condition? : Field → Option Condition
  | group _ _ _ condition => condition
  | _ => none

end Field

mutual
def Field.decEq : (a b : Field) → Decidable (a = b)
  | .scalar name type, .scalar name' type' =>
    decidable_of_iff (name = name' ∧ type = type') (by simp)
  | .composite name fields, .composite name' fields' =>
    have := Field.decEqList fields fields'
    decidable_of_iff (name = name' ∧ fields = fields') (by simp)
  | .group name fields repetition condition, .group name' fields' repetition' condition' =>
    have := Field.decEqList fields fields'
    decidable_of_iff
      (name = name' ∧ fields = fields' ∧ repetition = repetition' ∧ condition = condition')
      (by simp)
  | .scalar .., .composite .. => isFalse nofun
  | .scalar .., .group .. => isFalse nofun
  | .composite .., .scalar .. => isFalse nofun
  | .composite .., .group .. => isFalse nofun
  | .group .., .scalar .. => isFalse nofun
  | .group .., .composite .. => isFalse nofun

def Field.decEqList : (a b : List Field) → Decidable (a = b)
  | [], [] => isTrue rfl
  | a :: as, b :: bs =>
    have := Field.decEq a b
    have := Field.decEqList as bs
    decidable_of_iff (a = b ∧ as = bs) (by simp)
  | [], _ :: _ => isFalse nofun
  | _ :: _, [] => isFalse nofun
end

instance : DecidableEq Field := Field.decEq

namespace Template

def find? (template : Template) (name : String) : Option Field :=
  List.find? (·.name == name) template

def position? (template : Template) (name : String) : Option Nat :=
  template.findIdx? (·.name == name)

/-- The group whose count is stored in the field of this name. -/
def groupCountedBy? (template : Template) (name : String) : Option Field :=
  List.find? (·.countField? == some name) template

/-- Top, left, bottom and right, as signed words. -/
def rect : Template :=
  ["top", "left", "bottom", "right"].map fun name => .scalar name (.int ⟨true, .word⟩)

/-- A point on the screen, the vertical coordinate first. -/
def point : Template :=
  ["v", "h"].map fun name => .scalar name (.int ⟨true, .word⟩)

end Template
end ResourceTemplate
