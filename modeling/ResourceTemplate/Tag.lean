import ResourceTemplate.IntType

/-! Tags tell the kinds of fields apart without their parameters. -/
namespace ResourceTemplate

inductive ScalarTag where
  | int (type : IntType)
  | fixedString
  | pascalString
  | boolean
  | enumeration
  deriving DecidableEq, Repr

inductive BranchTag where
  | composite
  | group
  /-- One repetition of a group. -/
  | item
  deriving DecidableEq, Repr

inductive Tag where
  | scalar (tag : ScalarTag)
  | branch (tag : BranchTag)
  deriving DecidableEq, Repr

def ScalarTag.name : ScalarTag → String
  | .int type => type.name
  | .fixedString => "fixed_string"
  | .pascalString => "pstring"
  | .boolean => "boolean"
  | .enumeration => "enum"

def BranchTag.name : BranchTag → String
  | .composite => "composite"
  | .group => "group"
  | .item => "item"

namespace Tag

def name : Tag → String
  | .scalar tag => tag.name
  | .branch tag => tag.name

/-- The name in a record's JSON form, where two names are set apart by underscores. -/
def jsonName : Tag → String
  | .scalar (.int type) =>
    if type.signed then type.name else "u_int" ++ toString type.bits
  | .scalar .pascalString => "p_string"
  | tag => tag.name

def isScalar : Tag → Bool
  | .scalar _ => true
  | .branch _ => false

end Tag
end ResourceTemplate
