import ResourceTemplate.Template.Basic

/-! Two sizes of a template: the fewest bytes it can describe, and the footprint of a record
filled with default values. -/
namespace ResourceTemplate

def ScalarType.minWidth : ScalarType → Nat
  | .int type => type.bytes
  | .enumeration base _ => base.bytes
  | .fixedString length => length
  | .pascalString => 1
  | .boolean wide => if wide then 2 else 1

mutual
/-- The fewest bytes that a field can occupy. -/
def Field.minWidth : Field → Nat
  | .scalar _ type => type.minWidth
  | .composite _ fields => minWidths fields
  | .group _ _ _ (some _) => 0
  | .group _ fields (.fixed count) none => count * minWidths fields
  | .group _ _ (.counted ..) none => 0
  | .group _ _ .untilEnd none => 0
  | .group _ _ .zeroTerminated none => 1

def Field.minWidths : List Field → Nat
  | [] => 0
  | field :: fields => field.minWidth + minWidths fields
end

mutual
/-- Bytes plus nodes of a field filled with default values. -/
def Field.footprint : Field → Nat
  | .scalar _ type => type.minWidth + 1
  | .composite _ fields => 1 + footprints fields
  | .group _ fields (.fixed count) _ => count * (1 + footprints fields) + 1
  | .group .. => 1

def Field.footprints : List Field → Nat
  | [] => 0
  | field :: fields => field.footprint + footprints fields
end

namespace Template

def minWidth (template : Template) : Nat := Field.minWidths template

/-- Fixed groups are filled when a record is edited, so their size is bounded in advance. -/
def maxFootprint : Nat := 0x100000

end Template
end ResourceTemplate
