import ResourceTemplate.Template.Basic
import ResourceTemplate.Value

/-! Labels: the names that an enumeration's table has for a value. A bitmask is labelled by the
names of the bits it covers, and what they leave over is written in hexadecimal. -/
namespace ResourceTemplate

def upperHex (n : Nat) : String :=
  String.ofList ((Nat.toDigits 16 n).map Char.toUpper)

namespace NameTable

def nameOf? (table : NameTable) (n : Int) : Option String :=
  (table.entries.find? (·.value.toInt == n)).map (·.name)

/-- The entries whose bits are all set in `pattern`, with these bits. An entry without bits
covers nothing. -/
def covering (table : NameTable) (base : IntType) (pattern : Nat) : List (String × Nat) :=
  table.entries.filterMap fun entry =>
    let mask := base.toBits entry.value.toInt
    if mask ≠ 0 ∧ pattern &&& mask = mask then some (entry.name, mask) else none

def bitsLabel? (table : NameTable) (base : IntType) (pattern : Nat) : Option String :=
  let covering := table.covering base pattern
  let leftover := pattern ^^^ (covering.foldl (fun bits cover => bits ||| cover.2) 0)
  if covering.isEmpty then none
  else
    some <| "|".intercalate (covering.map (·.1)) ++
      (if leftover = 0 then "" else "|0x" ++ upperHex leftover)

def label? (table : NameTable) (base : IntType) (n : Int) : Option String :=
  if table.bitmask ∧ base.toBits n ≠ 0 then table.bitsLabel? base (base.toBits n)
  else if table.bitmask then table.nameOf? 0
  else table.nameOf? n

end NameTable

def ScalarType.label? : ScalarType → Value → Option String
  | .enumeration base table, value => value.integer?.bind (table.label? base)
  | _, _ => none

end ResourceTemplate
