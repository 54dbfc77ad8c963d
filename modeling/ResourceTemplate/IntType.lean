import ResourceTemplate.Bytes

/-! Integer formats: a width in bytes and a signedness. `ofBits` and `toBits` go between a
stored bit pattern and the integer it stands for. -/
namespace ResourceTemplate

inductive Width where
  | byte | word | long | quad
  deriving DecidableEq, Repr

def Width.bytes : Width → Nat
  | .byte => 1
  | .word => 2
  | .long => 4
  | .quad => 8

def Width.bits (width : Width) : Nat := 8 * width.bytes

def Width.patterns : Width → Nat
  | .byte => 0x100
  | .word => 0x10000
  | .long => 0x100000000
  | .quad => 0x10000000000000000

structure IntType where
  signed : Bool
  width : Width
  deriving DecidableEq, Repr

namespace IntType

/-- In the order in which a template may number them. -/
def all : List IntType :=
  [⟨true, .byte⟩, ⟨false, .byte⟩, ⟨true, .word⟩, ⟨false, .word⟩,
   ⟨true, .long⟩, ⟨false, .long⟩, ⟨true, .quad⟩, ⟨false, .quad⟩]

def bytes (type : IntType) : Nat := type.width.bytes

def bits (type : IntType) : Nat := type.width.bits

def patterns (type : IntType) : Nat := type.width.patterns

/-- Half of the bit patterns stand for negative integers if the format is signed. -/
def half (type : IntType) : Nat := type.patterns / 2

def name (type : IntType) : String :=
  (if type.signed then "int" else "uint") ++ toString type.bits

def ofName? (name : String) : Option IntType := all.find? (·.name == name)

def min (type : IntType) : Int := if type.signed then -type.half else 0

def max (type : IntType) : Int :=
  if type.signed then (type.half : Int) - 1 else (type.patterns : Int) - 1

def contains (type : IntType) (n : Int) : Bool := type.min ≤ n && n ≤ type.max

/-- The integer that the low bits of `pattern` stand for. -/
def ofBits (type : IntType) (pattern : Nat) : Int :=
  if type.signed then Int.bmod pattern type.patterns else pattern % type.patterns

/-- The two's complement pattern of `n`, cut to the width. -/
def toBits (type : IntType) (n : Int) : Nat := (n % type.patterns).toNat

end IntType
end ResourceTemplate
