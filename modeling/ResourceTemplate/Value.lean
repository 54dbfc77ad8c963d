import ResourceTemplate.IntType
import ResourceTemplate.Text.Quoted
import ResourceTemplate.Text.Utf8

/-! The values that scalar fields hold. -/
namespace ResourceTemplate

/-- Text is kept as the stored bytes, in whatever encoding they are meant. -/
inductive Value where
  | int (n : Int)
  | uint (n : Nat)
  | bool (b : Bool)
  | text (bytes : Bytes)
  deriving DecidableEq, Repr

namespace Value

def integer? : Value → Option Int
  | .int n => some n
  | .uint n => some n
  | _ => none

def bool? : Value → Option Bool
  | .bool b => some b
  | _ => none

def bytes? : Value → Option Bytes
  | .text bytes => some bytes
  | _ => none

/-- The number that a condition compares: truth counts as one, and text as zero. -/
def number : Value → Int
  | .bool b => if b then 1 else 0
  | value => value.integer?.getD 0

def kindName : Value → String
  | .int _ => "signed integer"
  | .uint _ => "unsigned integer"
  | .bool _ => "boolean"
  | .text _ => "string"

def display : Value → String
  | .int n => toString n
  | .uint n => toString n
  | .bool b => toString b
  | .text bytes => Text.quoted (Utf8.decodeLossy bytes)

end Value

def IntType.value (type : IntType) (n : Int) : Value :=
  if type.signed then .int n else .uint n.toNat

end ResourceTemplate
