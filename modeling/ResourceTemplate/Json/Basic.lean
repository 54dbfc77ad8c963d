/-! JSON values. Objects keep their entries in order, repeated keys included. -/
namespace ResourceTemplate

/-- Numbers are integers where they are written as one that fits 64 bits; the others keep the
text they were written with. -/
inductive Json where
  | null
  | bool (b : Bool)
  | integer (n : Int)
  | real (literal : String)
  | string (text : String)
  | array (elements : List Json)
  | object (entries : List (String × Json))
  deriving Repr, Inhabited

namespace Json

def string? : Json → Option String
  | string text => some text
  | _ => none

def bool? : Json → Option Bool
  | bool b => some b
  | _ => none

def integer? : Json → Option Int
  | integer n => some n
  | _ => none

def natural? : Json → Option Nat
  | integer (.ofNat n) => some n
  | _ => none

def array? : Json → Option (List Json)
  | array elements => some elements
  | _ => none

end Json
end ResourceTemplate
