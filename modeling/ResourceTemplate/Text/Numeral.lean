/-! Written integers: an optional sign, then digits of the radix and nothing else. -/
namespace ResourceTemplate

inductive NumeralError where
  | empty
  | invalidDigit
  | tooLarge
  deriving DecidableEq, Repr

def NumeralError.message : NumeralError → String
  | .empty => "cannot parse integer from empty string"
  | .invalidDigit => "invalid digit found in string"
  | .tooLarge => "number too large to fit in target type"

namespace Numeral

def maxWord : Nat := 0xFFFFFFFFFFFFFFFF

def maxSigned : Nat := 0x7FFFFFFFFFFFFFFF

def minSigned : Int := -0x8000000000000000

def digit? (radix : Nat) (c : Char) : Option Nat :=
  let value :=
    if '0' ≤ c ∧ c ≤ '9' then some (c.toNat - '0'.toNat)
    else if 'a' ≤ c ∧ c ≤ 'z' then some (c.toNat - 'a'.toNat + 10)
    else if 'A' ≤ c ∧ c ≤ 'Z' then some (c.toNat - 'A'.toNat + 10)
    else none
  value.filter (· < radix)

/-- Digits are taken from left to right, and the first one that is no digit or makes the
number pass the limit decides. -/
def digits (radix limit : Nat) : (value : Nat) → List Char → Except NumeralError Nat
  | value, [] => .ok value
  | value, c :: rest =>
    match digit? radix c with
    | none => .error .invalidDigit
    | some d =>
      if limit < value * radix + d then .error .tooLarge
      else digits radix limit (value * radix + d) rest

/-- An unsigned number, with at most one plus sign in front. -/
def natural (radix limit : Nat) : List Char → Except NumeralError Nat
  | [] => .error .empty
  | ['+'] => .error .invalidDigit
  | '+' :: text => digits radix limit 0 text
  | text => digits radix limit 0 text

def word? (text : List Char) : Option Nat := (natural 10 maxWord text).toOption

/-- A signed 64-bit number, with at most one sign in front. -/
def signed? (radix : Nat) : List Char → Option Int
  | ['-'] => none
  | '-' :: text => (digits radix (maxSigned + 1) 0 text).toOption.map (-·)
  | text => (natural radix maxSigned text).toOption.map Int.ofNat

end Numeral
end ResourceTemplate
