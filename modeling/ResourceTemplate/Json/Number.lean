import ResourceTemplate.Json.Basic
import ResourceTemplate.Text.Numeral

/-! The numbers of JSON text. Integers of 64 bits keep their value; of other numbers only the text
is kept, and one that is rounded to infinity when it is read is malformed. -/
namespace ResourceTemplate.Json

structure NumberText where
  negative : Bool
  whole : List Char
  fraction : List Char
  exponent : Int
  isInteger : Bool

def digitValue (c : Char) : Nat := c.toNat - '0'.toNat

def natOfDigits (digits : List Char) : Nat := digits.foldl (10 * · + digitValue ·) 0

/-- Digits with no needless zero in front. -/
def whole? (text : List Char) : Option (List Char × List Char) :=
  match text with
  | '0' :: rest =>
    match rest with
    | c :: _ => if c.isDigit then none else some (['0'], rest)
    | [] => some (['0'], [])
  | _ =>
    let digits := text.takeWhile Char.isDigit
    if digits.isEmpty then none else some (digits, text.dropWhile Char.isDigit)

def fraction? : List Char → Option (List Char × List Char)
  | '.' :: text =>
    let digits := text.takeWhile Char.isDigit
    if digits.isEmpty then none else some (digits, text.dropWhile Char.isDigit)
  | text => some ([], text)

def exponentDigits? (sign : Int) (text : List Char) : Option (Int × List Char) :=
  let digits := text.takeWhile Char.isDigit
  if digits.isEmpty then none
  else some (sign * natOfDigits digits, text.dropWhile Char.isDigit)

def exponent? : List Char → Option ((Bool × Int) × List Char)
  | c :: text =>
    if c = 'e' ∨ c = 'E' then
      (match text with
        | '+' :: text => exponentDigits? 1 text
        | '-' :: text => exponentDigits? (-1) text
        | text => exponentDigits? 1 text).map fun (n, rest) => ((true, n), rest)
    else some ((false, 0), c :: text)
  | [] => some ((false, 0), [])

def numberText? (text : List Char) : Option (NumberText × List Char) := do
  let (negative, text) := match text with
    | '-' :: rest => (true, rest)
    | _ => (false, text)
  let (whole, text) ← whole? text
  let (fraction, text) ← fraction? text
  let ((hasExponent, exponent), text) ← exponent? text
  return (⟨negative, whole, fraction, exponent, fraction.isEmpty && !hasExponent⟩, text)

namespace NumberText

/-- Appends digits to a number as long as a word has room for them, and tells how many are
left out. -/
def fill (n : Nat) : List Char → Nat × Nat
  | [] => (n, 0)
  | c :: rest =>
    let longer := 10 * n + digitValue c
    if longer ≤ Numeral.maxWord then fill longer rest else (n, rest.length + 1)

/-- The leading digits that fit a word, and the power of ten that they are scaled by. Digits
left out before the point still count for the scale, and those behind it do not. -/
def scaled (number : NumberText) : Nat × Int :=
  let (start, omitted) := fill 0 number.whole
  let (mantissa, unread) := fill start number.fraction
  (mantissa, number.exponent + omitted + unread - number.fraction.length)

/-- The whole number of 53 significant bits that is nearest to `n`, and of two the even one. -/
def nearestDouble (n : Nat) : Nat :=
  let unit := 1 <<< (n.log2 + 1 - 53)
  let units := n / unit
  let left := n % unit
  if unit < 2 * left ∨ (unit = 2 * left ∧ units % 2 = 1) then (units + 1) * unit
  else units * unit

/-- From this magnitude on, a number is rounded to infinity in double precision: it is half a
unit in the last place past the largest number there is. -/
def infinite : Nat := 0x3FFFFFFFFFFFFF <<< 970

def powerOfTen (n : Nat) : Nat := Nat.pow 10 n

/-- A number is read as the product of two doubles, its leading digits and a power of ten.
There is none for a power beyond 308. -/
def isInfinite (number : NumberText) : Bool :=
  let (mantissa, scale) := number.scaled
  if mantissa = 0 ∨ scale < 0 then false
  else if 308 < scale then true
  else infinite ≤ nearestDouble mantissa * nearestDouble (powerOfTen scale.toNat)

/-- An integer keeps its value if it fits 64 bits, signed or unsigned. Negative zero is no
integer, as it keeps its sign. -/
def integer? (number : NumberText) : Option Int :=
  let n := natOfDigits number.whole
  if ¬ number.isInteger then none
  else if number.negative then
    if n = 0 ∨ Numeral.maxSigned + 1 < n then none else some (-n)
  else if n ≤ Numeral.maxWord then some n
  else none

end NumberText

def number? (text : List Char) : Option (Json × List Char) := do
  let (number, rest) ← numberText? text
  match number.integer? with
  | some n => return (.integer n, rest)
  | none =>
    if number.isInfinite then none
    else return (.real (String.ofList (text.take (text.length - rest.length))), rest)

end ResourceTemplate.Json
