import ResourceTemplate.Record.Error
import ResourceTemplate.Settings
import ResourceTemplate.Template.Basic
import ResourceTemplate.Text.Blank
import ResourceTemplate.Text.Numeral

/-! Values typed in as text. Integers are decimal or hexadecimal, enumerations may be given by
name and booleans as yes or no; strings are taken as they are. -/
namespace ResourceTemplate.TextEntry

/-- The entry with this very name comes before one that differs in case only. -/
def entryNamed? (entries : List EnumEntry) (text : List Char) : Option EnumEntry :=
  (entries.find? (·.name.toList == text)).or
    (entries.find? fun entry => Text.equalFold entry.name.toList text)

def boolean? (text : List Char) : Option Bool :=
  let folded := String.ofList (text.map Char.toLower)
  if ["true", "yes", "1"].contains folded then some true
  else if ["false", "no", "0"].contains folded then some false
  else none

def splitSign : List Char → Bool × List Char
  | '-' :: rest => (true, rest)
  | '+' :: rest => (false, rest)
  | text => (false, text)

/-- The digits that follow a mark of hexadecimal, if there is one. -/
def hexDigits? : List Char → Option (List Char)
  | '0' :: 'x' :: rest => some rest
  | '0' :: 'X' :: rest => some rest
  | '$' :: rest => some rest
  | _ => none

def magnitude (text : List Char) : Except NumeralError Nat :=
  match hexDigits? text with
  | some digits => Numeral.natural 16 Numeral.maxWord digits
  | none => Numeral.natural 10 Numeral.maxWord text

def integer (text : List Char) : Except Refusal Value :=
  let (negative, unsigned) := splitSign text
  match magnitude unsigned with
  | .error cause => throw (.notInteger (String.ofList text) cause)
  | .ok n =>
    if ¬ negative then return .uint n
    else if Numeral.minSigned ≤ -(n : Int) then return .int (-n)
    else throw (.integerTooSmall (String.ofList text))

def parse (type : ScalarType) (settings : Settings) (text : String) : Except Refusal Value :=
  let trimmed := Text.trim text.toList
  match type with
  | .fixedString _ | .pascalString =>
    match settings.charset.encode? text.toList with
    | some bytes => return .text bytes
    | none => throw (.unrepresentable settings.charset)
  | .boolean _ =>
    match boolean? trimmed with
    | some b => return .bool b
    | none => throw (.notBoolean (String.ofList trimmed))
  | .enumeration _ names =>
    match entryNamed? names.entries trimmed with
    | some entry => return .int entry.value.toInt
    | none => integer trimmed
  | .int _ => integer trimmed

end ResourceTemplate.TextEntry
