import ResourceTemplate.Text.Blank
import ResourceTemplate.Tmpl.Code
import ResourceTemplate.Tmpl.Entry

/-! Loading the template that a `TMPL` resource describes. Its entries are taken one after the
other; a list holds the fields between its two markers. -/
namespace ResourceTemplate.Tmpl

/-- A field name can neither be empty nor be part of a path's notation nor be an index. -/
def baseName (label : String) : String :=
  let cleaned := (Text.trim label.toList).map fun c => if Template.reserved.contains c then '_' else c
  if cleaned.isEmpty then "untitled"
  else if (Numeral.word? cleaned).isSome then String.ofList ('_' :: cleaned)
  else String.ofList cleaned

/-- The name and its numbered forms, enough of them that one is not among `taken` others. -/
def candidates (base : String) (taken : Nat) : List String :=
  base :: (List.range taken).map fun n => base ++ " " ++ toString (n + 2)

/-- A label may be used again, and its field gets the first number that is free. -/
def fieldName (fields : List Field) (label : String) : String :=
  let base := baseName label
  let names := fields.map Field.name
  ((candidates base fields.length).find? (!names.contains ·)).getD base

def fixedCount? (label : String) : Option Nat :=
  let digits := ((Text.trim label.toList).reverse.takeWhile Char.isDigit).reverse
  Numeral.word? digits

/-- An integer in decimal, or in hexadecimal after a dollar sign or `0x`. -/
def magnitude? : List Char → Option Int
  | '$' :: hex => Numeral.signed? 16 hex
  | '0' :: 'x' :: hex => Numeral.signed? 16 hex
  | '0' :: 'X' :: hex => Numeral.signed? 16 hex
  | text => Numeral.signed? 10 text

/-- A minus sign in front negates what follows it, even a number that has a sign of its own. -/
def caseNumber? (text : List Char) : Option Int :=
  match Text.trim text with
  | '-' :: text => (magnitude? text).map (-·)
  | text => magnitude? text

/-- A label of the form `name=value`, cut at its last equals sign. -/
def splitCase? (label : List Char) : Option (List Char × List Char) :=
  if label.contains '=' then
    let value := (label.reverse.takeWhile (· ≠ '=')).reverse
    some (label.take (label.length - value.length - 1), value)
  else none

/-- Values are written without regard to the sign of the field, and are read as the field reads
their bits. -/
def caseValue? (base : IntType) (n : Int) : Option Int64 :=
  if -(base.half : Int) ≤ n ∧ n < base.patterns then
    let value := base.ofBits (base.toBits n)
    if value ≤ Numeral.maxSigned then some (Int64.ofInt value) else none
  else none

def withEntry (base : IntType) (entry : EnumEntry) : ScalarType → ScalarType
  | .enumeration base names => .enumeration base { names with entries := names.entries ++ [entry] }
  | _ => .enumeration base ⟨[entry], false⟩

def addCase (fields : List Field) (label : String) (offset : Nat) :
    Except TmplError (List Field) := do
  let some (name, text) := splitCase? label.toList | throw (.invalidCase label offset)
  let some n := caseNumber? text | throw (.invalidCase label offset)
  if Numeral.maxSigned < n then throw (.caseOverflow offset)
  match fields.getLast? with
  | some (.scalar field type) =>
    let some base := type.intType? | throw (.caseWithoutField offset)
    let some value := caseValue? base n | throw (.invalidCase label offset)
    let entry := ⟨value, String.ofList (Text.trim name)⟩
    return fields.dropLast ++ [.scalar field (withEntry base entry type)]
  | _ => throw (.caseWithoutField offset)

def check (fields : List Field) : Except TmplError Unit :=
  match Template.check fields with
  | .ok () => return
  | .error error => throw (.invalid error)

/-- A list whose closing marker has not come yet, with the fields before it. -/
structure OpenList where
  before : List Field
  label : String
  repetition : Repetition
  offset : Nat

/-- A count whose list has to follow. -/
structure Announced where
  repetition : Repetition
  code : String
  offset : Nat

/-- The fields read at the innermost level, and the lists around them, innermost first. -/
structure Reading where
  fields : List Field
  lists : List OpenList
  announced : Option Announced

namespace Reading

def start : Reading := ⟨[], [], none⟩

def push (reading : Reading) (label : String) (named : String → Field) : Reading :=
  { reading with fields := reading.fields ++ [named (fieldName reading.fields label)] }

def openList (reading : Reading) (label : String) (repetition : Repetition) (offset : Nat) :
    Reading :=
  ⟨[], ⟨reading.fields, label, repetition, offset⟩ :: reading.lists, none⟩

def closeList (reading : Reading) (offset : Nat) : Except TmplError Reading :=
  match reading.lists with
  | [] => throw (.unbalancedList offset)
  | list :: lists => do
    check reading.fields
    return push ⟨list.before, lists, none⟩ list.label
      (.group · reading.fields list.repetition none)

def enter (reading : Reading) (entry : Entry) : Except TmplError Reading := do
  let some directive := Directive.ofCode? entry.code | throw (.unknownCode entry.code entry.offset)
  match directive with
  | .field named => return reading.push entry.label named
  | .count type zeroBased =>
    let name := fieldName reading.fields entry.label
    let announced := ⟨.counted name zeroBased, entry.code, entry.offset⟩
    return { reading.push entry.label (.scalar · (.int type)) with announced := some announced }
  | .fixedCount =>
    let some count := fixedCount? entry.label | throw (.invalidFixedCount entry.label entry.offset)
    return { reading with announced := some ⟨.fixed count, entry.code, entry.offset⟩ }
  | .openCounted => throw (.unbalancedList entry.offset)
  | .openList repetition => return reading.openList entry.label repetition entry.offset
  | .closeList => reading.closeList entry.offset
  | .nameValue => return { reading with fields := ← addCase reading.fields entry.label entry.offset }
  | .divider => return reading

def step (reading : Reading) (entry : Entry) : Except TmplError Reading :=
  match reading.announced with
  | none => reading.enter entry
  | some announced =>
    if entry.code = "LSTC" then
      return reading.openList entry.label announced.repetition entry.offset
    else throw (.expectedListStart announced.code announced.offset)

def finish (reading : Reading) : Except TmplError (List Field) :=
  match reading.announced, reading.lists with
  | some announced, _ => throw (.expectedListStart announced.code announced.offset)
  | none, list :: _ => throw (.unbalancedList list.offset)
  | none, [] => return reading.fields

end Reading

/-- The fields at the outermost level, before the rules of templates are applied to them. -/
def fields (data : Bytes) : Except TmplError (List Field) := do
  let (entries, fault) := Entry.scan ⟨0, data⟩
  let reading ← entries.foldlM Reading.step .start
  match fault with
  | some error => throw error
  | none => reading.finish

end Tmpl

def Template.ofTmpl (data : Bytes) : Except TmplError Template := do
  let fields ← Tmpl.fields data
  Tmpl.check fields
  return fields

end ResourceTemplate
