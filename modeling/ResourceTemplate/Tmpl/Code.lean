import ResourceTemplate.Template.Basic
import ResourceTemplate.Text.Numeral

/-! What the type codes of `TMPL` entries stand for. -/
namespace ResourceTemplate.Tmpl

inductive Directive where
  /-- A field, which takes its name from the label. -/
  | field (named : String → Field)
  /-- An integer field that counts the items of the list after it. -/
  | count (type : IntType) (zeroBased : Bool)
  /-- The label holds the number of items of the list after it. -/
  | fixedCount
  | openCounted
  | openList (repetition : Repetition)
  | closeList
  /-- The label names a value of the integer field before it. -/
  | nameValue
  /-- Of use to editors only. -/
  | divider

def intCodes : List (String × IntType) :=
  [("DBYT", ⟨true, .byte⟩), ("DWRD", ⟨true, .word⟩), ("DLNG", ⟨true, .long⟩),
   ("DQWD", ⟨true, .quad⟩), ("UBYT", ⟨false, .byte⟩), ("UWRD", ⟨false, .word⟩),
   ("ULNG", ⟨false, .long⟩), ("UQWD", ⟨false, .quad⟩), ("HBYT", ⟨false, .byte⟩),
   ("HWRD", ⟨false, .word⟩), ("HLNG", ⟨false, .long⟩), ("HQWD", ⟨false, .quad⟩)]

def countCodes : List (String × IntType × Bool) :=
  [("OCNT", ⟨false, .word⟩, false), ("WCNT", ⟨false, .word⟩, false),
   ("ZCNT", ⟨true, .word⟩, true), ("BCNT", ⟨false, .byte⟩, false),
   ("BZCT", ⟨true, .byte⟩, true), ("LCNT", ⟨false, .long⟩, false),
   ("LZCT", ⟨true, .long⟩, true)]

def bytesToEnd (name : String) : Field :=
  .group name [.scalar "byte" (.int ⟨false, .byte⟩)] .untilEnd none

def otherCodes : List (String × Directive) :=
  [("CHAR", .field (.scalar · (.fixedString 1))), ("TNAM", .field (.scalar · (.fixedString 4))),
   ("PSTR", .field (.scalar · .pascalString)), ("BFLG", .field (.scalar · (.boolean false))),
   ("BOOL", .field (.scalar · (.boolean true))), ("RECT", .field (.composite · Template.rect)),
   ("PNT ", .field (.composite · Template.point)), ("HEXD", .field bytesToEnd),
   ("FCNT", .fixedCount), ("LSTC", .openCounted), ("LSTB", .openList .untilEnd),
   ("LSTZ", .openList .zeroTerminated), ("LSTE", .closeList), ("CASE", .nameValue),
   ("DVDR", .divider)]

def table : List (String × Directive) :=
  intCodes.map (fun (code, type) => (code, .field (.scalar · (.int type)))) ++
    countCodes.map (fun (code, type, zeroBased) => (code, .count type zeroBased)) ++ otherCodes

/-- The codes `C`, `H` and `P` are followed by a number of bytes in hexadecimal. -/
def sized? (code : String) : Option Directive :=
  match code.toList with
  | [] => none
  | c :: digits =>
    if c = 'C' ∨ c = 'H' ∨ c = 'P' then
      (Numeral.natural 16 Numeral.maxWord digits).toOption.map fun length =>
        .field (.scalar · (.fixedString length))
    else none

def Directive.ofCode? (code : String) : Option Directive :=
  (table.lookup code).or (sized? code)

end ResourceTemplate.Tmpl
