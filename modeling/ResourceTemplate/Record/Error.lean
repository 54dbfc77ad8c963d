import ResourceTemplate.Path
import ResourceTemplate.Tag
import ResourceTemplate.Value
import ResourceTemplate.Text.Charset

/-! What can go wrong between bytes, records and edits. Every error names the path of the field
it is about. -/
namespace ResourceTemplate

inductive Mismatch where
  | endedEarly
  | unterminatedList
  | trailingBytes (count : Nat)
  | missingReference (field : String)
  | countNotInteger (field : String)
  | wrongTag (found declared : Tag)
  | holdsValue (declared : BranchTag)
  | wrongFieldCount (found declared : Nat)
  | wrongFieldName (found expected : String)
  deriving DecidableEq, Repr

inductive Refusal where
  | noValue
  | derivedCount (group : String)
  | outOfRange (n : Int) (type : IntType)
  | wrongKind (tag : ScalarTag) (kind : String)
  | notText (kind : String)
  | notBoolean (text : String)
  | notInteger (text : String) (cause : NumeralError)
  | integerTooSmall (text : String)
  | unrepresentable (charset : Charset)
  | notGroup
  | fixedItems (count : Nat)
  | absentGroup (field : String)
  | zeroItem
  deriving DecidableEq, Repr

inductive CodecError where
  | truncated (path : Path) (offset need available : Nat)
  | mismatch (path : Path) (offset : Nat) (reason : Mismatch)
  | invalidCount (path : Path) (offset : Nat) (count : Int)
  | tooLong (path : Path) (length limit : Nat)
  | refused (path : Path) (reason : Refusal)
  | unknownPath (path : Path)
  deriving DecidableEq, Repr

def Mismatch.message : Mismatch → String
  | .endedEarly => "buffer ended before this field"
  | .unterminatedList => "list ended without its terminating zero byte"
  | .trailingBytes count => s!"{count} trailing bytes are not described by the template"
  | .missingReference field => s!"referenced field `{field}` is missing"
  | .countNotInteger field => s!"count field `{field}` is not an integer"
  | .wrongTag found declared =>
    "node is a " ++ found.name ++ ", template declares a " ++ declared.name
  | .holdsValue .item => "group item holds a value"
  | .holdsValue declared => declared.name ++ " holds a value"
  | .wrongFieldCount found declared =>
    s!"record holds {found} fields, template declares {declared}"
  | .wrongFieldName found expected =>
    s!"found field `{found}` where `{expected}` was expected"

def unrepresentableMessage : String := "unrepresentable character"

def Refusal.message : Refusal → String
  | .noValue => "composite and group fields have no value of their own"
  | .derivedCount group =>
    s!"this count is derived from the number of items in `{group}`"
  | .outOfRange n type =>
    s!"{n} is outside the {type.name} range {type.min}..={type.max}"
  | .wrongKind tag kind => s!"a {tag.name} field cannot hold a {kind}"
  | .notText kind => s!"expected a string, found a {kind}"
  | .notBoolean text => s!"`{text}` is not a boolean"
  | .notInteger text cause => s!"`{text}` is not an integer: {cause.message}"
  | .integerTooSmall text => s!"`{text}` is out of range"
  | .unrepresentable charset =>
    s!"text is not representable in {charset.name}: {unrepresentableMessage}"
  | .notGroup => "not a group"
  | .fixedItems count => s!"group always holds exactly {count} items"
  | .absentGroup field => s!"group is absent, see `{field}`"
  | .zeroItem => "items of a zero-terminated list cannot start with a zero byte"

namespace CodecError

def path : CodecError → Path
  | truncated path .. => path
  | mismatch path .. => path
  | invalidCount path .. => path
  | tooLong path .. => path
  | refused path _ => path
  | unknownPath path => path

def offset? : CodecError → Option Nat
  | truncated _ offset .. => some offset
  | mismatch _ offset _ => some offset
  | invalidCount _ offset _ => some offset
  | _ => none

def message : CodecError → String
  | truncated path offset need available =>
    s!"Offset {offset}: field `{path.display}` is truncated " ++
      s!"(need {need} bytes, have {available})"
  | mismatch path offset reason =>
    s!"Offset {offset}: template does not match data at field `{path.display}`: " ++
      reason.message
  | invalidCount path offset count =>
    s!"Offset {offset}: invalid repeat count {count} for group `{path.display}`"
  | tooLong path length limit =>
    s!"Field `{path.display}` holds {length} bytes, " ++
      s!"but at most {limit} are representable"
  | refused path reason => s!"Field `{path.display}` rejected value: " ++ reason.message
  | unknownPath path => s!"Unknown field path `{path.display}`"

end CodecError
end ResourceTemplate
