import ResourceTemplate.Record.Encode
import ResourceTemplate.Template.Label

/-! Which values a scalar field accepts, and the form in which it keeps them. Integers are
accepted in either signedness, and short strings are filled up to a fixed length. -/
namespace ResourceTemplate

def ScalarType.accept (type : ScalarType) (value : Value) (path : Path) :
    Except CodecError Value := do
  match type with
  | .int format | .enumeration format _ =>
    match value.integer? with
    | some n => do checkRange format n path; return format.value n
    | none => throw (.refused path (type.wrongKind value))
  | .fixedString length =>
    match value with
    | .text bytes => do checkLength bytes length path; return .text (bytes.resize length)
    | _ => throw (.refused path (type.wrongKind value))
  | .pascalString =>
    match value with
    | .text bytes => do checkLength bytes pascalLimit path; return value
    | _ => throw (.refused path (type.wrongKind value))
  | .boolean _ =>
    match value with
    | .bool _ => return value
    | _ => throw (.refused path (type.wrongKind value))

def ScalarType.defaultValue : ScalarType → Value
  | .int format | .enumeration format _ => format.value 0
  | .fixedString length => .text (List.replicate length 0)
  | .pascalString => .text []
  | .boolean _ => .bool false

def ScalarType.default (type : ScalarType) : Scalar :=
  ⟨type.tag, type.defaultValue, type.label? type.defaultValue, none⟩

def ScalarType.encodedLength (type : ScalarType) (value : Value) : Nat :=
  match type with
  | .pascalString => 1 + (value.bytes?.getD []).length
  | _ => type.minWidth

end ResourceTemplate
