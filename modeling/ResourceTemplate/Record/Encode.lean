import ResourceTemplate.Record.Reference
import ResourceTemplate.Template.Size

/-! Encoding walks a template and a tree together and writes the bytes that the tree stands
for. Count fields are written with the number of items of their group. -/
namespace ResourceTemplate

def pascalLimit : Nat := 255

def trueBits (wide : Bool) : Nat := if wide then 0x100 else 1

/-- The bits a boolean was read from are kept as long as they mean the same. -/
def booleanBits (wide : Bool) (raw : Option Nat) (b : Bool) : Nat :=
  match raw with
  | some bits =>
    if (bits != 0) = b then bits else if b then trueBits wide else 0
  | none => if b then trueBits wide else 0

def ScalarType.wrongKind (type : ScalarType) (value : Value) : Refusal :=
  .wrongKind type.tag value.kindName

def textOf (value : Value) (path : Path) : Except CodecError Bytes :=
  match value.bytes? with
  | some bytes => return bytes
  | none => throw (.refused path (.notText value.kindName))

def checkLength (bytes : Bytes) (limit : Nat) (path : Path) : Except CodecError Unit :=
  if limit < bytes.length then throw (.tooLong path bytes.length limit) else return

def checkRange (type : IntType) (n : Int) (path : Path) : Except CodecError Unit :=
  if type.contains n then return else throw (.refused path (.outOfRange n type))

/-- The integer that is stored: the number of items for a count field, else the value. -/
def storedInteger (type : ScalarType) (format : IntType) (value : Value) (count : Option Int)
    (path : Path) (offset : Nat) : Except CodecError Int :=
  match count with
  | some n => if format.contains n then return n else throw (.invalidCount path offset n)
  | none =>
    match value.integer? with
    | some n => do checkRange format n path; return n
    | none => throw (.refused path (type.wrongKind value))

/-- `offset` is where the tree has the field. -/
def encodeScalar (type : ScalarType) (held : Scalar) (count : Option Int) (path : Path)
    (offset : Nat) : Except CodecError Bytes := do
  match type with
  | .int format | .enumeration format _ =>
    let n ← storedInteger type format held.value count path offset
    return Bytes.ofNat format.bytes (format.toBits n)
  | .fixedString length =>
    let bytes ← textOf held.value path
    checkLength bytes length path
    return bytes.resize length
  | .pascalString =>
    let bytes ← textOf held.value path
    checkLength bytes pascalLimit path
    return UInt8.ofNat bytes.length :: bytes
  | .boolean wide =>
    match held.value.bool? with
    | some b => return Bytes.ofNat type.minWidth (booleanBits wide held.raw b)
    | none => throw (.refused path (type.wrongKind held.value))

abbrev ItemEncoder := (index : Nat) → Node → (start : Nat) → Except CodecError Bytes

/-- The items one after the other. In a zero-terminated list none may look like its end. -/
def encodeItems (item : ItemEncoder) (repetition : Repetition) (path : Path) :
    List Node → (index start : Nat) → Except CodecError Bytes
  | [], _, _ => return if repetition = .zeroTerminated then [0] else []
  | node :: nodes, index, start => do
    let bytes ← item index node start
    if repetition = .zeroTerminated ∧ bytes.head? = some 0 then
      throw (.refused (path.index index) .zeroItem)
    let rest ← encodeItems item repetition path nodes (index + 1) (start + bytes.length)
    return bytes ++ rest

def checkItemCount (repetition : Repetition) (items : List Node) (path : Path) (offset : Nat) :
    Except CodecError Unit :=
  match repetition with
  | .fixed count =>
    if items.length = count then return else throw (.invalidCount path offset items.length)
  | _ => return

mutual
/-- Writes one field. `siblings` are all nodes of its field list, `count` is the number that a
count field must hold, and `start` is where the field's bytes go. -/
def encodeField :
    Field → Node → (siblings : List Node) → (count : Option Int) → Path → (start : Nat) →
      Except CodecError Bytes
  | .scalar _ type, node, _, count, path, start =>
    match node with
    | .scalar _ span held =>
      if held.tag = type.tag then encodeScalar type held count path span.offset
      else throw (.mismatch path start (.wrongTag node.tag (.scalar type.tag)))
    | .branch .. => throw (.mismatch path start (.wrongTag node.tag (.scalar type.tag)))
  | .composite _ fields, node, _, _, path, start => do
    if node.tag ≠ .branch .composite then
      throw (.mismatch path start (.wrongTag node.tag (.branch .composite)))
    checkShape fields node.children path start
    let counts ← derivedCounts fields node.children path start
    encodeFields fields node.children node.children counts path start
  | .group _ fields repetition condition, node, siblings, _, path, start => do
    if node.tag ≠ .branch .group then
      throw (.mismatch path start (.wrongTag node.tag (.branch .group)))
    if ← isPresent condition siblings path start then
      checkItemCount repetition node.children path node.offset
      let item : ItemEncoder := fun index node start => do
        checkShape fields node.children (path.index index) start
        let counts ← derivedCounts fields node.children (path.index index) start
        encodeFields fields node.children node.children counts (path.index index) start
      encodeItems item repetition path node.children 0 start
    else return []

def encodeFields :
    List Field → (nodes siblings : List Node) → (counts : List (String × Int)) →
      (parent : Path) → (start : Nat) → Except CodecError Bytes
  | [], _, _, _, _, _ => return []
  | _, [], _, _, _, _ => return []
  | field :: fields, node :: nodes, siblings, counts, parent, start => do
    let bytes ← encodeField field node siblings (counts.lookup field.name)
      (parent.child field.name) start
    let rest ← encodeFields fields nodes siblings counts parent (start + bytes.length)
    return bytes ++ rest
end

/-- Writes a whole field list: the fields of a record, of a composite or of an item. -/
def encodeLevel (fields : List Field) (nodes : List Node) (parent : Path) (start : Nat) :
    Except CodecError Bytes := do
  checkShape fields nodes parent start
  let counts ← derivedCounts fields nodes parent start
  encodeFields fields nodes nodes counts parent start

end ResourceTemplate
