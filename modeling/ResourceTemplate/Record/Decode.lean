import ResourceTemplate.Record.Reference
import ResourceTemplate.Template.Label
import ResourceTemplate.Template.Size

/-! Decoding walks a template and the bytes together and yields a tree that knows where every
field came from. -/
namespace ResourceTemplate

namespace Input

def spanTo (start stop : Input) : Span := ⟨start.offset, stop.offset - start.offset⟩

def take (n : Nat) (path : Path) (input : Input) : Except CodecError (Bytes × Input) :=
  match input.take? n with
  | some taken => return taken
  | none => throw (.truncated path input.offset n input.remaining)

end Input

/-- The parts of a scalar that are stored: its value and, of a boolean, the bits. -/
def ScalarType.read (type : ScalarType) (path : Path) (input : Input) :
    Except CodecError (Value × Option Nat × Input) := do
  match type with
  | .int format | .enumeration format _ =>
    let (bytes, rest) ← input.take format.bytes path
    return (format.value (format.ofBits bytes.toNat), none, rest)
  | .fixedString length =>
    let (bytes, rest) ← input.take length path
    return (.text bytes, none, rest)
  | .pascalString =>
    let (length, body) ← input.take 1 path
    let (bytes, rest) ← body.take length.toNat path
    return (.text bytes, none, rest)
  | .boolean _ =>
    let (bytes, rest) ← input.take type.minWidth path
    return (.bool (bytes.toNat != 0), some bytes.toNat, rest)

def decodeScalar (type : ScalarType) (path : Path) (input : Input) :
    Except CodecError (Scalar × Input) := do
  let (value, raw, rest) ← type.read path input
  return (⟨type.tag, value, type.label? value, raw⟩, rest)

/-- A bound decides whether a count of items, each of some fewest bytes, may be tried on the
bytes that remain. -/
abbrev CountBound := (minWidth : Nat) → (count : Int) → (remaining : Nat) → Bool

/-- Every item takes at least one byte and its fewest bytes, so a count that asks for more
cannot be right. -/
def CountBound.fitting : CountBound := fun minWidth count remaining =>
  0 ≤ count && count * max minWidth 1 ≤ remaining

abbrev ItemDecoder := (index : Nat) → Input → Except CodecError (Node × Input)

def decodeTimes (item : ItemDecoder) : (count index : Nat) → Input →
    Except CodecError (List Node × Input)
  | 0, _, input => return ([], input)
  | count + 1, index, input => do
    let (node, rest) ← item index input
    let (nodes, last) ← decodeTimes item count (index + 1) rest
    return (node :: nodes, last)

/-- An item of a list without a count has to take up bytes, or the list would never end. -/
def decodeToEnd (item : ItemDecoder) (path : Path) (index : Nat) (input : Input) :
    Except CodecError (List Node × Input) :=
  if input.atEnd then return ([], input)
  else do
    let (node, rest) ← item index input
    if _ : rest.remaining < input.remaining then
      let (nodes, last) ← decodeToEnd item path (index + 1) rest
      return (node :: nodes, last)
    else throw (.invalidCount path input.offset (index + 1))
termination_by input.remaining

def decodeToZero (item : ItemDecoder) (path : Path) (index : Nat) (input : Input) :
    Except CodecError (List Node × Input) :=
  match input.bytes with
  | [] => throw (.mismatch path input.offset .unterminatedList)
  | 0 :: bytes => return ([], ⟨input.offset + 1, bytes⟩)
  | _ => do
    let (node, rest) ← item index input
    if _ : rest.remaining < input.remaining then
      let (nodes, last) ← decodeToZero item path (index + 1) rest
      return (node :: nodes, last)
    else throw (.invalidCount path input.offset (index + 1))
termination_by input.remaining

def decodeCount (bound : CountBound) (minWidth : Nat) (count : Int) (item : ItemDecoder)
    (path : Path) (input : Input) : Except CodecError (List Node × Input) :=
  if bound minWidth count input.remaining then decodeTimes item count.toNat 0 input
  else throw (.invalidCount path input.offset count)

def decodeItems (bound : CountBound) (minWidth : Nat) (repetition : Repetition)
    (siblings : List Node) (item : ItemDecoder) (path : Path) (input : Input) :
    Except CodecError (List Node × Input) :=
  match repetition with
  | .fixed count => decodeCount bound minWidth count item path input
  | .counted countField zeroBased => do
    let count ← storedCount siblings countField zeroBased path input.offset
    decodeCount bound minWidth count item path input
  | .untilEnd => decodeToEnd item path 0 input
  | .zeroTerminated => decodeToZero item path 0 input

/-- A field that needs bytes does not start at the end of the data. -/
def checkStart (field : Field) (path : Path) (input : Input) : Except CodecError Unit :=
  if 0 < field.minWidth ∧ input.atEnd then throw (.mismatch path input.offset .endedEarly)
  else return

mutual
/-- Reads one field. Its earlier siblings hold the count and the condition of a group. -/
def decodeField (bound : CountBound) :
    Field → (earlier : List Node) → Path → Input → Except CodecError (Node × Input)
  | .scalar name type, _, path, input => do
    checkStart (.scalar name type) path input
    let (held, rest) ← decodeScalar type path input
    return (.scalar name (input.spanTo rest) held, rest)
  | .composite name fields, _, path, input => do
    checkStart (.composite name fields) path input
    let (children, rest) ← decodeFields bound fields [] path input
    return (.branch name (input.spanTo rest) .composite children, rest)
  | .group name fields repetition condition, earlier, path, input => do
    checkStart (.group name fields repetition condition) path input
    if ← isPresent condition earlier path input.offset then
      let item : ItemDecoder := fun index input => do
        let (children, rest) ← decodeFields bound fields [] (path.index index) input
        return (.branch (toString index) (input.spanTo rest) .item children, rest)
      let (items, rest) ←
        decodeItems bound (Field.minWidths fields) repetition earlier item path input
      return (.branch name (input.spanTo rest) .group items, rest)
    else return (.branch name ⟨input.offset, 0⟩ .group [], input)

def decodeFields (bound : CountBound) :
    List Field → (earlier : List Node) → (parent : Path) → Input →
      Except CodecError (List Node × Input)
  | [], _, _, input => return ([], input)
  | field :: fields, earlier, parent, input => do
    let (node, rest) ← decodeField bound field earlier (parent.child field.name) input
    let (nodes, last) ← decodeFields bound fields (earlier ++ [node]) parent rest
    return (node :: nodes, last)
end

end ResourceTemplate
