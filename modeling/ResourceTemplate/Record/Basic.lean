import ResourceTemplate.Record.Decode
import ResourceTemplate.Record.Encode
import ResourceTemplate.Settings

/-! A record: the fields of a resource, decoded against its template, and the bytes after the
last field, which are kept as they are. -/
namespace ResourceTemplate

/-- `laidOut` is the number of bytes that the fields take up. -/
structure Record where
  template : Template
  fields : List Node
  laidOut : Nat
  trailing : Bytes
  deriving DecidableEq, Repr

namespace Record

def root (record : Record) : Node :=
  .branch "" ⟨0, record.laidOut⟩ .composite record.fields

def length (record : Record) : Nat := record.laidOut + record.trailing.length

def isEmpty (record : Record) : Bool := record.length == 0

def decodeWith (bound : CountBound) (template : Template) (settings : Settings)
    (bytes : Bytes) : Except CodecError Record := do
  let (fields, rest) ← decodeFields bound template [] Path.root ⟨0, bytes⟩
  if settings.strict ∧ ¬ rest.atEnd then
    throw (.mismatch Path.root rest.offset (.trailingBytes rest.remaining))
  return ⟨template, fields, rest.offset, rest.bytes⟩

def decode (template : Template) (settings : Settings) (bytes : Bytes) :
    Except CodecError Record :=
  decodeWith CountBound.fitting template settings bytes

def encode (record : Record) : Except CodecError Bytes := do
  let bytes ← encodeLevel record.template record.fields Path.root 0
  return bytes ++ record.trailing

end Record
end ResourceTemplate
