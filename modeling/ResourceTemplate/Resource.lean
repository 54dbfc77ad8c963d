import ResourceTemplate.FourCharCode
import ResourceTemplate.Record.Basic

/-! Resources: a type, a number, perhaps a name, attribute bits and the data. -/
namespace ResourceTemplate

structure Resource where
  code : FourCharCode
  id : Int16
  name : Option Bytes
  attributes : UInt8
  data : Bytes
  deriving DecidableEq, Repr

namespace Resource

/-- The attribute of a resource whose data is no longer what was read. -/
def changed : UInt8 := 0x02

def isChanged (resource : Resource) : Bool := resource.attributes &&& changed != 0

def display (resource : Resource) : String :=
  let name := match resource.name with
    | some name => " \"" ++ String.ofList (Charset.macRoman.decode name) ++ "\""
    | none => ""
  s!"'{resource.code.display}' ID {resource.id.toInt}" ++ name ++
    s!", {resource.data.length} bytes"

def decode (resource : Resource) (template : Template) (settings : Settings) :
    Except CodecError Record :=
  Record.decode template settings resource.data

/-- Takes over the bytes of a record. Equal bytes are no change. -/
def store (resource : Resource) (record : Record) : Except CodecError Resource := do
  let data ← record.encode
  if data = resource.data then return resource
  else return { resource with data := data, attributes := resource.attributes ||| changed }

end Resource
end ResourceTemplate
