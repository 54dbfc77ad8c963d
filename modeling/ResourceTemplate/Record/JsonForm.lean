import ResourceTemplate.Json.Printer
import ResourceTemplate.Record.Edit

/-! The JSON forms of records and of changes. A record's form shows strings as text in the
encoding of the settings, while a change keeps their bytes. -/
namespace ResourceTemplate

def Value.toJson (settings : Settings) : Value → Json
  | .int n => .integer n
  | .uint n => .integer n
  | .bool b => .bool b
  | .text bytes => .string (String.ofList (settings.charset.decode bytes))

def Bytes.toJson (bytes : Bytes) : Json := .array (bytes.map fun b => .integer b.toNat)

def Value.toTaggedJson : Value → Json
  | .int n => .object [("Int", .integer n)]
  | .uint n => .object [("UInt", .integer n)]
  | .bool b => .object [("Bool", .bool b)]
  | .text bytes => .object [("Text", bytes.toJson)]

def Change.toJsonEntries : Change → List (String × Json)
  | .value old new =>
    [("kind", .string "value"), ("old", old.toTaggedJson), ("new", new.toTaggedJson)]
  | .inserted index => [("kind", .string "item_inserted"), ("index", .integer index)]
  | .removed index => [("kind", .string "item_removed"), ("index", .integer index)]

def Event.toJson (event : Event) : Json :=
  .object (("path", .string event.path.display) :: event.change.toJsonEntries)

def Scalar.toJsonEntries (settings : Settings) (held : Scalar) : List (String × Json) :=
  ("value", held.value.toJson settings) ::
    (held.label.map fun label => ("label", .string label)).toList

def Node.headToJson (node : Node) : List (String × Json) :=
  [("name", .string node.name), ("type", .string node.tag.jsonName),
   ("offset", .integer node.offset), ("length", .integer node.length)]

mutual
def Node.toJson (settings : Settings) : Node → Json
  | .scalar name span held =>
    .object ((Node.scalar name span held).headToJson ++ held.toJsonEntries settings)
  | .branch name span tag children =>
    .object ((Node.branch name span tag children).headToJson ++
      [("children", .array (Node.listToJson settings children))])

def Node.listToJson (settings : Settings) : List Node → List Json
  | [] => []
  | node :: nodes => node.toJson settings :: Node.listToJson settings nodes
end

def Record.toJson (settings : Settings) (record : Record) : Json :=
  .object [("length", .integer record.length),
    ("fields", .array (Node.listToJson settings record.fields)),
    ("trailing", record.trailing.toJson)]

end ResourceTemplate
