import ResourceTemplate.Record.Layout
import ResourceTemplate.Record.Locate
import ResourceTemplate.Record.TextEntry

/-! Edits of a record. An edit checks what it is given, changes one place of the tree and has
the whole tree settled; if any of this fails, the record stays as it was. -/
namespace ResourceTemplate

inductive Change where
  | value (old new : Value)
  | inserted (index : Nat)
  | removed (index : Nat)
  deriving DecidableEq, Repr

/-- What an edit did. Changes that follow from it, of counts and offsets, are not listed. -/
structure Event where
  path : Path
  change : Change
  deriving DecidableEq, Repr

def Event.display (event : Event) : String :=
  event.path.display ++
    match event.change with
    | .value old new => ": " ++ old.display ++ " -> " ++ new.display
    | .inserted index => s!": inserted item {index}"
    | .removed index => s!": removed item {index}"

/-- A new value drops the bits that the old one was read from, unless nothing changes. -/
def Scalar.put (held : Scalar) (value : Value) (label : Option String) : Scalar :=
  { held with value := value, label := label,
              raw := if held.value = value then held.raw else none }

def updateAt (f : Node → Node) : (route : List Nat) → List Node → List Node
  | [], nodes => nodes
  | [position], nodes => nodes.modify position f
  | position :: route, nodes =>
    nodes.modify position (Node.mapChildren (updateAt f route))

def nodeAt? (node : Node) : (route : List Nat) → Option Node
  | [] => some node
  | position :: route => do
    let child ← node.children[position]?
    nodeAt? child route

namespace Record

def scalarType (place : Place) (path : Path) : Except CodecError (String × ScalarType) :=
  match place.field with
  | some (.scalar name type) => return (name, type)
  | _ => throw (.refused path .noValue)

def commit (record : Record) (fields : List Node) : Except CodecError Record := do
  let (fields, stop) ← settleLevel record.template fields Path.root 0
  return { record with fields := fields, laidOut := stop }

/-- Count fields follow their group and cannot be set. -/
def setValue (record : Record) (path : Path) (value : Value) :
    Except CodecError (Event × Record) := do
  let place ← record.locate path
  let (name, type) ← scalarType place path
  if let some group := Template.groupCountedBy? place.owner name then
    throw (.refused path (.derivedCount group.name))
  let value ← type.accept value path
  let some held := place.node.scalar? | throw (.unknownPath path)
  let put := Node.mapScalar (Scalar.put · value (type.label? value))
  let record ← record.commit (updateAt put place.route record.fields)
  return (⟨path, .value held.value value⟩, record)

def setText (record : Record) (settings : Settings) (path : Path) (text : String) :
    Except CodecError (Event × Record) := do
  let place ← record.locate path
  let (_, type) ← scalarType place path
  match TextEntry.parse type settings text with
  | .ok value => record.setValue path value
  | .error reason => throw (.refused path reason)

/-- The item fields of a group that items may be added to or taken from. -/
def resizableGroup (record : Record) (place : Place) (path : Path) :
    Except CodecError (List Field) := do
  let some (.group _ fields repetition condition) := place.field
    | throw (.refused path .notGroup)
  if let .fixed count := repetition then throw (.refused path (.fixedItems count))
  if let some condition := condition then
    let siblings := ((nodeAt? record.root place.route.dropLast).map Node.children).getD []
    let value ← siblingValue siblings condition.field path 0
    if ¬ condition.holds value.number then throw (.refused path (.absentGroup condition.field))
  return fields

/-- A default item at `index`, which may be the number of items. -/
def insertItem (record : Record) (path : Path) (index : Nat) :
    Except CodecError (Event × Record) := do
  let place ← record.locate path
  let fields ← record.resizableGroup place path
  if place.node.children.length < index then throw (.unknownPath (path.index index))
  let put := Node.mapChildren (·.insertIdx index (defaultItem fields index))
  let record ← record.commit (updateAt put place.route record.fields)
  return (⟨path, .inserted index⟩, record)

def removeItem (record : Record) (path : Path) (index : Nat) :
    Except CodecError (Event × Record) := do
  let place ← record.locate path
  let _ ← record.resizableGroup place path
  if place.node.children.length ≤ index then throw (.unknownPath (path.index index))
  let put := Node.mapChildren (·.eraseIdx index)
  let record ← record.commit (updateAt put place.route record.fields)
  return (⟨path, .removed index⟩, record)

end Record

inductive Edit where
  | setValue (path : Path) (value : Value)
  | setText (path : Path) (text : String)
  | insertItem (path : Path) (index : Nat)
  | removeItem (path : Path) (index : Nat)
  deriving DecidableEq, Repr

def Record.apply (record : Record) (settings : Settings) :
    Edit → Except CodecError (Event × Record)
  | .setValue path value => record.setValue path value
  | .setText path text => record.setText settings path text
  | .insertItem path index => record.insertItem path index
  | .removeItem path index => record.removeItem path index

end ResourceTemplate
