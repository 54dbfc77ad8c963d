import ResourceTemplate.Record.Error
import ResourceTemplate.Record.Node
import ResourceTemplate.Template.Basic

/-! Groups refer to scalars of the same record: for the number of their items, and for the
condition under which they are present. -/
namespace ResourceTemplate

def siblingValue (siblings : List Node) (name : String) (path : Path) (offset : Nat) :
    Except CodecError Value :=
  match (siblings.find? (·.name == name)).bind Node.value? with
  | some value => return value
  | none => throw (.mismatch path offset (.missingReference name))

/-- Without a condition a group is always present. -/
def isPresent (condition : Option Condition) (siblings : List Node) (path : Path)
    (offset : Nat) : Except CodecError Bool :=
  match condition with
  | none => return true
  | some condition => do
    let value ← siblingValue siblings condition.field path offset
    return condition.holds value.number

def storedCount (siblings : List Node) (countField : String) (zeroBased : Bool) (path : Path)
    (offset : Nat) : Except CodecError Int := do
  let value ← siblingValue siblings countField path offset
  match value.integer? with
  | some stored => return if zeroBased then stored + 1 else stored
  | none => throw (.mismatch path offset (.countNotInteger countField))

def countValue (zeroBased : Bool) (items : Nat) : Int :=
  if zeroBased then items - 1 else items

/-- The count fields of the present groups of a field list, with the values they must hold. The
count field of an absent group is left alone. -/
def derivedCounts (fields : List Field) (nodes : List Node) (parent : Path) (offset : Nat) :
    Except CodecError (List (String × Int)) := do
  let counts ← (fields.zip nodes).mapM fun (field, node) => do
    match field with
    | .group name _ (.counted countField zeroBased) condition =>
      if ← isPresent condition nodes (parent.child name) offset then
        return [(countField, countValue zeroBased node.children.length)]
      else return []
    | _ => return []
  return counts.flatten

/-- A tree has one node per field, under the names of the fields. -/
def checkShape (fields : List Field) (nodes : List Node) (parent : Path) (offset : Nat) :
    Except CodecError Unit := do
  if nodes.length ≠ fields.length then
    throw (.mismatch parent offset (.wrongFieldCount nodes.length fields.length))
  match (fields.zip nodes).find? fun (field, node) => field.name != node.name with
  | some (field, node) =>
    throw (.mismatch parent node.offset (.wrongFieldName node.name field.name))
  | none => return

end ResourceTemplate
