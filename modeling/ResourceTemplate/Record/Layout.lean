import ResourceTemplate.Record.Accept

/-! Settling a tree after an edit: absent groups are emptied, fixed groups are filled or cut,
offsets and lengths are computed anew, and count fields follow the number of items. -/
namespace ResourceTemplate

mutual
/-- A freshly made field. Groups start empty; settling fills those of a fixed size. -/
def Field.default : Field → Node
  | .scalar name type => .scalar name ⟨0, 0⟩ type.default
  | .composite name fields => .branch name ⟨0, 0⟩ .composite (defaults fields)
  | .group name .. => .branch name ⟨0, 0⟩ .group []

def Field.defaults : List Field → List Node
  | [] => []
  | field :: fields => field.default :: defaults fields
end

def defaultItem (fields : List Field) (index : Nat) : Node :=
  .branch (toString index) ⟨0, 0⟩ .item (Field.defaults fields)

/-- A fixed group is cut to its number of items or filled up with default ones. -/
def fillItems (fields : List Field) (repetition : Repetition) (items : List Node) : List Node :=
  match repetition with
  | .fixed count =>
    items.take count ++
      (List.range' items.length (count - items.length)).map (defaultItem fields)
  | _ => items

/-- Sets one count field. The group that it counts is to blame when the number does not fit. -/
def syncCount (fields : List Field) (parent : Path) (nodes : List Node)
    (entry : String × Int) : Except CodecError (List Node) := do
  let (countField, count) := entry
  let path := parent.child countField
  let some position := Template.position? fields countField | throw (.unknownPath path)
  let some node := nodes[position]? | throw (.unknownPath path)
  if (node.value?.bind Value.integer?) = some count then return nodes
  let group := ((Template.groupCountedBy? fields countField).map (parent.child ·.name)).getD path
  match fields[position]? with
  | some (.scalar _ type) =>
    match type.accept (.int count) path with
    | .ok value =>
      let held : Scalar := ⟨type.tag, value, type.label? value, none⟩
      return nodes.set position (.scalar node.name node.span held)
    | .error _ => throw (.invalidCount group node.offset count)
  | _ => throw (.invalidCount group node.offset count)

def syncCounts (fields : List Field) (parent : Path) (nodes : List Node)
    (counts : List (String × Int)) : Except CodecError (List Node) :=
  counts.foldlM (syncCount fields parent) nodes

/-- Settles a field list by settling its fields one after the other and then its counts. The
result comes with the offset just past the last field. -/
def settleWith (settle : List Node → Except CodecError (List Node × Nat)) (fields : List Field)
    (nodes : List Node) (parent : Path) (start : Nat) :
    Except CodecError (List Node × Nat) := do
  checkShape fields nodes parent start
  let (nodes, stop) ← settle nodes
  let counts ← derivedCounts fields nodes parent start
  let nodes ← syncCounts fields parent nodes counts
  return (nodes, stop)

/-- Settles what a branch holds. The node keeps its kind. -/
def settleBranch (declared : BranchTag) (settle : List Node → Except CodecError (List Node × Nat))
    (node : Node) (name : String) (path : Path) (start : Nat) : Except CodecError Node :=
  match node with
  | .branch _ _ tag children => do
    let (children, stop) ← settle children
    return .branch name ⟨start, stop - start⟩ tag children
  | .scalar .. => throw (.mismatch path start (.holdsValue declared))

abbrev ItemSettler := (index : Nat) → Node → (start : Nat) → Except CodecError Node

def settleItems (item : ItemSettler) :
    List Node → (index start : Nat) → Except CodecError (List Node × Nat)
  | [], _, start => return ([], start)
  | node :: nodes, index, start => do
    let node ← item index node start
    let (nodes, stop) ← settleItems item nodes (index + 1) node.stop
    return (node :: nodes, stop)

mutual
/-- Settles one field at `start`, given the settled fields before it. -/
def settleField :
    Field → Node → (before : List Node) → Path → (start : Nat) → Except CodecError Node
  | .scalar _ type, node, _, _, start =>
    match node with
    | .scalar name _ held => return .scalar name ⟨start, type.encodedLength held.value⟩ held
    | .branch name _ tag children => return .branch name ⟨start, 0⟩ tag children
  | .composite _ fields, node, _, path, start =>
    settleBranch .composite
      (fun children =>
        settleWith (fun nodes => settleFields fields nodes [] path start) fields children path start)
      node node.name path start
  | .group _ fields repetition condition, node, before, path, start => do
    let present ← isPresent condition before path start
    let item : ItemSettler := fun index node start =>
      settleBranch .item
        (fun children =>
          settleWith (fun nodes => settleFields fields nodes [] (path.index index) start)
            fields children (path.index index) start)
        node (toString index) (path.index index) start
    settleBranch .group
      (fun items => do
        if present then
          let (items, stop) ← settleItems item (fillItems fields repetition items) 0 start
          return (items, if repetition = .zeroTerminated then stop + 1 else stop)
        else return ([], start))
      node node.name path start

def settleFields :
    List Field → (nodes before : List Node) → (parent : Path) → (start : Nat) →
      Except CodecError (List Node × Nat)
  | [], nodes, _, _, start => return (nodes, start)
  | field :: _, [], _, parent, _ => throw (.unknownPath (parent.child field.name))
  | field :: fields, node :: nodes, before, parent, start => do
    let node ← settleField field node before (parent.child field.name) start
    let (nodes, stop) ← settleFields fields nodes (before ++ [node]) parent node.stop
    return (node :: nodes, stop)
end

def settleLevel (fields : List Field) (nodes : List Node) (parent : Path) (start : Nat) :
    Except CodecError (List Node × Nat) :=
  settleWith (fun nodes => settleFields fields nodes [] parent start) fields nodes parent start

end ResourceTemplate
