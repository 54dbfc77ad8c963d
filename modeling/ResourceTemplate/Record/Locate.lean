import ResourceTemplate.Record.Basic

/-! Following a path through a template and a tree at once. -/
namespace ResourceTemplate

inductive Scope where
  | fields (fields : List Field)
  | items (fields : List Field)
  | leaf

/-- Where a path leads: the child positions from the root, the node there, its field, which
items do not have, and the field list that declares it. -/
structure Place where
  route : List Nat
  node : Node
  field : Option Field
  owner : List Field

def Field.scope : Field → Scope
  | .scalar .. => .leaf
  | .composite _ fields => .fields fields
  | .group _ fields .. => .items fields

def Place.step? (place : Place) : Scope → Segment → Option (Place × Scope)
  | .fields fields, .name name => do
    let position ← Template.position? fields name
    let field ← fields[position]?
    let node ← place.node.children[position]?
    return (⟨place.route ++ [position], node, some field, fields⟩, field.scope)
  | .items fields, .index index => do
    let node ← place.node.children[index]?
    return (⟨place.route ++ [index], node, none, place.owner⟩, .fields fields)
  | _, _ => none

def Place.follow? (place : Place) (scope : Scope) : Path → Option Place
  | [] => some place
  | segment :: rest => do
    let (place, scope) ← place.step? scope segment
    place.follow? scope rest

namespace Record

def start (record : Record) : Place := ⟨[], record.root, none, record.template⟩

def locate (record : Record) (path : Path) : Except CodecError Place :=
  match record.start.follow? (.fields record.template) path with
  | some place => return place
  | none => throw (.unknownPath path)

def get (record : Record) (path : Path) : Except CodecError Node :=
  return (← record.locate path).node

def value (record : Record) (path : Path) : Except CodecError Value := do
  match (← record.get path).value? with
  | some value => return value
  | none => throw (.refused path .noValue)

end Record

structure FieldView where
  path : Path
  tag : Tag
  value : Option Value
  label : Option String
  offset : Nat
  length : Nat
  deriving DecidableEq, Repr

/-- Items are named by their position and fields by their name. -/
def Node.pathIn (node : Node) (parent : Path) (position : Nat) : Path :=
  if node.tag = .branch .item then parent.index position else parent.child node.name

mutual
def Node.views (path : Path) : Node → List FieldView
  | .scalar _ span held =>
    [⟨path, .scalar held.tag, some held.value, held.label, span.offset, span.length⟩]
  | .branch _ span tag children =>
    ⟨path, .branch tag, none, none, span.offset, span.length⟩ :: viewsFrom path 0 children

def viewsFrom (parent : Path) (position : Nat) : List Node → List FieldView
  | [] => []
  | node :: nodes =>
    node.views (node.pathIn parent position) ++ viewsFrom parent (position + 1) nodes
end

/-- Every node of a record in depth-first order. -/
def Record.views (record : Record) : List FieldView := viewsFrom Path.root 0 record.fields

end ResourceTemplate
