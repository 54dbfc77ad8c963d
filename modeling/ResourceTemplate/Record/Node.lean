import ResourceTemplate.Tag
import ResourceTemplate.Value

/-! The decoded tree. Each node knows its name and the bytes it takes up; scalars hold a value,
and composites, groups and items hold their children in template order. -/
namespace ResourceTemplate

structure Span where
  offset : Nat
  length : Nat
  deriving DecidableEq, Repr

/-- The raw bits are those that a boolean was read from; an edit drops them. -/
structure Scalar where
  tag : ScalarTag
  value : Value
  label : Option String := none
  raw : Option Nat := none
  deriving DecidableEq, Repr

inductive Node where
  | scalar (name : String) (span : Span) (held : Scalar)
  | branch (name : String) (span : Span) (tag : BranchTag) (children : List Node)
  deriving Repr

namespace Node

def name : Node → String
  | scalar name .. => name
  | branch name .. => name

def span : Node → Span
  | scalar _ span _ => span
  | branch _ span .. => span

def offset (node : Node) : Nat := node.span.offset

def length (node : Node) : Nat := node.span.length

def stop (node : Node) : Nat := node.offset + node.length

def tag : Node → Tag
  | scalar _ _ held => .scalar held.tag
  | branch _ _ tag _ => .branch tag

def scalar? : Node → Option Scalar
  | scalar _ _ held => some held
  | branch .. => none

def value? (node : Node) : Option Value := node.scalar?.map (·.value)

def label? (node : Node) : Option String := node.scalar?.bind (·.label)

def children : Node → List Node
  | scalar .. => []
  | branch _ _ _ children => children

def child? (node : Node) (name : String) : Option Node :=
  node.children.find? (·.name == name)

def mapChildren (f : List Node → List Node) : Node → Node
  | branch name span tag children => branch name span tag (f children)
  | node => node

def mapScalar (f : Scalar → Scalar) : Node → Node
  | scalar name span held => scalar name span (f held)
  | node => node

section

variable (name : String) (span : Span) (held : Scalar) (tag : BranchTag) (children : List Node)

@[simp] theorem name_scalar : (scalar name span held).name = name := rfl
@[simp] theorem name_branch : (branch name span tag children).name = name := rfl
@[simp] theorem offset_scalar : (scalar name span held).offset = span.offset := rfl
@[simp] theorem offset_branch : (branch name span tag children).offset = span.offset := rfl
@[simp] theorem length_scalar : (scalar name span held).length = span.length := rfl
@[simp] theorem length_branch : (branch name span tag children).length = span.length := rfl
@[simp] theorem tag_scalar : (scalar name span held).tag = .scalar held.tag := rfl
@[simp] theorem tag_branch : (branch name span tag children).tag = .branch tag := rfl
@[simp] theorem scalar?_scalar : (scalar name span held).scalar? = some held := rfl
@[simp] theorem scalar?_branch : (branch name span tag children).scalar? = none := rfl
@[simp] theorem value?_scalar : (scalar name span held).value? = some held.value := rfl
@[simp] theorem value?_branch : (branch name span tag children).value? = none := rfl
@[simp] theorem children_branch : (branch name span tag children).children = children := rfl

end

theorem eq_branch_of_tag {node : Node} {tag : BranchTag} (kind : node.tag = .branch tag) :
    ∃ name span children, node = .branch name span tag children := by
  cases node with
  | scalar => contradiction
  | branch name span found children =>
    cases kind
    exact ⟨name, span, children, rfl⟩

theorem tag_mapChildren (f : List Node → List Node) (node : Node) :
    (node.mapChildren f).tag = node.tag := by
  cases node <;> rfl

end Node

mutual
def Node.decEq : (a b : Node) → Decidable (a = b)
  | .scalar name span held, .scalar name' span' held' =>
    decidable_of_iff (name = name' ∧ span = span' ∧ held = held') (by simp)
  | .branch name span tag children, .branch name' span' tag' children' =>
    have := Node.decEqList children children'
    decidable_of_iff (name = name' ∧ span = span' ∧ tag = tag' ∧ children = children') (by simp)
  | .scalar .., .branch .. => isFalse nofun
  | .branch .., .scalar .. => isFalse nofun

def Node.decEqList : (a b : List Node) → Decidable (a = b)
  | [], [] => isTrue rfl
  | a :: as, b :: bs =>
    have := Node.decEq a b
    have := Node.decEqList as bs
    decidable_of_iff (a = b ∧ as = bs) (by simp)
  | [], _ :: _ => isFalse nofun
  | _ :: _, [] => isFalse nofun
end

instance : DecidableEq Node := Node.decEq

end ResourceTemplate
