import ResourceTemplate.Proofs.Contents

/-! What settling looks at. It makes the places of nodes and the numbers of items anew, so that it
cannot tell trees apart which differ in nothing else; and what it cannot tell apart below a node, it
cannot tell apart above it. -/
namespace ResourceTemplate

mutual
/-- A node without its place and the numbers of its items. -/
def Node.bare : Node → Node
  | .scalar name _ held => .scalar name ⟨0, 0⟩ held
  | .branch name _ tag children =>
    .branch (if tag = .item then "" else name) ⟨0, 0⟩ tag (bareAll children)

def Node.bareAll : List Node → List Node
  | [] => []
  | node :: nodes => node.bare :: bareAll nodes
end

section Bare

variable {nodes others : List Node} {node other : Node}

theorem Node.bareAll_eq (nodes : List Node) : Node.bareAll nodes = nodes.map Node.bare := by
  induction nodes with
  | nil => rfl
  | cons node nodes ih => rw [bareAll, ih, List.map_cons]

@[simp] theorem Node.bareAll_set (nodes : List Node) (position : Nat) (node : Node) :
    Node.bareAll (nodes.set position node) = (Node.bareAll nodes).set position node.bare := by
  simp [bareAll_eq, List.map_set]

theorem Node.getElem?_bareAll {position : Nat} (there : nodes[position]? = some node) :
    (Node.bareAll nodes)[position]? = some node.bare := by
  rw [bareAll_eq, List.getElem?_map, there]
  rfl

@[simp] theorem Node.children_bare (node : Node) :
    node.bare.children = Node.bareAll node.children := by
  cases node <;> rfl

theorem Node.children_of_bare (same : node.bare = other.bare) :
    Node.bareAll node.children = Node.bareAll other.children := by
  simpa using congrArg Node.children same

mutual
/-- The contents of a node say what it is apart from its place. -/
theorem Node.bare_content : (node : Node) → node.content.bare = node.bare
  | .scalar .. => rfl
  | .branch name span tag children => by
    rw [Node.content, Node.bare, Node.bare, Node.bareAll_contents children]

theorem Node.bareAll_contents :
    (nodes : List Node) → Node.bareAll (Node.contents nodes) = Node.bareAll nodes
  | [] => rfl
  | node :: nodes => by
    rw [Node.contents, Node.bareAll, Node.bareAll, Node.bare_content node,
      Node.bareAll_contents nodes]
end

/-- A list that has the contents of another one but for one place differs from it there alone. -/
theorem Node.bareAll_of_contents {position : Nat}
    (same : Node.contents others = (Node.contents nodes).set position other.content) :
    Node.bareAll others = (Node.bareAll nodes).set position other.bare := by
  rw [← bareAll_contents others, same, bareAll_set, bareAll_contents, bare_content]

end Bare

/-- Settling cannot tell the two levels apart, wherever they stand. -/
def SettlesAlike (fields : List Field) (nodes others : List Node) : Prop :=
  ∀ parent start, settleLevel fields nodes parent start = settleLevel fields others parent start

def ItemsAlike (fields : List Field) (item other : Node) : Prop :=
  item.tag = other.tag ∧ SettlesAlike fields item.children other.children

def Field.SettlesAlike (field : Field) (node other : Node) : Prop :=
  ∀ before path start,
    settleField field node before path start = settleField field other before path start

section Alike

variable {fields inner : List Field} {nodes others last items : List Node} {name other : String}
  {repetition : Repetition} {condition : Option Condition} {span place : Span}

theorem SettlesAlike.refl (fields : List Field) (nodes : List Node) : SettlesAlike fields nodes nodes :=
  fun _ _ => rfl

theorem SettlesAlike.trans (first : SettlesAlike fields nodes others)
    (second : SettlesAlike fields others last) : SettlesAlike fields nodes last :=
  fun parent start => (first parent start).trans (second parent start)

theorem SettlesAlike.of_fields (shaped : Field.ShapedAll fields nodes)
    (again : Field.ShapedAll fields others)
    (alike : ∀ parent start,
      settleFields fields nodes [] parent start = settleFields fields others [] parent start) :
    SettlesAlike fields nodes others := by
  intro parent start
  rw [settleLevel, settleLevel, settleWith, settleWith, checkShape_eq_ok.mpr shaped.names,
    checkShape_eq_ok.mpr again.names, alike]

theorem SettlesAlike.composite (alike : SettlesAlike inner nodes others) :
    (Field.composite name inner).SettlesAlike (.branch other span .composite nodes)
      (.branch other place .composite others) := by
  intro before path start
  have same := alike path start
  unfold settleLevel at same
  simp only [settleField, settleBranch, Node.name_branch, same]

theorem ItemsAlike.refl (fields : List Field) (item : Node) : ItemsAlike fields item item :=
  ⟨rfl, .refl fields item.children⟩

theorem settleItem_congr {item other : Node} (alike : ItemsAlike inner item other) (path : Path)
    (index start : Nat) :
    settleItem inner path index item start = settleItem inner path index other start := by
  obtain ⟨kind, alike⟩ := alike
  cases item with
  | scalar => cases other with
    | scalar => rfl
    | branch => contradiction
  | branch name span tag children => cases other with
    | scalar => contradiction
    | branch name place _ others =>
      cases kind
      have same : settleLevel inner children (path.index index) start =
        settleLevel inner others (path.index index) start := alike _ start
      simp only [settleItem, settleBranch, same]

theorem settleItems_congr (alike : List.Forall₂ (ItemsAlike inner) items others) (path : Path)
    (index start : Nat) :
    settleItems (settleItem inner path) items index start =
      settleItems (settleItem inner path) others index start := by
  induction alike generalizing index start with
  | nil => rfl
  | cons head _ ih => simp only [settleItems, settleItem_congr head, ih]

/-- Items that are made or cut off are so in either list. -/
theorem fillItems_alike (inner : List Field) (repetition : Repetition) {alike : Node → Node → Prop}
    (same : ∀ item, alike item item) (each : List.Forall₂ alike items others) :
    List.Forall₂ alike (fillItems inner repetition items) (fillItems inner repetition others) := by
  cases repetition with
  | fixed count =>
    rw [fillItems, fillItems, each.length_eq]
    exact List.rel_append (List.forall₂_take count each) (List.forall₂_same.mpr fun item _ => same item)
  | counted | untilEnd | zeroTerminated => exact each

theorem SettlesAlike.group (alike : List.Forall₂ (ItemsAlike inner) items others) :
    (Field.group name inner repetition condition).SettlesAlike (.branch other span .group items)
      (.branch other place .group others) := by
  intro before path start
  have same := settleItems_congr (fillItems_alike inner repetition (ItemsAlike.refl inner) alike) path 0
    start
  unfold settleItem settleLevel at same
  simp only [settleField, settleBranch, Node.name_branch] at same ⊢
  simp only [same]

/-- Items that are alike but for places and numbers are settled alike if their fields are. -/
theorem forall₂_of_bare
    (alike : ∀ children others, Field.ShapedAll inner children → Field.ShapedAll inner others →
      Node.bareAll children = Node.bareAll others → SettlesAlike inner children others)
    (shaped : ∀ item ∈ items, Field.ItemShaped inner item)
    (again : ∀ item ∈ others, Field.ItemShaped inner item)
    (same : Node.bareAll items = Node.bareAll others) :
    List.Forall₂ (ItemsAlike inner) items others := by
  induction items generalizing others with
  | nil =>
    cases others with
    | nil => exact .nil
    | cons => nomatch same
  | cons item items ih =>
    cases others with
    | nil => nomatch same
    | cons other others =>
      obtain ⟨head, tail⟩ := List.cons.inj same
      obtain ⟨first, shaped⟩ := List.forall_mem_cons.mp shaped
      obtain ⟨second, again⟩ := List.forall_mem_cons.mp again
      exact .cons ⟨first.1.trans second.1.symm, alike _ _ first.2 second.2 (Node.children_of_bare head)⟩
        (ih shaped again tail)

end Alike

mutual
theorem settleField_bare :
    (field : Field) → (node other : Node) → field.Shaped node → field.Shaped other →
      node.bare = other.bare → field.SettlesAlike node other
  | .scalar name type, _, _, ⟨span, held, same, _⟩, ⟨place, value, again, _⟩, bare => by
    subst same again
    obtain rfl : held = value := (Node.scalar.inj bare).2.2
    exact fun _ _ _ => rfl
  | .composite name fields, _, _, ⟨span, children, same, shaped⟩, ⟨place, others, again, reshaped⟩,
      bare => by
    subst same again
    have bare : Node.bareAll children = Node.bareAll others := Node.children_of_bare bare
    exact (SettlesAlike.of_fields shaped reshaped
      (settleFields_bare fields children others shaped reshaped bare [])).composite
  | .group name fields repetition condition, _, _, ⟨span, items, same, shaped⟩,
      ⟨place, others, again, reshaped⟩, bare => by
    subst same again
    have bare : Node.bareAll items = Node.bareAll others := Node.children_of_bare bare
    exact SettlesAlike.group (forall₂_of_bare (fun children others shaped reshaped bare =>
      .of_fields shaped reshaped
        (settleFields_bare fields children others shaped reshaped bare [])) shaped reshaped bare)

theorem settleFields_bare :
    (fields : List Field) → (nodes others : List Node) → Field.ShapedAll fields nodes →
      Field.ShapedAll fields others → Node.bareAll nodes = Node.bareAll others →
      (before : List Node) → (parent : Path) → (start : Nat) →
      settleFields fields nodes before parent start = settleFields fields others before parent start
  | [], _, _, empty, also, _, _, _, _ => by rw [empty, also]
  | field :: fields, _, _, ⟨node, nodes, same, first, follow⟩, ⟨other, others, again, second, later⟩,
      bare, before, parent, start => by
    subst same again
    obtain ⟨head, tail⟩ := List.cons.inj bare
    have alike := settleField_bare field node other first second head
    simp only [settleFields, alike before (parent.child field.name) start,
      settleFields_bare fields nodes others follow later tail]
end

/-- Settling looks at nothing but the bare trees. -/
theorem settlesAlike_of_bare {fields : List Field} {nodes others : List Node}
    (shaped : Field.ShapedAll fields nodes) (again : Field.ShapedAll fields others)
    (bare : Node.bareAll nodes = Node.bareAll others) : SettlesAlike fields nodes others :=
  .of_fields shaped again (settleFields_bare fields nodes others shaped again bare [])

section Changed

variable {fields inner : List Field} {nodes items : List Node} {position : Nat} {field : Field}
  {node other : Node}

/-- Exchanging a node for one that is settled alike changes nothing above it. -/
theorem settlesAlike_set (shaped : Field.ShapedAll fields nodes)
    (declared : fields[position]? = some field) (there : nodes[position]? = some node)
    (described : field.Shaped other) (alike : field.SettlesAlike other node) :
    SettlesAlike fields (nodes.set position other) nodes := by
  refine .of_fields (shaped.set declared described) shaped fun parent start => ?_
  generalize ([] : List Node) = before
  clear shaped
  induction fields generalizing nodes position before start with
  | nil => simp at declared
  | cons first fields ih =>
    cases nodes with
    | nil => simp at there
    | cons head nodes =>
      cases position with
      | zero =>
        obtain ⟨rfl, rfl⟩ : first = field ∧ head = node := by simpa using And.intro declared there
        simp only [List.set_cons_zero, settleFields, alike before]
      | succ position =>
        have rest (start : Nat) (before : List Node) :
            settleFields fields (nodes.set position other) before parent start =
              settleFields fields nodes before parent start :=
          ih (by simpa using declared) (by simpa using there) start before
        simp only [List.set_cons_succ, settleFields, rest]

theorem forall₂_set (there : items[position]? = some node) (alike : ItemsAlike inner other node) :
    List.Forall₂ (ItemsAlike inner) (items.set position other) items := by
  induction items generalizing position with
  | nil => simp at there
  | cons item items ih =>
    cases position with
    | zero =>
      obtain rfl : item = node := by simpa using there
      exact .cons alike (List.forall₂_same.mpr fun item _ => .refl inner item)
    | succ position => exact .cons (.refl inner item) (ih (by simpa using there))

end Changed

namespace Record

variable {record other : Record}

theorem commit_congr {nodes others : List Node}
    (alike : SettlesAlike record.template nodes others) :
    record.commit nodes = record.commit others := by
  rw [commit, commit, alike]

/-- What is adopted depends on the tree, the template and the bytes at the end. -/
theorem commit_eq_commit (same : other.template = record.template)
    (trailing : other.trailing = record.trailing) (nodes : List Node) :
    other.commit nodes = record.commit nodes := by
  rw [commit, commit, same, trailing]

/-- There is one way to lay out a tree. -/
theorem Laid.eq_of_bare (formed : record.template.WellFormed) (laid : record.LaidOut)
    (again : other.LaidOut) (same : other.template = record.template)
    (trailing : other.trailing = record.trailing)
    (bare : Node.bareAll other.fields = Node.bareAll record.fields) : other = record := by
  have settled : other.commit other.fields = .ok other := again.commit_eq (same ▸ formed)
  have alike : SettlesAlike record.template other.fields record.fields :=
    settlesAlike_of_bare (same ▸ Field.LaidAll.shaped _ _ _ _ again.laid)
      (Field.LaidAll.shaped _ _ _ _ laid.laid) bare
  rw [commit_eq_commit same trailing, commit_congr alike, laid.commit_eq formed] at settled
  exact (Except.ok.inj settled).symm

end Record
end ResourceTemplate
