import ResourceTemplate.Proofs.EditedTrees

/-! Settling again. Settling changes neither the names of nodes nor, until the counts are set,
what scalars hold, so a level that comes out as it went in was settled before. -/
namespace ResourceTemplate

/-- What a node shows its siblings: its name and, of a scalar, what it holds. -/
def Node.face (node : Node) : String × Option Scalar := (node.name, node.scalar?)

theorem sibling?_congr {nodes others : List Node} (same : nodes.map Node.face = others.map Node.face)
    (name : String) : sibling? nodes name = sibling? others name := by
  induction nodes generalizing others with
  | nil =>
    obtain rfl : others = [] := by simpa using same.symm
    rfl
  | cons node nodes ih =>
    cases others with
    | nil => nomatch same
    | cons other others =>
      obtain ⟨head, tail⟩ := List.cons.inj same
      obtain ⟨named, holds⟩ := Prod.mk.inj head
      have rest := ih tail
      by_cases here : node.name = name
      · simp [sibling?, here, ← named, Node.value?, holds]
      · simpa [sibling?, here, ← named] using rest

theorem verdict?_congr {nodes others : List Node} (same : nodes.map Node.face = others.map Node.face)
    (condition : Option Condition) : verdict? condition nodes = verdict? condition others := by
  cases condition with
  | none => rfl
  | some condition => simp [verdict?, sibling?_congr same]

section Faces

variable {fields : List Field} {nodes middle : List Node} {before : List Node} {parent : Path}
  {start stop : Nat}

theorem settleField_face {field : Field} {node again : Node} {path : Path}
    (settled : settleField field node before path start = .ok again) : again.face = node.face := by
  cases field with
  | scalar name type => cases node <;> rw [← pure_eq_ok.mp settled] <;> rfl
  | composite name fields =>
    obtain ⟨_, _, _, _, rfl⟩ := branch_of_settled settled nofun
    obtain ⟨_, _, _, rfl⟩ := settleField_composite.mp settled
    rfl
  | group name fields repetition condition =>
    obtain ⟨_, _, _, _, rfl⟩ := branch_of_settled settled nofun
    obtain ⟨_, rfl⟩ | ⟨_, _, _, _, rfl⟩ := settleField_group.mp settled
    · rfl
    · rfl

theorem settleFields_face
    (settled : settleFields fields nodes before parent start = .ok (middle, stop)) :
    middle.map Node.face = nodes.map Node.face := by
  induction fields generalizing nodes before start middle with
  | nil =>
    obtain ⟨rfl, _⟩ := Prod.mk.inj (pure_eq_ok.mp settled)
    rfl
  | cons field fields ih =>
    cases nodes with
    | nil => contradiction
    | cons node nodes =>
      obtain ⟨again, rest, head, tail, rfl⟩ := settleFields_cons.mp settled
      rw [List.map_cons, List.map_cons, settleField_face head, ih tail]

/-- A recount that leaves what scalars hold leaves everything. -/
theorem Recounted.eq_of_face {counts : List (String × Int)}
    (recounted : Recounted counts fields nodes middle)
    (same : nodes.map Node.face = middle.map Node.face) : nodes = middle := by
  induction recounted with
  | nil => rfl
  | cons kept _ ih =>
    obtain ⟨head, tail⟩ := List.cons.inj same
    rw [ih tail]
    rcases kept with rfl | ⟨_, _, _, old, held, _, _, _, _, rfl, rfl, _⟩
    · rfl
    · obtain rfl : old = held := Option.some.inj (Prod.mk.inj head).2
      rfl

end Faces

section Fixed

variable {fields : List Field} {nodes : List Node} {parent : Path} {start stop : Nat}

/-- A level that settling leaves as it is is settled, and so it was before its counts were set. -/
theorem settleLevel_fixed (checked : Template.check fields = .ok ())
    (nested : Field.AllNested (·.check = .ok ()) fields) (shaped : Field.ShapedAll fields nodes)
    (fixed : settleLevel fields nodes parent start = .ok (nodes, stop)) :
    settleFields fields nodes [] parent start = .ok (nodes, stop) ∧ Settled fields nodes := by
  have fills := settleFields_lays fields nested nodes shaped [] parent start
  obtain ⟨middle, first, recounted, held⟩ := settleWith_recounts checked fills fixed
  obtain rfl := recounted.eq_of_face (settleFields_face first)
  refine ⟨first, fun pair member => ?_⟩
  exact settled_of_filled member ((fills _ _ first).2 pair member) rfl held

theorem settleItems_fixed {rule : LevelRule} {items : List Node} {index : Nat} {path : Path}
    (kinds : ∀ node ∈ items, node.tag = .branch .item)
    (fixes : ∀ node ∈ items, ∀ parent start stop,
      settleLevel fields node.children parent start = .ok (node.children, stop) →
      Field.LevelLaid rule fields start node.children stop)
    (fixed : settleItems (settleItem fields path) items index start = .ok (items, stop)) :
    ItemsLaid (Field.LevelLaid rule fields) index start items stop := by
  induction items generalizing index start with
  | nil => exact (Prod.mk.inj (pure_eq_ok.mp fixed)).2.symm
  | cons node items ih =>
    obtain ⟨_, _, first, follow, same⟩ := settleItems_cons.mp fixed
    obtain ⟨rfl, rfl⟩ := List.cons.inj same
    obtain ⟨kind, kinds⟩ := List.forall_mem_cons.mp kinds
    obtain ⟨head, tail⟩ := List.forall_mem_cons.mp fixes
    obtain ⟨inner, middle, inside, made⟩ := (settleItem_eq_ok kind).mp first
    have level := head (path.index index) start middle (by rw [inside, made, Node.children_branch])
    have follow := ih kinds tail follow
    rw [made] at level follow ⊢
    apply ItemsLaid.cons level
    rwa [Node.stop, Node.offset_branch, Node.length_branch, Nat.add_sub_cancel' level.2.le] at follow

end Fixed

mutual
/-- A node that settling leaves as it is is settled throughout. -/
theorem settleField_fixed :
    (field : Field) → field.Nested (·.check = .ok ()) → (node : Node) → field.Shaped node →
      (before : List Node) → (path : Path) → (start : Nat) →
      settleField field node before path start = .ok node → field.Laid Settled start node
  | .scalar name type, _, _, ⟨span, held, same, holds⟩, _, _, start, fixed => by
    subst same
    rw [← pure_eq_ok.mp fixed]
    exact ⟨held, rfl, holds⟩
  | .composite name fields, ⟨checked, nested⟩, _, ⟨span, children, same, shaped⟩, _, path, start,
      fixed => by
    subst same
    obtain ⟨_, stop, level, made⟩ := settleField_composite.mp fixed
    obtain ⟨_, rfl, _, rfl⟩ := Node.branch.inj made
    obtain ⟨first, kept⟩ := settleLevel_fixed checked nested shaped level
    have laid := settleFields_fixed fields nested _ shaped [] path start stop first
    exact Field.LevelLaid.composite ⟨kept, laid⟩
  | .group name fields repetition condition, ⟨checked, nested⟩, _, ⟨span, items, same, shaped⟩,
      before, path, start, fixed => by
    subst same
    rcases settleField_group.mp fixed with ⟨_, made⟩ | ⟨_, _, last, several, made⟩
    · rw [made]
      exact Field.laid_absent
    · obtain ⟨_, rfl, _, rfl⟩ := Node.branch.inj made
      have filled : fillItems fields repetition items = items := fillItems_eq fun count same => by
        rw [settleItems_length several, same, length_fillItems]
      rw [filled] at several
      have laid : ItemsLaid (Field.LevelLaid Settled fields) 0 start items last := by
        refine settleItems_fixed (fun node member => (shaped node member).1) ?_ several
        intro node member path start stop level
        have shaped := (shaped node member).2
        obtain ⟨first, kept⟩ := settleLevel_fixed checked nested shaped level
        exact ⟨kept, settleFields_fixed fields nested _ shaped [] path start stop first⟩
      exact laid.group

theorem settleFields_fixed :
    (fields : List Field) → Field.AllNested (·.check = .ok ()) fields → (nodes : List Node) →
      Field.ShapedAll fields nodes → (before : List Node) → (parent : Path) → (start stop : Nat) →
      settleFields fields nodes before parent start = .ok (nodes, stop) →
      Field.LaidAll Settled fields start nodes stop
  | [], _, _, empty, _, _, _, _, fixed => by
    exact ⟨empty, (Prod.mk.inj (pure_eq_ok.mp fixed)).2.symm⟩
  | field :: fields, ⟨formed, nested⟩, _, ⟨node, rest, same, first, follow⟩, before, parent, start,
      stop, fixed => by
    subst same
    obtain ⟨_, _, head, tail, made⟩ := settleFields_cons.mp fixed
    obtain ⟨rfl, rfl⟩ := List.cons.inj made
    exact ⟨_, _, rfl, settleField_fixed field formed _ first before _ start head,
      settleFields_fixed fields nested _ follow _ parent _ _ tail⟩
end

end ResourceTemplate
