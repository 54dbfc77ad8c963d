import ResourceTemplate.Proofs.TreeLayout
import ResourceTemplate.Record.Decode
import ResourceTemplate.Record.Layout

/-! One step of decoding and of settling: what either does with a field of each kind when it does
not fail. Later proofs refer to these steps and leave the walks over the template closed. -/
namespace ResourceTemplate

section Decode

variable {bound : CountBound} {name : String} {fields : List Field} {earlier : List Node}
  {path : Path} {input rest : Input} {node : Node} {nodes : List Node}

def decodeItem (bound : CountBound) (fields : List Field) (path : Path) : ItemDecoder :=
  fun index input => do
    let (children, rest) ← decodeFields bound fields [] (path.index index) input
    return (.branch (toString index) (input.spanTo rest) .item children, rest)

theorem decodeItem_eq_ok {index : Nat} :
    decodeItem bound fields path index input = .ok (node, rest) ↔
      ∃ children, decodeFields bound fields [] (path.index index) input = .ok (children, rest) ∧
        node = .branch (toString index) (input.spanTo rest) .item children := by
  simp only [decodeItem, bind_eq_ok, pure_eq_ok, Prod.mk.injEq, Prod.exists]
  constructor
  · rintro ⟨children, _, read, rfl, rfl⟩
    exact ⟨children, read, rfl⟩
  · rintro ⟨children, read, rfl⟩
    exact ⟨children, rest, read, rfl, rfl⟩

theorem decodeField_scalar {type : ScalarType} :
    decodeField bound (.scalar name type) earlier path input = .ok (node, rest) ↔
      checkStart (.scalar name type) path input = .ok () ∧
        ∃ held, decodeScalar type path input = .ok (held, rest) ∧
          node = .scalar name (input.spanTo rest) held := by
  rw [decodeField, unit_bind_eq_ok]
  apply and_congr_right
  intro _
  simp only [bind_eq_ok, pure_eq_ok, Prod.mk.injEq, Prod.exists]
  constructor
  · rintro ⟨held, _, read, rfl, rfl⟩
    exact ⟨held, read, rfl⟩
  · rintro ⟨held, read, rfl⟩
    exact ⟨held, rest, read, rfl, rfl⟩

theorem decodeField_composite :
    decodeField bound (.composite name fields) earlier path input = .ok (node, rest) ↔
      checkStart (.composite name fields) path input = .ok () ∧
        ∃ children, decodeFields bound fields [] path input = .ok (children, rest) ∧
          node = .branch name (input.spanTo rest) .composite children := by
  rw [decodeField, unit_bind_eq_ok]
  apply and_congr_right
  intro _
  simp only [bind_eq_ok, pure_eq_ok, Prod.mk.injEq, Prod.exists]
  constructor
  · rintro ⟨children, _, read, rfl, rfl⟩
    exact ⟨children, read, rfl⟩
  · rintro ⟨children, read, rfl⟩
    exact ⟨children, rest, read, rfl, rfl⟩

/-- A group that is absent takes up no bytes. -/
theorem decodeField_group {repetition : Repetition} {condition : Option Condition} :
    decodeField bound (.group name fields repetition condition) earlier path input =
        .ok (node, rest) ↔
      checkStart (.group name fields repetition condition) path input = .ok () ∧
        (verdict? condition earlier = some false ∧
            node = .branch name ⟨input.offset, 0⟩ .group [] ∧ rest = input ∨
          verdict? condition earlier = some true ∧
            ∃ items, decodeItems bound (Field.minWidths fields) repetition earlier
                (decodeItem bound fields path) path input = .ok (items, rest) ∧
              node = .branch name (input.spanTo rest) .group items) := by
  rw [decodeField, unit_bind_eq_ok, bind_eq_ok]
  apply and_congr_right
  intro _
  simp only [isPresent_eq_ok]
  constructor
  · rintro ⟨present, verdict, read⟩
    cases present with
    | false =>
      obtain ⟨rfl, rfl⟩ := Prod.mk.inj (pure_eq_ok.mp read)
      exact .inl ⟨verdict, rfl, rfl⟩
    | true =>
      obtain ⟨⟨items, _⟩, several, made⟩ := bind_eq_ok.mp read
      obtain ⟨rfl, rfl⟩ := Prod.mk.inj (pure_eq_ok.mp made)
      exact .inr ⟨verdict, items, several, rfl⟩
  · rintro (⟨verdict, rfl, rfl⟩ | ⟨verdict, items, read, rfl⟩)
    · exact ⟨false, verdict, rfl⟩
    · exact ⟨true, verdict, bind_eq_ok.mpr ⟨(items, rest), read, rfl⟩⟩

theorem decodeFields_cons {field : Field} :
    decodeFields bound (field :: fields) earlier path input = .ok (nodes, rest) ↔
      ∃ node middle others,
        decodeField bound field earlier (path.child field.name) input = .ok (node, middle) ∧
          decodeFields bound fields (earlier ++ [node]) path middle = .ok (others, rest) ∧
          nodes = node :: others := by
  simp only [decodeFields, bind_eq_ok, pure_eq_ok, Prod.mk.injEq, Prod.exists]
  constructor
  · rintro ⟨node, middle, first, others, _, follow, rfl, rfl⟩
    exact ⟨node, middle, others, first, follow, rfl⟩
  · rintro ⟨node, middle, others, first, follow, rfl⟩
    exact ⟨node, middle, first, others, rest, follow, rfl, rfl⟩

end Decode

section Settle

variable {name other : String} {fields : List Field} {before children nodes : List Node}
  {span : Span} {tag : BranchTag} {path : Path} {start stop : Nat} {node again : Node}

theorem settleBranch_eq_ok {declared : BranchTag}
    {settle : List Node → Except CodecError (List Node × Nat)} :
    settleBranch declared settle (.branch other span tag children) name path start = .ok again ↔
      ∃ inner stop, settle children = .ok (inner, stop) ∧
        again = .branch name ⟨start, stop - start⟩ tag inner := by
  simp only [settleBranch, bind_eq_ok, pure_eq_ok, Prod.exists, @eq_comm Node again]

def settleItem (fields : List Field) (path : Path) : ItemSettler := fun index node start =>
  settleBranch .item (fun children => settleLevel fields children (path.index index) start) node
    (toString index) (path.index index) start

theorem settleItem_eq_ok {index : Nat} (kind : node.tag = .branch .item) :
    settleItem fields path index node start = .ok again ↔
      ∃ inner stop, settleLevel fields node.children (path.index index) start = .ok (inner, stop) ∧
        again = .branch (toString index) ⟨start, stop - start⟩ .item inner := by
  obtain ⟨name, span, children, rfl⟩ := Node.eq_branch_of_tag kind
  exact settleBranch_eq_ok

theorem settleField_composite :
    settleField (.composite name fields) (.branch other span tag children) before path start =
        .ok again ↔
      ∃ inner stop, settleLevel fields children path start = .ok (inner, stop) ∧
        again = .branch other ⟨start, stop - start⟩ tag inner := by
  rw [settleField]
  exact settleBranch_eq_ok

/-- A group that is absent is emptied, and the end of a present list is counted in. -/
theorem settleField_group {repetition : Repetition} {condition : Option Condition} :
    settleField (.group name fields repetition condition) (.branch other span tag children) before
        path start = .ok again ↔
      verdict? condition before = some false ∧ again = .branch other ⟨start, 0⟩ tag [] ∨
        verdict? condition before = some true ∧
          ∃ items last, settleItems (settleItem fields path) (fillItems fields repetition children) 0
              start = .ok (items, last) ∧
            again = .branch other ⟨start, last + repetition.ending.length - start⟩ tag items := by
  rw [settleField, bind_eq_ok]
  simp only [isPresent_eq_ok, repetition.stop_eq, settleBranch_eq_ok, Node.name_branch]
  constructor
  · rintro ⟨present, verdict, inner, stop, result, rfl⟩
    cases present with
    | false =>
      obtain ⟨rfl, rfl⟩ := Prod.mk.inj (pure_eq_ok.mp result)
      exact .inl ⟨verdict, by rw [Nat.sub_self]⟩
    | true =>
      obtain ⟨⟨items, last⟩, settled, made⟩ := bind_eq_ok.mp result
      obtain ⟨rfl, rfl⟩ := Prod.mk.inj (pure_eq_ok.mp made)
      exact .inr ⟨verdict, items, last, settled, rfl⟩
  · rintro (⟨verdict, rfl⟩ | ⟨verdict, items, last, settled, rfl⟩)
    · exact ⟨false, verdict, [], start, rfl, by rw [Nat.sub_self]⟩
    · exact ⟨true, verdict, items, _, bind_eq_ok.mpr ⟨(items, last), settled, rfl⟩, rfl⟩

/-- A composite or a group is settled only where its node is a branch. -/
theorem branch_of_settled {field : Field}
    (settled : settleField field node before path start = .ok again)
    (compound : ∀ name type, field ≠ .scalar name type) :
    ∃ other span tag children, node = .branch other span tag children := by
  cases node with
  | branch other span tag children => exact ⟨other, span, tag, children, rfl⟩
  | scalar =>
    cases field with
    | scalar name type => exact absurd rfl (compound name type)
    | composite =>
      rw [settleField] at settled
      contradiction
    | group =>
      rw [settleField] at settled
      obtain ⟨_, _, settled⟩ := bind_eq_ok.mp settled
      contradiction

theorem settleFields_cons {field : Field} {result : List Node} :
    settleFields (field :: fields) (node :: nodes) before path start = .ok (result, stop) ↔
      ∃ again rest, settleField field node before (path.child field.name) start = .ok again ∧
        settleFields fields nodes (before ++ [again]) path again.stop = .ok (rest, stop) ∧
        result = again :: rest := by
  simp only [settleFields, bind_eq_ok, pure_eq_ok, Prod.mk.injEq, Prod.exists]
  constructor
  · rintro ⟨again, first, rest, _, follow, rfl, rfl⟩
    exact ⟨again, rest, first, follow, rfl⟩
  · rintro ⟨again, rest, first, follow, rfl⟩
    exact ⟨again, first, rest, stop, follow, rfl, rfl⟩

theorem settleItems_cons {item : ItemSettler} {items : List Node} {index : Nat} :
    settleItems item (node :: nodes) index start = .ok (items, stop) ↔
      ∃ again rest, item index node start = .ok again ∧
        settleItems item nodes (index + 1) again.stop = .ok (rest, stop) ∧ items = again :: rest := by
  simp only [settleItems, bind_eq_ok, pure_eq_ok, Prod.mk.injEq, Prod.exists]
  constructor
  · rintro ⟨again, first, rest, _, follow, rfl, rfl⟩
    exact ⟨again, rest, first, follow, rfl⟩
  · rintro ⟨again, rest, first, follow, rfl⟩
    exact ⟨again, first, rest, stop, follow, rfl, rfl⟩

end Settle
end ResourceTemplate
