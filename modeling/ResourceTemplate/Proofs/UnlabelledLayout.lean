import ResourceTemplate.Proofs.CountFields
import ResourceTemplate.Proofs.UnlabelledTrees

/-! Settling and encoding without labels. A tree of the right shape is settled in the same way when
its enumerations are integers, and it is encoded to the same bytes. -/
namespace ResourceTemplate

/-- The same error, unless it is about a kind of value that an enumeration refuses: the integer that
the enumeration is stored as refuses it too, under its own name. -/
inductive CodecError.Alike : CodecError → CodecError → Prop where
  | refl (error : CodecError) : Alike error error
  | kind (path : Path) (base : IntType) (kind : String) :
    Alike (.refused path (.wrongKind .enumeration kind)) (.refused path (.wrongKind (.int base) kind))

theorem ScalarType.accept_unlabelled (type : ScalarType) (value : Value) (path : Path) :
    Agree CodecError.Alike Eq (type.accept value path) (type.unlabelled.accept value path) := by
  cases type with
  | enumeration base names =>
    unfold ScalarType.unlabelled ScalarType.accept
    dsimp only
    cases value.integer? with
    | none => exact .error (.kind path base value.kindName)
    | some n => exact .refl .refl _
  | int | fixedString | pascalString | boolean => exact .refl .refl _

section Level

variable (fields : List Field) (nodes : List Node) (parent : Path)

theorem checkShape_unlabelled (offset : Nat) :
    checkShape (Field.unlabelledAll fields) (Field.unlabelAll fields nodes) parent offset =
      checkShape fields nodes parent offset := by
  unfold checkShape
  simp only [Field.zip_unlabelAll, List.find?_map, Function.comp_def, Field.name_unlabelled,
    Field.name_unlabel, Field.length_unlabelAll, Field.length_unlabelledAll]
  cases (fields.zip nodes).find? fun pair => pair.1.name != pair.2.name with
  | none => rfl
  | some wrong =>
    simp only [Option.map_some, Field.offset_unlabel, Field.name_unlabel, Field.name_unlabelled]

theorem derivedCounts_unlabelled (offset : Nat) :
    derivedCounts (Field.unlabelledAll fields) (Field.unlabelAll fields nodes) parent offset =
      derivedCounts fields nodes parent offset := by
  have referents := Field.referents_unlabelAll fields nodes
  unfold derivedCounts
  rw [Field.zip_unlabelAll, List.mapM_map]
  congr 2
  funext ⟨field, node⟩
  cases field with
  | scalar | composite => rfl
  | group name inner repetition condition =>
    cases repetition with
    | fixed | untilEnd | zeroTerminated => rfl
    | counted countField zeroBased =>
      have sized := Field.length_children_unlabel
        (.group name inner (.counted countField zeroBased) condition) node
      simp only [Function.comp_apply, Field.unlabelled, isPresent_congr referents, sized]

theorem syncCount_unlabelled (entry : String × Int) :
    Agree Eq (fun again other => other = Field.unlabelAll fields again)
      (syncCount fields parent nodes entry)
      (syncCount (Field.unlabelledAll fields) parent (Field.unlabelAll fields nodes) entry) := by
  obtain ⟨name, n⟩ := entry
  unfold syncCount
  dsimp only
  rw [Template.position?_unlabelled]
  cases found : Template.position? fields name with
  | none => exact .error rfl
  | some position =>
    obtain ⟨field, declared, -⟩ := field_of_position found
    have group : (Template.groupCountedBy? (Field.unlabelledAll fields) name).map (parent.child ·.name) =
        (Template.groupCountedBy? fields name).map (parent.child ·.name) := by
      simp [Template.groupCountedBy?_unlabelled, Function.comp_def]
    have retyped : (Field.unlabelledAll fields)[position]? = some field.unlabelled := by
      rw [Field.unlabelledAll_eq, List.getElem?_map, declared]
      rfl
    dsimp only
    rw [Field.getElem?_unlabelAll nodes declared]
    cases nodes[position]? with
    | none => exact .error rfl
    | some node =>
      simp only [Option.map_some, Field.value?_unlabel, group, declared, retyped, Field.offset_unlabel]
      split
      · exact .ok rfl
      · cases field with
        | composite | group => exact .error rfl
        | scalar other type =>
          dsimp only [Field.unlabelled]
          have accepts := type.accept_unlabelled (.int n) (parent.child name)
          generalize type.accept (.int n) (parent.child name) = accepted,
            type.unlabelled.accept (.int n) (parent.child name) = again at accepts
          cases accepts with
          | error => exact .error rfl
          | ok same =>
            subst same
            refine .ok ?_
            rw [Field.unlabelAll_set _ nodes declared, type.label?_unlabelled, Field.name_unlabel,
              Field.span_unlabel]
            rfl

theorem syncCounts_unlabelled (counts : List (String × Int)) :
    Agree Eq (fun again other => other = Field.unlabelAll fields again)
      (syncCounts fields parent nodes counts)
      (syncCounts (Field.unlabelledAll fields) parent (Field.unlabelAll fields nodes) counts) := by
  induction counts generalizing nodes with
  | nil => exact .ok rfl
  | cons entry counts ih =>
    unfold syncCounts
    rw [List.foldlM_cons, List.foldlM_cons]
    refine (syncCount_unlabelled fields nodes parent entry).bind ?_
    rintro again _ _ rfl
    exact ih again

variable {fields nodes}

theorem settleWith_unlabelled {settle other : List Node → Except CodecError (List Node × Nat)}
    (first : Agree Eq (fun done again => again = (Field.unlabelAll fields done.1, done.2))
      (settle nodes) (other (Field.unlabelAll fields nodes))) (start : Nat) :
    Agree Eq (fun done again => again = (Field.unlabelAll fields done.1, done.2))
      (settleWith settle fields nodes parent start)
      (settleWith other (Field.unlabelledAll fields) (Field.unlabelAll fields nodes) parent start) := by
  rw [settleWith, settleWith, checkShape_unlabelled]
  refine .after (fun _ => rfl) _ fun _ _ => first.bind ?_
  rintro ⟨middle, stop⟩ _ _ rfl
  dsimp only
  rw [derivedCounts_unlabelled]
  refine .after (fun _ => rfl) _ fun counts _ => ?_
  refine (syncCounts_unlabelled fields middle parent counts).bind ?_
  rintro again _ _ rfl
  exact .ok rfl

end Level

section Items

variable {fields : List Field} {items : List Node}

mutual
theorem Field.default_unlabelled : (field : Field) → field.unlabelled.default = field.unlabel field.default
  | .scalar name type => by
    simp [unlabelled, default, unlabel, Node.mapScalar, ScalarType.unlabel, ScalarType.default]
  | .composite name fields => congrArg (Node.branch name ⟨0, 0⟩ .composite) (defaults_unlabelled fields)
  | .group .. => rfl

theorem Field.defaults_unlabelled :
    (fields : List Field) → defaults (unlabelledAll fields) = unlabelAll fields (defaults fields)
  | [] => rfl
  | field :: fields => by
    rw [unlabelledAll, defaults, defaults, unlabelAll, default_unlabelled field,
      defaults_unlabelled fields]
end

theorem defaultItem_unlabelled (fields : List Field) (index : Nat) :
    defaultItem (Field.unlabelledAll fields) index =
      (defaultItem fields index).mapChildren (Field.unlabelAll fields) := by
  rw [defaultItem, Field.defaults_unlabelled]
  rfl

theorem fillItems_unlabelled (fields : List Field) (repetition : Repetition) (items : List Node) :
    fillItems (Field.unlabelledAll fields) repetition
        (items.map (Node.mapChildren (Field.unlabelAll fields))) =
      (fillItems fields repetition items).map (Node.mapChildren (Field.unlabelAll fields)) := by
  cases repetition with
  | fixed count => simp [fillItems, List.map_take, Function.comp_def, defaultItem_unlabelled]
  | counted | untilEnd | zeroTerminated => rfl

theorem settleBranch_alike {declared tag : BranchTag} {old name : String} {span : Span} {path : Path}
    {start : Nat} {settle other : List Node → Except CodecError (List Node × Nat)}
    {change : List Node → List Node} {nodes others : List Node}
    (inside : Agree Eq (fun done again => again = (change done.1, done.2)) (settle nodes)
      (other others)) :
    Agree Eq (fun done again => again = done.mapChildren change)
      (settleBranch declared settle (.branch old span tag nodes) name path start)
      (settleBranch declared other (.branch old span tag others) name path start) := by
  refine inside.bind ?_
  rintro ⟨done, stop⟩ _ _ rfl
  exact .ok rfl

theorem settleItems_alike {item other : ItemSettler} {change : Node → Node}
    (placed : ∀ node, (change node).stop = node.stop)
    (alike : ∀ node ∈ items, ∀ index start, Agree Eq (fun done again => again = change done)
      (item index node start) (other index (change node) start)) (index start : Nat) :
    Agree Eq (fun done again => again = (done.1.map change, done.2))
      (settleItems item items index start) (settleItems other (items.map change) index start) := by
  induction items generalizing index start with
  | nil => exact .ok rfl
  | cons node items ih =>
    obtain ⟨head, tail⟩ := List.forall_mem_cons.mp alike
    refine (head index start).bind ?_
    rintro done _ _ rfl
    rw [placed]
    refine (ih tail (index + 1) done.stop).bind ?_
    rintro ⟨rest, stop⟩ _ _ rfl
    exact .ok rfl

end Items

mutual
theorem settleField_unlabelled :
    (field : Field) → (node : Node) → field.Shaped node → (before others : List Node) →
      before.map Node.referent = others.map Node.referent → (path : Path) → (start : Nat) →
      Agree Eq (fun done again => again = field.unlabel done)
        (settleField field node before path start)
        (settleField field.unlabelled (field.unlabel node) others path start)
  | .scalar name type, _, ⟨span, held, same, _⟩, _, _, _, path, start => by
    subst same
    refine .ok ?_
    rw [ScalarType.encodedLength_unlabelled]
    rfl
  | .composite name fields, _, ⟨span, children, same, shaped⟩, _, _, _, path, start => by
    subst same
    rw [Field.unlabelled, settleField, settleField]
    exact settleBranch_alike (settleWith_unlabelled path
      (settleFields_unlabelled fields children shaped [] [] rfl path start) start)
  | .group name fields repetition condition, _, ⟨span, items, same, shaped⟩, before, others, siblings,
      path, start => by
    subst same
    have alike : ∀ item ∈ fillItems fields repetition items, ∀ index start,
        Agree Eq (fun done again => again = Node.mapChildren (Field.unlabelAll fields) done)
          (settleItem fields path index item start)
          (settleItem (Field.unlabelledAll fields) path index
            (item.mapChildren (Field.unlabelAll fields)) start) := by
      intro item member index start
      obtain ⟨kind, shaped⟩ := shaped_fillItems repetition shaped item member
      obtain ⟨_, _, children, rfl⟩ := Node.eq_branch_of_tag kind
      exact settleBranch_alike (settleWith_unlabelled (path.index index)
        (settleFields_unlabelled fields children shaped [] [] rfl (path.index index) start) start)
    rw [settleField, Field.unlabelled, settleField, isPresent_congr siblings]
    refine .after (fun _ => rfl) _ fun present _ => settleBranch_alike ?_
    rw [fillItems_unlabelled]
    split
    · refine (settleItems_alike (fun node => node.stop_mapChildren _) alike 0 start).bind ?_
      rintro ⟨done, last⟩ _ _ rfl
      exact .ok rfl
    · exact .ok rfl

theorem settleFields_unlabelled :
    (fields : List Field) → (nodes : List Node) → Field.ShapedAll fields nodes →
      (before others : List Node) → before.map Node.referent = others.map Node.referent →
      (parent : Path) → (start : Nat) →
      Agree Eq (fun done again => again = (Field.unlabelAll fields done.1, done.2))
        (settleFields fields nodes before parent start)
        (settleFields (Field.unlabelledAll fields) (Field.unlabelAll fields nodes) others parent start)
  | [], _, shaped, _, _, _, _, _ => by
    subst shaped
    exact .ok rfl
  | field :: fields, _, ⟨node, nodes, same, first, follow⟩, before, others, siblings, parent, start => by
    subst same
    rw [Field.unlabelledAll, Field.unlabelAll, settleFields, settleFields, field.name_unlabelled]
    refine (settleField_unlabelled field node first before others siblings _ start).bind ?_
    rintro done _ _ rfl
    have siblings : (before ++ [done]).map Node.referent =
        (others ++ [field.unlabel done]).map Node.referent := by
      simp [siblings]
    rw [field.stop_unlabel]
    refine (settleFields_unlabelled fields nodes follow _ _ siblings parent done.stop).bind ?_
    rintro ⟨rest, stop⟩ _ _ rfl
    exact .ok rfl
end

section Encode

def encodeItem (fields : List Field) (path : Path) : ItemEncoder := fun index node start =>
  encodeLevel fields node.children (path.index index) start

/-- An enumeration holds an integer, so that neither it nor its base is asked to store another kind. -/
theorem encodeScalar_unlabelled {type : ScalarType} {held : Scalar} (holds : type.Holds held)
    (count : Option Int) (path : Path) (offset : Nat) :
    encodeScalar type.unlabelled (type.unlabel held) count path offset =
      encodeScalar type held count path offset := by
  cases type with
  | enumeration base names =>
    obtain ⟨n, integer⟩ := holds.integer? rfl
    have stored : storedInteger (.int base) base held.value count path offset =
        storedInteger (.enumeration base names) base held.value count path offset := by
      cases count <;> simp [storedInteger, integer]
    exact congrArg (· >>= fun n => pure (Bytes.ofNat base.bytes (base.toBits n))) stored
  | int | fixedString | pascalString | boolean => rfl

theorem encodeItems_congr {item other : ItemEncoder} {change : Node → Node} {items : List Node}
    (same : ∀ node ∈ items, ∀ index start, other index (change node) start = item index node start)
    (repetition : Repetition) (path : Path) (index start : Nat) :
    encodeItems other repetition path (items.map change) index start =
      encodeItems item repetition path items index start := by
  induction items generalizing index start with
  | nil => rfl
  | cons node items ih =>
    obtain ⟨head, tail⟩ := List.forall_mem_cons.mp same
    simp only [List.map_cons, encodeItems, head, ih tail]

theorem encodeLevel_of_unlabelled {fields : List Field} {nodes : List Node} {parent : Path}
    {start : Nat}
    (same : ∀ counts : List (String × Int),
      encodeFields (Field.unlabelledAll fields) (Field.unlabelAll fields nodes)
          (Field.unlabelAll fields nodes) counts parent start =
        encodeFields fields nodes nodes counts parent start) :
    encodeLevel (Field.unlabelledAll fields) (Field.unlabelAll fields nodes) parent start =
      encodeLevel fields nodes parent start := by
  simp only [encodeLevel, checkShape_unlabelled, derivedCounts_unlabelled, same]

mutual
theorem encodeField_unlabelled :
    (field : Field) → (node : Node) → field.Shaped node → (siblings others : List Node) →
      others.map Node.referent = siblings.map Node.referent → (count : Option Int) → (path : Path) →
      (start : Nat) → encodeField field.unlabelled (field.unlabel node) others count path start =
        encodeField field node siblings count path start
  | .scalar name type, _, ⟨span, held, same, holds⟩, _, _, _, count, path, start => by
    subst same
    have tagged : (type.unlabel held).tag = type.unlabelled.tag := rfl
    rw [Field.unlabelled, Field.unlabel, Node.mapScalar, encodeField, encodeField, if_pos tagged,
      if_pos holds.tag, encodeScalar_unlabelled holds]
  | .composite name fields, _, ⟨span, children, same, shaped⟩, _, _, _, _, path, start => by
    subst same
    have siblings := Field.referents_unlabelAll fields children
    exact encodeLevel_of_unlabelled fun counts =>
      encodeFields_unlabelled fields children shaped _ _ siblings counts path start
  | .group name fields repetition condition, _, ⟨span, items, same, shaped⟩, siblings, others, known, _,
      path, start => by
    subst same
    have each : ∀ item ∈ items, ∀ index start,
        encodeItem (Field.unlabelledAll fields) path index
            (item.mapChildren (Field.unlabelAll fields)) start =
          encodeItem fields path index item start := by
      intro item member index start
      have siblings := Field.referents_unlabelAll fields item.children
      rw [encodeItem, encodeItem, Field.children_unlabelAll]
      exact encodeLevel_of_unlabelled fun counts =>
        encodeFields_unlabelled fields item.children (shaped item member).2 _ _ siblings counts
          (path.index index) start
    have items := encodeItems_congr each repetition path 0 start
    unfold encodeItem encodeLevel at items
    simp only [Field.unlabelled, Field.unlabel, Node.mapChildren, encodeField, Node.tag_branch,
      Node.children_branch, isPresent_congr known, items, checkItemCount, List.length_map,
      Node.offset_branch]
    rfl

theorem encodeFields_unlabelled :
    (fields : List Field) → (nodes : List Node) → Field.ShapedAll fields nodes →
      (siblings others : List Node) → others.map Node.referent = siblings.map Node.referent →
      (counts : List (String × Int)) → (parent : Path) → (start : Nat) →
      encodeFields (Field.unlabelledAll fields) (Field.unlabelAll fields nodes) others counts parent start =
        encodeFields fields nodes siblings counts parent start
  | [], _, _, _, _, _, _, _, _ => rfl
  | field :: fields, _, ⟨node, nodes, same, first, follow⟩, siblings, others, known, counts, parent,
      start => by
    subst same
    simp only [Field.unlabelledAll, Field.unlabelAll, encodeFields, field.name_unlabelled,
      encodeField_unlabelled field node first siblings others known,
      encodeFields_unlabelled fields nodes follow siblings others known]
end

theorem encodeLevel_unlabelled {fields : List Field} {nodes : List Node}
    (shaped : Field.ShapedAll fields nodes) (parent : Path) (start : Nat) :
    encodeLevel (Field.unlabelledAll fields) (Field.unlabelAll fields nodes) parent start =
      encodeLevel fields nodes parent start :=
  encodeLevel_of_unlabelled fun counts =>
    encodeFields_unlabelled fields nodes shaped nodes _ (Field.referents_unlabelAll fields nodes) counts
      parent start

end Encode
end ResourceTemplate
