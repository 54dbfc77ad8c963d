import ResourceTemplate.Proofs.FieldSteps
import ResourceTemplate.Proofs.Outcomes
import ResourceTemplate.Proofs.TreeShape
import ResourceTemplate.Proofs.UnlabelledTemplates

/-! Trees without the labels of their values. Decoding with the integers for the enumerations gives
the same tree but for its labels, or the same error; a change of such a tree is settled in the same
way, and it is encoded to the same bytes. -/
namespace ResourceTemplate

/-- The scalar as the integer that it is stored as. -/
def ScalarType.unlabel (type : ScalarType) (held : Scalar) : Scalar :=
  { held with tag := type.unlabelled.tag, label := none }

mutual
def Field.unlabel : Field → Node → Node
  | .scalar _ type, node => node.mapScalar type.unlabel
  | .composite _ fields, node => node.mapChildren (unlabelAll fields)
  | .group _ fields _ _, node => node.mapChildren (List.map (Node.mapChildren (unlabelAll fields)))

def Field.unlabelAll : List Field → List Node → List Node
  | field :: fields, node :: nodes => field.unlabel node :: unlabelAll fields nodes
  | _, nodes => nodes
end

/-- What a reference finds: a node of some name, and the value there. -/
def Node.referent (node : Node) : String × Option Value := (node.name, node.value?)

section Nodes

variable (field : Field) (fields : List Field) (node : Node) (nodes : List Node)

@[simp] theorem Node.stop_mapChildren (f : List Node → List Node) :
    (node.mapChildren f).stop = node.stop := by
  cases node <;> rfl

@[simp] theorem Field.span_unlabel : (field.unlabel node).span = node.span := by
  cases field <;> cases node <;> rfl

@[simp] theorem Field.offset_unlabel : (field.unlabel node).offset = node.offset :=
  congrArg Span.offset (field.span_unlabel node)

@[simp] theorem Field.stop_unlabel : (field.unlabel node).stop = node.stop := by
  rw [Node.stop, Node.stop, Node.length, Node.length, field.span_unlabel, field.offset_unlabel]

@[simp] theorem Field.referent_unlabel : (field.unlabel node).referent = node.referent := by
  cases field <;> cases node <;> rfl

@[simp] theorem Field.name_unlabel : (field.unlabel node).name = node.name :=
  congrArg Prod.fst (field.referent_unlabel node)

@[simp] theorem Field.value?_unlabel : (field.unlabel node).value? = node.value? :=
  congrArg Prod.snd (field.referent_unlabel node)

@[simp] theorem Field.length_unlabelAll : (unlabelAll fields nodes).length = nodes.length := by
  induction fields generalizing nodes with
  | nil => cases nodes <;> rfl
  | cons field fields ih =>
    cases nodes with
    | nil => rfl
    | cons node nodes => simp [unlabelAll, ih]

@[simp] theorem Field.children_unlabelAll :
    (node.mapChildren (unlabelAll fields)).children = unlabelAll fields node.children := by
  cases node with
  | scalar => cases fields <;> rfl
  | branch => rfl

@[simp] theorem Field.length_children_unlabel :
    (field.unlabel node).children.length = node.children.length := by
  cases field with
  | scalar => cases node <;> rfl
  | composite name fields =>
    cases node with
    | scalar => rfl
    | branch name span tag children => exact length_unlabelAll fields children
  | group =>
    cases node with
    | scalar => rfl
    | branch => exact List.length_map _

theorem Field.referents_unlabelAll :
    (unlabelAll fields nodes).map Node.referent = nodes.map Node.referent := by
  induction fields generalizing nodes with
  | nil => cases nodes <;> rfl
  | cons field fields ih =>
    cases nodes with
    | nil => rfl
    | cons node nodes => simp [unlabelAll, ih]

theorem Field.zip_unlabelAll : (unlabelledAll fields).zip (unlabelAll fields nodes) =
    (fields.zip nodes).map fun pair => (pair.1.unlabelled, pair.1.unlabel pair.2) := by
  induction fields generalizing nodes with
  | nil => rfl
  | cons field fields ih =>
    cases nodes with
    | nil => rfl
    | cons node nodes => simp [unlabelledAll, unlabelAll, ih]

variable {field fields}

theorem Field.getElem?_unlabelAll {position : Nat} (declared : fields[position]? = some field) :
    (unlabelAll fields nodes)[position]? = nodes[position]?.map field.unlabel := by
  induction fields generalizing nodes position with
  | nil => simp at declared
  | cons first fields ih =>
    cases nodes with
    | nil => rfl
    | cons node nodes =>
      cases position with
      | zero =>
        obtain rfl : first = field := by simpa using declared
        rfl
      | succ position => simpa [unlabelAll] using ih nodes (by simpa using declared)

theorem Field.unlabelAll_set {position : Nat} (declared : fields[position]? = some field) :
    unlabelAll fields (nodes.set position node) =
      (unlabelAll fields nodes).set position (field.unlabel node) := by
  induction fields generalizing nodes position with
  | nil => simp at declared
  | cons first fields ih =>
    cases nodes with
    | nil => rfl
    | cons head nodes =>
      cases position with
      | zero =>
        obtain rfl : first = field := by simpa using declared
        rfl
      | succ position => simpa [unlabelAll] using ih nodes (by simpa using declared)

end Nodes

section References

variable {nodes others : List Node}

theorem siblingValue_congr (same : nodes.map Node.referent = others.map Node.referent)
    (name : String) (path : Path) (offset : Nat) :
    siblingValue nodes name path offset = siblingValue others name path offset := by
  have finds (nodes : List Node) : (nodes.find? (·.name == name)).bind Node.value? =
      ((nodes.map Node.referent).find? (·.1 == name)).bind (·.2) := by
    rw [List.find?_map, Option.bind_map]
    rfl
  rw [siblingValue, siblingValue, finds, finds, same]

theorem isPresent_congr (same : nodes.map Node.referent = others.map Node.referent)
    (condition : Option Condition) (path : Path) (offset : Nat) :
    isPresent condition nodes path offset = isPresent condition others path offset := by
  cases condition with
  | none => rfl
  | some condition => rw [isPresent, isPresent, siblingValue_congr same]

theorem storedCount_congr (same : nodes.map Node.referent = others.map Node.referent)
    (countField : String) (zeroBased : Bool) (path : Path) (offset : Nat) :
    storedCount nodes countField zeroBased path offset =
      storedCount others countField zeroBased path offset := by
  rw [storedCount, storedCount, siblingValue_congr same]

end References

section Decode

def ItemDecoder.Alike (change : Node → Node) (item other : ItemDecoder) : Prop :=
  ∀ index input, Agree Eq (fun read again => again = (change read.1, read.2))
    (item index input) (other index input)

variable {change : Node → Node} {item other : ItemDecoder} {path : Path}

theorem decodeTimes_alike (alike : item.Alike change other) (count index : Nat) (input : Input) :
    Agree Eq (fun read again => again = (read.1.map change, read.2))
      (decodeTimes item count index input) (decodeTimes other count index input) := by
  induction count generalizing index input with
  | zero => exact .ok rfl
  | succ count ih =>
    refine (alike index input).bind ?_
    rintro ⟨node, rest⟩ _ _ rfl
    refine (ih (index + 1) rest).bind ?_
    rintro ⟨nodes, last⟩ _ _ rfl
    exact .ok rfl

theorem decodeToEnd_alike (alike : item.Alike change other) (index : Nat) (input : Input) :
    Agree Eq (fun read again => again = (read.1.map change, read.2))
      (decodeToEnd item path index input) (decodeToEnd other path index input) := by
  fun_induction decodeToEnd item path index input with
  | case1 index input ended =>
    rw [decodeToEnd, if_pos ended]
    exact .ok rfl
  | case2 index input ended ih =>
    rw [decodeToEnd, if_neg ended]
    refine (alike index input).bind ?_
    rintro ⟨node, rest⟩ _ _ rfl
    dsimp only
    split
    · next shorter =>
      refine (ih rest shorter).bind ?_
      rintro ⟨nodes, last⟩ _ _ rfl
      exact .ok rfl
    · exact .error rfl

theorem decodeToZero_alike (alike : item.Alike change other) (index : Nat) (input : Input) :
    Agree Eq (fun read again => again = (read.1.map change, read.2))
      (decodeToZero item path index input) (decodeToZero other path index input) := by
  fun_induction decodeToZero item path index input with
  | case1 index input empty =>
    rw [decodeToZero, empty]
    exact .error rfl
  | case2 index input bytes starts =>
    rw [decodeToZero, starts]
    exact .ok rfl
  | case3 index input nonempty nonzero ih =>
    rw [decodeToZero]
    split
    · next empty => exact absurd empty nonempty
    · next bytes starts => exact absurd starts (nonzero bytes)
    refine (alike index input).bind ?_
    rintro ⟨node, rest⟩ _ _ rfl
    dsimp only
    split
    · next shorter =>
      refine (ih rest shorter).bind ?_
      rintro ⟨nodes, last⟩ _ _ rfl
      exact .ok rfl
    · exact .error rfl

theorem decodeCount_alike (alike : item.Alike change other) (bound : CountBound) (minWidth : Nat)
    (count : Int) (input : Input) :
    Agree Eq (fun read again => again = (read.1.map change, read.2))
      (decodeCount bound minWidth count item path input)
      (decodeCount bound minWidth count other path input) := by
  unfold decodeCount
  split
  · exact decodeTimes_alike alike ..
  · exact .error rfl

theorem decodeItems_alike (alike : item.Alike change other) (bound : CountBound) (minWidth : Nat)
    (repetition : Repetition) {earlier others : List Node}
    (same : earlier.map Node.referent = others.map Node.referent) (input : Input) :
    Agree Eq (fun read again => again = (read.1.map change, read.2))
      (decodeItems bound minWidth repetition earlier item path input)
      (decodeItems bound minWidth repetition others other path input) := by
  cases repetition with
  | fixed count => exact decodeCount_alike alike ..
  | counted countField zeroBased =>
    rw [decodeItems, decodeItems, storedCount_congr same]
    refine .after (fun _ => rfl) _ fun count _ => ?_
    exact decodeCount_alike alike ..
  | untilEnd => exact decodeToEnd_alike alike ..
  | zeroTerminated => exact decodeToZero_alike alike ..

theorem checkStart_unlabelled (field : Field) (path : Path) (input : Input) :
    checkStart field.unlabelled path input = checkStart field path input := by
  rw [checkStart, checkStart, Field.minWidth_unlabelled]

theorem decodeScalar_unlabelled (type : ScalarType) (path : Path) (input : Input) :
    Agree Eq (fun read again => again = (type.unlabel read.1, read.2))
      (decodeScalar type path input) (decodeScalar type.unlabelled path input) := by
  rw [decodeScalar, decodeScalar, type.read_unlabelled]
  refine .after (fun _ => rfl) _ ?_
  rintro ⟨value, raw, rest⟩ _
  exact .ok (by simp [ScalarType.unlabel])

mutual
theorem decodeField_unlabelled (bound : CountBound) :
    (field : Field) → (earlier others : List Node) →
      earlier.map Node.referent = others.map Node.referent → (path : Path) → (input : Input) →
      Agree Eq (fun read again => again = (field.unlabel read.1, read.2))
        (decodeField bound field earlier path input)
        (decodeField bound field.unlabelled others path input)
  | .scalar name type, _, _, _, path, input => by
    have start := checkStart_unlabelled (.scalar name type) path input
    rw [Field.unlabelled] at start
    rw [Field.unlabelled, decodeField, decodeField, start]
    refine .after (fun _ => rfl) _ fun _ _ => ?_
    refine (decodeScalar_unlabelled type path input).bind ?_
    rintro ⟨held, rest⟩ _ _ rfl
    exact .ok rfl
  | .composite name fields, _, _, _, path, input => by
    have start := checkStart_unlabelled (.composite name fields) path input
    rw [Field.unlabelled] at start
    rw [Field.unlabelled, decodeField, decodeField, start]
    refine .after (fun _ => rfl) _ fun _ _ => ?_
    refine (decodeFields_unlabelled bound fields [] [] rfl path input).bind ?_
    rintro ⟨children, rest⟩ _ _ rfl
    exact .ok rfl
  | .group name fields repetition condition, earlier, others, same, path, input => by
    have start := checkStart_unlabelled (.group name fields repetition condition) path input
    rw [Field.unlabelled] at start
    rw [Field.unlabelled, decodeField, decodeField, start, isPresent_congr same,
      Field.minWidths_unlabelled]
    refine .after (fun _ => rfl) _ fun _ _ => .after (fun _ => rfl) _ fun present _ => ?_
    split
    · have alike : ItemDecoder.Alike (Node.mapChildren (Field.unlabelAll fields))
          (decodeItem bound fields path) (decodeItem bound (Field.unlabelledAll fields) path) := by
        intro index input
        refine (decodeFields_unlabelled bound fields [] [] rfl (path.index index) input).bind ?_
        rintro ⟨children, rest⟩ _ _ rfl
        exact .ok rfl
      refine (decodeItems_alike alike bound (Field.minWidths fields) repetition same input).bind ?_
      rintro ⟨items, rest⟩ _ _ rfl
      exact .ok rfl
    · exact .ok rfl

theorem decodeFields_unlabelled (bound : CountBound) :
    (fields : List Field) → (earlier others : List Node) →
      earlier.map Node.referent = others.map Node.referent → (parent : Path) → (input : Input) →
      Agree Eq (fun read again => again = (Field.unlabelAll fields read.1, read.2))
        (decodeFields bound fields earlier parent input)
        (decodeFields bound (Field.unlabelledAll fields) others parent input)
  | [], _, _, _, _, _ => .ok rfl
  | field :: fields, earlier, others, same, parent, input => by
    rw [Field.unlabelledAll, decodeFields, decodeFields, field.name_unlabelled]
    refine (decodeField_unlabelled bound field earlier others same _ input).bind ?_
    rintro ⟨node, rest⟩ _ _ rfl
    have same : (earlier ++ [node]).map Node.referent =
        (others ++ [field.unlabel node]).map Node.referent := by
      simp [same]
    refine (decodeFields_unlabelled bound fields _ _ same parent rest).bind ?_
    rintro ⟨nodes, last⟩ _ _ rfl
    exact .ok rfl
end

end Decode
end ResourceTemplate
