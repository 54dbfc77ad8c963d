import ResourceTemplate.Proofs.Runs
import ResourceTemplate.Proofs.UnlabelledLayout

/-! Edits of records without labels. A path leads to the same place whether or not enumerations are
taken as integers, and what is done there has the same outcome, but for the type that an error names.
So a run of edits goes on side by side with the one of the unlabelled record. -/
namespace ResourceTemplate

def Record.unlabelled (record : Record) : Record :=
  { record with
    template := record.template.unlabelled
    fields := Field.unlabelAll record.template record.fields }

section Places

def Scope.unlabelled : Scope → Scope
  | .fields inner => .fields (Field.unlabelledAll inner)
  | .items inner => .items (Field.unlabelledAll inner)
  | .leaf => .leaf

def Scope.unlabel : Scope → List Node → List Node
  | .fields inner => Field.unlabelAll inner
  | .items inner => List.map (Node.mapChildren (Field.unlabelAll inner))
  | .leaf => id

structure Place.Mirrors (scope : Scope) (place other : Place) : Prop where
  route : other.route = place.route
  field : other.field = place.field.map Field.unlabelled
  owner : other.owner = Field.unlabelledAll place.owner
  node : ∀ field, place.field = some field → other.node = field.unlabel place.node
  children : other.node.children = scope.unlabel place.node.children

theorem Field.scope_unlabelled (field : Field) : field.unlabelled.scope = field.scope.unlabelled := by
  cases field <;> rfl

theorem Field.children_unlabel (field : Field) (node : Node) :
    (field.unlabel node).children = field.scope.unlabel node.children := by
  cases field with
  | scalar => cases node <;> rfl
  | composite name fields => exact Field.children_unlabelAll fields node
  | group => cases node <;> rfl

variable {scope : Scope} {place other : Place}

/-- A step is possible in both trees or in none. -/
theorem Place.Mirrors.step? (mirrors : place.Mirrors scope other) (segment : Segment) :
    (∃ next again inner, place.step? scope segment = some (next, inner) ∧
      other.step? scope.unlabelled segment = some (again, inner.unlabelled) ∧
      next.Mirrors inner again) ∨
    place.step? scope segment = none ∧ other.step? scope.unlabelled segment = none := by
  cases scope with
  | leaf => exact .inr ⟨rfl, rfl⟩
  | fields fields =>
    cases segment with
    | index => exact .inr ⟨rfl, rfl⟩
    | name name =>
      cases named : Template.position? fields name with
      | none => exact .inr (by simp [Place.step?, Scope.unlabelled, named])
      | some position =>
        obtain ⟨field, declared, -⟩ := field_of_position named
        have redeclared : (Field.unlabelledAll fields)[position]? = some field.unlabelled := by
          rw [Field.unlabelledAll_eq, List.getElem?_map, declared]
          rfl
        have beside : other.node.children[position]? =
            place.node.children[position]?.map field.unlabel := by
          rw [mirrors.children]
          exact Field.getElem?_unlabelAll _ declared
        cases there : place.node.children[position]? with
        | none =>
          rw [there] at beside
          exact .inr (by simp [Place.step?, Scope.unlabelled, named, declared, redeclared, there, beside])
        | some node =>
          rw [there] at beside
          refine .inl ⟨_, _, _, step?_name.mpr ⟨position, field, node, named, declared, there, rfl, rfl⟩,
            step?_name.mpr ⟨position, _, _, ?_, redeclared, beside, rfl, field.scope_unlabelled.symm⟩, ?_⟩
          · rw [Template.position?_unlabelled, named]
          · refine ⟨by rw [mirrors.route], rfl, rfl, ?_, field.children_unlabel node⟩
            rintro _ ⟨⟩
            rfl
  | items fields =>
    cases segment with
    | name => exact .inr ⟨rfl, rfl⟩
    | index index =>
      have beside : other.node.children[index]? =
          place.node.children[index]?.map (Node.mapChildren (Field.unlabelAll fields)) := by
        rw [mirrors.children]
        exact List.getElem?_map
      cases there : place.node.children[index]? with
      | none =>
        rw [there] at beside
        exact .inr (by simp [Place.step?, Scope.unlabelled, there, beside])
      | some item =>
        rw [there] at beside
        refine .inl ⟨_, _, _, step?_index.mpr ⟨item, there, rfl, rfl⟩,
          step?_index.mpr ⟨_, beside, rfl, rfl⟩, ?_⟩
        exact ⟨by rw [mirrors.route], rfl, mirrors.owner, by rintro _ ⟨⟩,
          Field.children_unlabelAll fields item⟩

/-- A path leads to the same place in both trees or out of both. -/
theorem Place.Mirrors.follow? (mirrors : place.Mirrors scope other) (path : Path) :
    (∃ final again inner, place.follow? scope path = some final ∧
      other.follow? scope.unlabelled path = some again ∧ final.Mirrors inner again) ∨
    place.follow? scope path = none ∧ other.follow? scope.unlabelled path = none := by
  induction path generalizing scope place other with
  | nil => exact .inl ⟨place, other, scope, rfl, rfl, mirrors⟩
  | cons segment path ih =>
    unfold Place.follow?
    rcases mirrors.step? segment with ⟨next, again, inner, first, second, mirrors⟩ | ⟨first, second⟩
    · rw [first, second]
      exact ih mirrors
    · rw [first, second]
      exact .inr ⟨rfl, rfl⟩

end Places

section Changes

variable {fields owner : List Field} {nodes : List Node} {path : Path} {route : List Nat}
  {field : Field} {node : Node}

theorem Node.mapChildren_mapChildren_congr {first second third last : List Node → List Node}
    (same : second (first node.children) = last (third node.children)) :
    (node.mapChildren first).mapChildren second = (node.mapChildren third).mapChildren last := by
  cases node with
  | scalar => rfl
  | branch name span tag children => exact congrArg (Node.branch name span tag) same

/-- A change at the end of a route is the same change of the unlabelled node there. -/
theorem Leads.unlabelAll_updateAt (leads : Leads fields nodes path route owner field node)
    {f g : Node → Node} (same : field.unlabel (f node) = g (field.unlabel node)) :
    Field.unlabelAll fields (updateAt f route nodes) =
      updateAt g route (Field.unlabelAll fields nodes) := by
  induction leads with
  | @here _ nodes _ _ _ _ _ declared there =>
    have beside := Field.getElem?_unlabelAll nodes declared
    rw [there, Option.map_some] at beside
    rw [updateAt, updateAt, modify_eq_set there, modify_eq_set beside,
      Field.unlabelAll_set _ _ declared, same]
  | @composite _ nodes _ _ _ _ _ _ _ _ _ _ _ declared there leads ih =>
    have beside := Field.getElem?_unlabelAll nodes declared
    rw [there, Option.map_some] at beside
    rw [updateAt_cons f leads.route_ne_nil, updateAt_cons g leads.route_ne_nil, modify_eq_set there,
      modify_eq_set beside, Field.unlabelAll_set _ _ declared]
    exact congrArg (List.set _ _) (Node.mapChildren_mapChildren_congr (ih same))
  | @item _ nodes _ _ _ _ inner _ _ _ _ _ _ _ _ _ _ declared there counted leads ih =>
    have beside := Field.getElem?_unlabelAll nodes declared
    rw [there, Option.map_some] at beside
    have again := congrArg (Option.map (Node.mapChildren (Field.unlabelAll inner))) counted
    rw [← List.getElem?_map, Option.map_some] at again
    rw [updateAt_cons f (by simp), updateAt_cons g (by simp), modify_eq_set there,
      modify_eq_set beside, Field.unlabelAll_set _ _ declared]
    refine congrArg (List.set _ _) (Node.mapChildren_mapChildren_congr ?_)
    rw [updateAt_cons f leads.route_ne_nil, updateAt_cons g leads.route_ne_nil, modify_eq_set counted,
      modify_eq_set again, List.map_set]
    exact congrArg (List.set _ _) (Node.mapChildren_mapChildren_congr (ih same))

/-- The siblings of the node at the end of a route hold the same values in both trees. -/
theorem Leads.siblings (leads : Leads fields nodes path route owner field node) (top other : Node)
    (below : top.children = nodes) (beside : other.children = Field.unlabelAll fields nodes) :
    (((nodeAt? top route.dropLast).map Node.children).getD []).map Node.referent =
      (((nodeAt? other route.dropLast).map Node.children).getD []).map Node.referent := by
  induction leads generalizing top other with
  | here =>
    subst below
    exact (beside ▸ Field.referents_unlabelAll _ _).symm
  | @composite _ nodes _ _ _ _ _ _ _ _ _ _ _ declared there leads ih =>
    have again := Field.getElem?_unlabelAll nodes declared
    rw [there, Option.map_some] at again
    rw [List.dropLast_cons_of_ne_nil leads.route_ne_nil, nodeAt?, nodeAt?, below, beside, there, again]
    exact ih _ _ rfl (Field.children_unlabelAll _ _)
  | @item _ nodes _ _ _ _ inner _ _ _ _ _ _ _ _ _ _ declared there counted leads ih =>
    have again := Field.getElem?_unlabelAll nodes declared
    rw [there, Option.map_some] at again
    rw [List.dropLast_cons_of_ne_nil (by simp), List.dropLast_cons_of_ne_nil leads.route_ne_nil]
    simp only [nodeAt?, below, beside, there, again, counted, Option.bind_eq_bind, Option.bind_some,
      Field.children_unlabel, Field.scope, Scope.unlabel, List.getElem?_map, Option.map_some]
    exact ih _ _ rfl (Field.children_unlabelAll _ _)

end Changes

theorem Agree.alike {α β : Type} {results : α → β → Prop} {first : Except CodecError α}
    {second : Except CodecError β} (agree : Agree Eq results first second) :
    Agree CodecError.Alike results first second := by
  refine agree.imp ?_ fun _ _ _ related => related
  rintro error _ rfl
  exact .refl error

/-- An edit that reads no text. Text is read by the names of values, which is what labels are for. -/
def Edit.Textless : Edit → Prop
  | .setText .. => False
  | _ => True

theorem Node.scalar?_mapScalar (f : Scalar → Scalar) (node : Node) :
    (node.mapScalar f).scalar? = node.scalar?.map f := by
  cases node <;> rfl

theorem unlabel_put (type : ScalarType) (value : Value) (node : Node) :
    (node.mapScalar (Scalar.put · value (type.label? value))).mapScalar type.unlabel =
      (node.mapScalar type.unlabel).mapScalar
        (Scalar.put · value (type.unlabelled.label? value)) := by
  rw [type.label?_unlabelled]
  cases node <;> rfl

namespace Record

variable {record : Record} {nodes : List Node} {path : Path} {place other : Place} {scope : Scope}

theorem locate_unlabelled (record : Record) (path : Path) :
    Agree Eq (fun place other => ∃ scope, Place.Mirrors scope place other) (record.locate path)
      (record.unlabelled.locate path) := by
  have start : record.start.Mirrors (.fields record.template) record.unlabelled.start :=
    ⟨rfl, rfl, rfl, nofun, rfl⟩
  have unscoped : (.fields record.unlabelled.template : Scope) =
      (Scope.fields record.template).unlabelled := rfl
  unfold locate
  rw [unscoped]
  rcases start.follow? path with ⟨place, other, scope, first, second, mirrors⟩ | ⟨first, second⟩
  · rw [first, second]
    exact .ok ⟨scope, mirrors⟩
  · rw [first, second]
    exact .error rfl

theorem commit_unlabelled (shaped : Field.ShapedAll record.template nodes) :
    Agree Eq (fun done other => other = done.unlabelled) (record.commit nodes)
      (record.unlabelled.commit (Field.unlabelAll record.template nodes)) := by
  refine (settleWith_unlabelled Path.root ?_ 0).bind ?_
  · exact settleFields_unlabelled record.template nodes shaped [] [] rfl Path.root 0
  rintro ⟨fields, stop⟩ _ _ rfl
  exact .ok rfl

theorem scalarType_unlabelled (mirrors : place.Mirrors scope other) (path : Path) :
    Agree Eq (fun known again => again = (known.1, known.2.unlabelled)) (scalarType place path)
      (scalarType other path) := by
  unfold scalarType
  rw [mirrors.field]
  cases place.field with
  | none => exact .error rfl
  | some field =>
    cases field with
    | scalar => exact .ok rfl
    | composite | group => exact .error rfl

theorem setValue_unlabelled (shaped : Field.ShapedAll record.template record.fields) (path : Path)
    (value : Value) :
    Agree CodecError.Alike (fun done other => other = (done.1, done.2.unlabelled))
      (record.setValue path value) (record.unlabelled.setValue path value) := by
  refine (locate_unlabelled record path).alike.bind ?_
  rintro place other located ⟨scope, mirrors⟩
  refine (scalarType_unlabelled mirrors path).alike.bind ?_
  rintro ⟨name, type⟩ _ typed rfl
  have declared := scalarType_eq_ok.mp typed
  dsimp only
  rw [mirrors.owner, Template.groupCountedBy?_unlabelled]
  cases Template.groupCountedBy? place.owner name with
  | some group =>
    simp only [Option.map_some, Field.name_unlabelled]
    exact .error (.refl _)
  | none =>
    refine (type.accept_unlabelled value path).bind ?_
    rintro accepted _ accept rfl
    rw [mirrors.node _ declared, mirrors.route, Field.unlabel, Node.scalar?_mapScalar]
    cases holder : place.node.scalar? with
    | none => exact .error (.refl _)
    | some held =>
      simp only [Option.map_some]
      have put := (leads_of_locate located declared).unlabelAll_updateAt
        (unlabel_put type accepted place.node)
      have committed := commit_unlabelled (shaped_put shaped located declared accept)
      rw [put] at committed
      refine committed.alike.bind ?_
      rintro done _ _ rfl
      exact .ok rfl

/-- The group is one in both trees, and as present in the one as in the other. -/
theorem resizableGroup_unlabelled (located : record.locate path = .ok place)
    (mirrors : place.Mirrors scope other) :
    Agree Eq (fun fields again => again = Field.unlabelledAll fields)
      (record.resizableGroup place path) (record.unlabelled.resizableGroup other path) := by
  unfold resizableGroup
  rw [mirrors.field, mirrors.route]
  cases declared : place.field with
  | none => exact .error rfl
  | some field =>
    cases field with
    | scalar | composite => exact .error rfl
    | group name fields repetition condition =>
      have siblings := (leads_of_locate located declared).siblings record.root record.unlabelled.root rfl rfl
      simp only [Option.map_some, Field.unlabelled]
      cases repetition with
      | fixed count => exact .error rfl
      | counted | untilEnd | zeroTerminated =>
        cases condition with
        | none => exact .ok rfl
        | some condition =>
          dsimp only
          rw [siblingValue_congr siblings]
          refine .after (fun _ => rfl) _ fun value _ => ?_
          split
          · exact .error rfl
          · exact .ok rfl

/-- A change of a group's items that is the same one for unlabelled items is settled alike. -/
theorem change_unlabelled {fields : List Field} {change again : List Node → List Node}
    (located : record.locate path = .ok place)
    (resizable : record.resizableGroup place path = .ok fields)
    (shaped : Field.ShapedAll record.template
      (updateAt (Node.mapChildren change) place.route record.fields))
    (same : ∀ items, (change items).map (Node.mapChildren (Field.unlabelAll fields)) =
      again (items.map (Node.mapChildren (Field.unlabelAll fields)))) :
    Agree Eq (fun done other => other = done.unlabelled)
      (record.commit (updateAt (Node.mapChildren change) place.route record.fields))
      (record.unlabelled.commit
        (updateAt (Node.mapChildren again) place.route record.unlabelled.fields)) := by
  obtain ⟨name, repetition, condition, declared⟩ := of_resizableGroup resizable
  have changed := (leads_of_locate located declared).unlabelAll_updateAt
    (Node.mapChildren_mapChildren_congr (same place.node.children))
  have committed := commit_unlabelled shaped
  rwa [changed] at committed

theorem length_children_unlabelled {fields : List Field}
    (resizable : record.resizableGroup place path = .ok fields) (mirrors : place.Mirrors scope other) :
    other.node.children.length = place.node.children.length := by
  obtain ⟨name, repetition, condition, declared⟩ := of_resizableGroup resizable
  rw [mirrors.node _ declared, Field.length_children_unlabel]

theorem insertItem_unlabelled (shaped : Field.ShapedAll record.template record.fields) (path : Path)
    (index : Nat) :
    Agree Eq (fun done other => other = (done.1, done.2.unlabelled))
      (record.insertItem path index) (record.unlabelled.insertItem path index) := by
  refine (locate_unlabelled record path).bind ?_
  rintro place other located ⟨scope, mirrors⟩
  refine (resizableGroup_unlabelled located mirrors).bind ?_
  rintro fields _ resizable rfl
  rw [length_children_unlabelled resizable mirrors, mirrors.route]
  split
  · exact .error rfl
  · next inside =>
    have inserted (items : List Node) : (items.insertIdx index (defaultItem fields index)).map
        (Node.mapChildren (Field.unlabelAll fields)) =
          (items.map (Node.mapChildren (Field.unlabelAll fields))).insertIdx index
            (defaultItem (Field.unlabelledAll fields) index) := by
      rw [List.map_insertIdx, defaultItem_unlabelled]
    have shaped := shaped_insert shaped located resizable (Nat.le_of_not_lt inside)
    refine (change_unlabelled located resizable shaped inserted).bind ?_
    rintro done _ _ rfl
    exact .ok rfl

theorem removeItem_unlabelled (shaped : Field.ShapedAll record.template record.fields) (path : Path)
    (index : Nat) :
    Agree Eq (fun done other => other = (done.1, done.2.unlabelled))
      (record.removeItem path index) (record.unlabelled.removeItem path index) := by
  refine (locate_unlabelled record path).bind ?_
  rintro place other located ⟨scope, mirrors⟩
  refine (resizableGroup_unlabelled located mirrors).bind ?_
  rintro fields _ resizable rfl
  rw [length_children_unlabelled resizable mirrors, mirrors.route]
  split
  · exact .error rfl
  · have erased (items : List Node) :
        (items.eraseIdx index).map (Node.mapChildren (Field.unlabelAll fields)) =
          (items.map (Node.mapChildren (Field.unlabelAll fields))).eraseIdx index :=
      (List.eraseIdx_map ..).symm
    have shaped := shaped_erase shaped located resizable index
    refine (change_unlabelled located resizable shaped erased).bind ?_
    rintro done _ _ rfl
    exact .ok rfl

theorem apply_unlabelled (shaped : Field.ShapedAll record.template record.fields) (asked : Settings)
    {edit : Edit} (textless : edit.Textless) :
    Agree CodecError.Alike (fun done other => other = (done.1, done.2.unlabelled))
      (record.apply asked edit) (record.unlabelled.apply asked edit) := by
  cases edit with
  | setValue path value => exact setValue_unlabelled shaped path value
  | setText => exact textless.elim
  | insertItem path index => exact (insertItem_unlabelled shaped path index).alike
  | removeItem path index => exact (removeItem_unlabelled shaped path index).alike

theorem attempt_unlabelled (shaped : Field.ShapedAll record.template record.fields) (asked : Settings)
    {edit : Edit} (textless : edit.Textless) :
    record.unlabelled.attempt asked edit = (record.attempt asked edit).unlabelled := by
  have agree := apply_unlabelled shaped asked textless
  unfold attempt
  generalize record.apply asked edit = outcome, record.unlabelled.apply asked edit = other at agree
  cases agree with
  | error => rfl
  | ok same =>
    subst same
    rfl

theorem encode_unlabelled (shaped : Field.ShapedAll record.template record.fields) :
    record.unlabelled.encode = record.encode :=
  congrArg (· >>= fun bytes => pure (bytes ++ record.trailing))
    (encodeLevel_unlabelled shaped Path.root 0)

theorem decode_unlabelled (template : Template) (settings : Settings) (bytes : Bytes) :
    Agree Eq (fun record other => other = record.unlabelled) (decode template settings bytes)
      (decode template.unlabelled settings bytes) := by
  refine (decodeFields_unlabelled CountBound.fitting template [] [] rfl Path.root ⟨0, bytes⟩).bind ?_
  rintro ⟨fields, rest⟩ _ _ rfl
  dsimp only
  split
  · exact .error rfl
  · exact .ok rfl

def attempts (record : Record) (asked : Settings) (edits : List Edit) : Record :=
  edits.foldl (fun record edit => record.attempt asked edit) record

/-- Every edit of a run leaves the two records as they are but for the labels. -/
theorem Reachable.attempts_unlabelled {template : Template} {settings : Settings}
    (formed : template.WellFormed) (reachable : Reachable template settings record) (asked : Settings)
    {edits : List Edit} (textless : ∀ edit ∈ edits, edit.Textless) :
    Reachable template settings (record.attempts asked edits) ∧
      record.unlabelled.attempts asked edits = (record.attempts asked edits).unlabelled := by
  induction edits generalizing record with
  | nil => exact ⟨reachable, rfl⟩
  | cons edit edits ih =>
    obtain ⟨head, tail⟩ := List.forall_mem_cons.mp textless
    have step : record.unlabelled.attempt asked edit = (record.attempt asked edit).unlabelled :=
      attempt_unlabelled (reachable.laid formed).2.shaped asked head
    have follow := ih (reachable.edited asked edit) tail
    rw [← step] at follow
    exact follow

end Record

section Alike

/-- The scalars differ at most in the label and in the tag of an enumeration. -/
structure Scalar.Alike (held other : Scalar) : Prop where
  tag : other.tag = held.tag ∨ held.tag = .enumeration ∧ ∃ base, other.tag = .int base
  value : other.value = held.value
  raw : other.raw = held.raw

mutual
def Node.Alike : Node → Node → Prop
  | .scalar name span held, other => ∃ again, other = .scalar name span again ∧ held.Alike again
  | .branch name span tag children, other =>
    ∃ others, other = .branch name span tag others ∧ AlikeAll children others

def Node.AlikeAll : List Node → List Node → Prop
  | [], others => others = []
  | node :: nodes, others => ∃ other rest, others = other :: rest ∧ node.Alike other ∧ AlikeAll nodes rest
end

/-- The records have the same tree but for labels and the tags of enumerations, and the same bytes
after it. -/
structure Record.Alike (record other : Record) : Prop where
  fields : Node.AlikeAll record.fields other.fields
  laidOut : other.laidOut = record.laidOut
  trailing : other.trailing = record.trailing

theorem ScalarType.unlabel_alike {type : ScalarType} {held : Scalar} (holds : type.Holds held) :
    held.Alike (type.unlabel held) := by
  refine ⟨?_, rfl, rfl⟩
  rw [holds.tag]
  exact type.tag_unlabelled

mutual
theorem Field.unlabel_alike :
    (field : Field) → (node : Node) → field.Shaped node → node.Alike (field.unlabel node)
  | .scalar name type, _, ⟨span, held, same, holds⟩ => by
    subst same
    exact ⟨_, rfl, ScalarType.unlabel_alike holds⟩
  | .composite name fields, _, ⟨span, children, same, shaped⟩ => by
    subst same
    exact ⟨_, rfl, Field.unlabelAll_alike fields children shaped⟩
  | .group name fields _ _, _, ⟨span, items, same, shaped⟩ => by
    subst same
    refine ⟨_, rfl, ?_⟩
    induction items with
    | nil => rfl
    | cons item items ih =>
      obtain ⟨⟨kind, head⟩, tail⟩ := List.forall_mem_cons.mp shaped
      obtain ⟨_, _, children, rfl⟩ := Node.eq_branch_of_tag kind
      exact ⟨_, _, rfl, ⟨_, rfl, Field.unlabelAll_alike fields children head⟩, ih tail⟩

theorem Field.unlabelAll_alike :
    (fields : List Field) → (nodes : List Node) → Field.ShapedAll fields nodes →
      Node.AlikeAll nodes (Field.unlabelAll fields nodes)
  | [], _, shaped => by
    subst shaped
    rfl
  | field :: fields, _, ⟨node, nodes, same, first, follow⟩ => by
    subst same
    exact ⟨_, _, rfl, Field.unlabel_alike field node first, Field.unlabelAll_alike fields nodes follow⟩
end

theorem Record.unlabelled_alike {record : Record}
    (shaped : Field.ShapedAll record.template record.fields) : record.Alike record.unlabelled :=
  ⟨Field.unlabelAll_alike record.template record.fields shaped, rfl, rfl⟩

end Alike
end ResourceTemplate
