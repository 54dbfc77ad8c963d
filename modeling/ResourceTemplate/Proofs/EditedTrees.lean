import ResourceTemplate.Proofs.RoundTrip
import ResourceTemplate.Proofs.SettledTrees

/-! Edits of a tree. An edit follows a path to one node and changes it within the shape of its
field, so that the tree it has settled is of the right shape. -/
namespace ResourceTemplate

/-- A path leads along a route to the node of a field. The field list that declares the field
is its owner. -/
inductive Leads : (fields : List Field) → (nodes : List Node) → Path → (route : List Nat) →
    (owner : List Field) → Field → Node → Prop where
  | here {fields : List Field} {nodes : List Node} {name : String} {position : Nat} {field : Field}
      {node : Node} :
    Template.position? fields name = some position → fields[position]? = some field →
      nodes[position]? = some node → Leads fields nodes [.name name] [position] fields field node
  | composite {fields : List Field} {nodes : List Node} {name other : String} {position : Nat}
      {inner owner : List Field} {node found : Node} {path : Path} {route : List Nat}
      {field : Field} :
    Template.position? fields name = some position →
      fields[position]? = some (.composite other inner) → nodes[position]? = some node →
      Leads inner node.children path route owner field found →
      Leads fields nodes (.name name :: path) (position :: route) owner field found
  | item {fields : List Field} {nodes : List Node} {name other : String} {position index : Nat}
      {inner owner : List Field} {repetition : Repetition} {condition : Option Condition}
      {node item found : Node} {path : Path} {route : List Nat} {field : Field} :
    Template.position? fields name = some position →
      fields[position]? = some (.group other inner repetition condition) →
      nodes[position]? = some node → node.children[index]? = some item →
      Leads inner item.children path route owner field found →
      Leads fields nodes (.name name :: .index index :: path) (position :: index :: route) owner
        field found

section Leads

variable {fields owner : List Field} {nodes : List Node} {path : Path} {route : List Nat}
  {field : Field} {node : Node}

theorem Leads.route_ne_nil (leads : Leads fields nodes path route owner field node) :
    route ≠ [] := by
  cases leads <;> simp

theorem step?_name {place next : Place} {scope : Scope} {name : String} :
    place.step? (.fields fields) (.name name) = some (next, scope) ↔
      ∃ position field node, Template.position? fields name = some position ∧
        fields[position]? = some field ∧ place.node.children[position]? = some node ∧
        next = ⟨place.route ++ [position], node, some field, fields⟩ ∧ scope = field.scope := by
  simp only [Place.step?, Option.bind_eq_bind, Option.bind_eq_some_iff, Option.pure_def,
    Option.some.injEq, Prod.mk.injEq]
  constructor
  · rintro ⟨position, found, field, declared, node, there, same, inside⟩
    exact ⟨position, field, node, found, declared, there, same.symm, inside.symm⟩
  · rintro ⟨position, field, node, found, declared, there, rfl, rfl⟩
    exact ⟨position, found, field, declared, node, there, rfl, rfl⟩

theorem step?_index {place next : Place} {scope : Scope} {index : Nat} :
    place.step? (.items fields) (.index index) = some (next, scope) ↔
      ∃ node, place.node.children[index]? = some node ∧
        next = ⟨place.route ++ [index], node, none, place.owner⟩ ∧ scope = .fields fields := by
  simp only [Place.step?, Option.bind_eq_bind, Option.bind_eq_some_iff, Option.pure_def,
    Option.some.injEq, Prod.mk.injEq]
  constructor
  · rintro ⟨node, there, same, inside⟩
    exact ⟨node, there, same.symm, inside.symm⟩
  · rintro ⟨node, there, rfl, rfl⟩
    exact ⟨node, there, rfl, rfl⟩

theorem follow?_cons {place final : Place} {scope : Scope} {segment : Segment} {rest : Path} :
    place.follow? scope (segment :: rest) = some final ↔
      ∃ next inner, place.step? scope segment = some (next, inner) ∧
        next.follow? inner rest = some final := by
  simp [Place.follow?, Option.bind_eq_some_iff]

/-- A name is followed to the node of the field that it names. -/
theorem follow?_name {place final : Place} {name : String} {position : Nat} {rest : Path}
    (named : Template.position? fields name = some position) (declared : fields[position]? = some field) :
    place.follow? (.fields fields) (.name name :: rest) = some final ↔
      ∃ node, place.node.children[position]? = some node ∧
        Place.follow? ⟨place.route ++ [position], node, some field, fields⟩ field.scope rest =
          some final := by
  rw [follow?_cons]
  constructor
  · rintro ⟨next, scope, step, follow⟩
    obtain ⟨_, _, node, found, same, there, rfl, rfl⟩ := step?_name.mp step
    obtain rfl := Option.some.inj (named.symm.trans found)
    obtain rfl := Option.some.inj (declared.symm.trans same)
    exact ⟨node, there, follow⟩
  · rintro ⟨node, there, follow⟩
    exact ⟨_, _, step?_name.mpr ⟨position, field, node, named, declared, there, rfl, rfl⟩, follow⟩

theorem follow?_index {place final : Place} {index : Nat} {rest : Path} :
    place.follow? (.items fields) (.index index :: rest) = some final ↔
      ∃ item, place.node.children[index]? = some item ∧
        Place.follow? ⟨place.route ++ [index], item, none, place.owner⟩ (.fields fields) rest =
          some final := by
  rw [follow?_cons]
  constructor
  · rintro ⟨next, scope, step, follow⟩
    obtain ⟨item, there, rfl, rfl⟩ := step?_index.mp step
    exact ⟨item, there, follow⟩
  · rintro ⟨item, there, follow⟩
    exact ⟨_, _, step?_index.mpr ⟨item, there, rfl, rfl⟩, follow⟩

/-- Where a path that is followed ends at a field, it leads there along the rest of its route. -/
theorem leads_of_follow? (path : Path) (fields : List Field) (place final : Place)
    (found : place.follow? (.fields fields) path = some final) (field : Field)
    (ends : final.field = some field) :
    path = [] ∧ final = place ∨ ∃ route, final.route = place.route ++ route ∧
      Leads fields place.node.children path route final.owner field final.node := by
  cases path with
  | nil => exact .inl ⟨rfl, (Option.some.inj found).symm⟩
  | cons segment rest =>
    obtain ⟨next, scope, step, follow⟩ := follow?_cons.mp found
    cases segment with
    | index => nomatch step
    | name name =>
      obtain ⟨position, declared, node, named, at_, there, rfl, rfl⟩ := step?_name.mp step
      right
      have here (last : rest = [] ∧ final = ⟨place.route ++ [position], node, some declared, fields⟩) :
          ∃ route, final.route = place.route ++ route ∧ Leads fields place.node.children
            (.name name :: rest) route final.owner field final.node := by
        obtain ⟨rfl, rfl⟩ := last
        obtain rfl := Option.some.inj ends
        exact ⟨[position], rfl, .here named at_ there⟩
      cases declared with
      | scalar =>
        cases rest with
        | nil => exact here ⟨rfl, (Option.some.inj follow).symm⟩
        | cons => nomatch follow
      | composite other inner =>
        rcases leads_of_follow? rest inner _ final follow field ends with last | ⟨route, same, leads⟩
        · exact here last
        · exact ⟨position :: route, by simp [same], .composite named at_ there leads⟩
      | group other inner repetition condition =>
        cases rest with
        | nil => exact here ⟨rfl, (Option.some.inj follow).symm⟩
        | cons segment rest =>
          obtain ⟨next, scope, step, follow⟩ := follow?_cons.mp follow
          cases segment with
          | name => nomatch step
          | index index =>
            obtain ⟨item, counted, rfl, rfl⟩ := step?_index.mp step
            rcases leads_of_follow? rest inner _ final follow field ends with
              ⟨_, rfl⟩ | ⟨route, same, leads⟩
            · nomatch ends
            · exact ⟨position :: index :: route, by simp [same],
                .item named at_ there counted leads⟩
termination_by path.length

/-- A path that leads to a field is followed to it. -/
theorem Leads.follow? (leads : Leads fields nodes path route owner field node) (place : Place)
    (below : place.node.children = nodes) :
    place.follow? (.fields fields) path = some ⟨place.route ++ route, node, some field, owner⟩ := by
  induction leads generalizing place with
  | here named declared there =>
    exact (follow?_name named declared).mpr ⟨_, below ▸ there, rfl⟩
  | composite named declared there _ ih =>
    refine (follow?_name named declared).mpr ⟨_, below ▸ there, ?_⟩
    rw [Field.scope, ih _ rfl]
    simp
  | item named declared there counted _ ih =>
    refine (follow?_name named declared).mpr ⟨_, below ▸ there, ?_⟩
    refine follow?_index.mpr ⟨_, counted, ?_⟩
    rw [ih _ rfl]
    simp

theorem updateAt_cons (f : Node → Node) {position : Nat} (below : route ≠ []) :
    updateAt f (position :: route) nodes =
      nodes.modify position (Node.mapChildren (updateAt f route)) := by
  cases route with
  | nil => exact absurd rfl below
  | cons => rfl

theorem children_updateAt (f : Node → Node) (route : List Nat) (node : Node) :
    (node.mapChildren (updateAt f route)).children = updateAt f route node.children := by
  cases node with
  | scalar =>
    match route with
    | [] => rfl
    | [_] | _ :: _ :: _ => exact (List.modify_nil ..).symm
  | branch => rfl

theorem modify_eq_set {f : Node → Node} {position : Nat} (there : nodes[position]? = some node) :
    nodes.modify position f = nodes.set position (f node) := by
  induction nodes generalizing position with
  | nil => simp at there
  | cons head nodes ih =>
    cases position with
    | zero =>
      obtain rfl : head = node := by simpa using there
      rfl
    | succ position => simpa using ih (by simpa using there)

theorem shaped_mapChildren {change : List Node → List Node} (shaped : Field.ItemShaped fields node)
    (changed : Field.ShapedAll fields (change node.children)) :
    Field.ItemShaped fields (node.mapChildren change) := by
  obtain ⟨name, span, children, rfl⟩ := Node.eq_branch_of_tag shaped.1
  exact ⟨rfl, changed⟩

/-- A default item has the shape of the items it is put among. -/
theorem shaped_insertIdx {items : List Node} {index : Nat}
    (inside : index ≤ items.length) (shaped : ∀ item ∈ items, Field.ItemShaped fields item) :
    ∀ item ∈ items.insertIdx index (defaultItem fields index), Field.ItemShaped fields item := by
  intro item member
  rcases (List.mem_insertIdx inside).mp member with rfl | member
  · exact ⟨rfl, Field.shapedAll_defaults fields⟩
  · exact shaped item member

theorem shaped_setItem {items : List Node} {new : Node}
    (shaped : ∀ item ∈ items, Field.ItemShaped fields item) (changed : Field.ItemShaped fields new)
    (index : Nat) : ∀ item ∈ items.set index new, Field.ItemShaped fields item := by
  intro item member
  rcases List.mem_or_eq_of_mem_set member with member | rfl
  · exact shaped item member
  · exact changed

/-- A change within the shape of the field at the end of a route is one within the shape of the
tree. -/
theorem Leads.shaped_updateAt (leads : Leads fields nodes path route owner field node)
    {f : Node → Node} (kept : field.Shaped node → field.Shaped (f node))
    (shaped : Field.ShapedAll fields nodes) : Field.ShapedAll fields (updateAt f route nodes) := by
  induction leads with
  | here _ declared there =>
    rw [updateAt, modify_eq_set there]
    exact shaped.set declared (kept (shaped.getElem? declared there))
  | composite _ declared there leads ih =>
    rw [updateAt_cons f leads.route_ne_nil, modify_eq_set there]
    obtain ⟨span, children, rfl, inner⟩ := shaped.getElem? declared there
    exact shaped.set declared ⟨span, _, rfl, ih kept inner⟩
  | item _ declared there counted leads ih =>
    rw [updateAt_cons f (by simp), modify_eq_set there]
    obtain ⟨span, items, rfl, inner⟩ := shaped.getElem? declared there
    rw [Node.children_branch] at counted
    have held := inner _ (List.mem_of_getElem? counted)
    refine shaped.set declared ⟨span, _, rfl, ?_⟩
    rw [updateAt_cons f leads.route_ne_nil, modify_eq_set counted]
    exact shaped_setItem inner (shaped_mapChildren held (ih kept held.2)) _

end Leads

namespace Record

variable {record : Record} {path : Path} {place : Place} {field : Field}

theorem locate_eq_ok : record.locate path = .ok place ↔
    record.start.follow? (.fields record.template) path = some place := by
  unfold locate
  split
  · next final followed => rw [pure_eq_ok, followed, Option.some.injEq]
  · next lost => exact iff_of_false throw_ne_ok (by simp [lost])

theorem leads_of_locate (found : record.locate path = .ok place) (ends : place.field = some field) :
    Leads record.template record.fields path place.route place.owner field place.node := by
  rcases leads_of_follow? path _ _ _ (locate_eq_ok.mp found) field ends with
    ⟨_, rfl⟩ | ⟨route, same, leads⟩
  · nomatch ends
  · obtain rfl : place.route = route := same
    exact leads

theorem locate_of_leads {owner : List Field} {route : List Nat} {node : Node}
    (leads : Leads record.template record.fields path route owner field node) :
    record.locate path = .ok ⟨route, node, some field, owner⟩ :=
  locate_eq_ok.mpr (leads.follow? record.start rfl)

theorem scalarType_eq_ok {name : String} {type : ScalarType} :
    scalarType place path = .ok (name, type) ↔ place.field = some (.scalar name type) := by
  unfold scalarType
  split
  · next other found declared => simp [declared]
  · next other =>
    apply iff_of_false nofun
    intro declared
    exact other _ _ declared

/-- A new value is put where the path leads, in the form that the type of the scalar there
accepts. Count fields take none. -/
theorem setValue_eq_ok {result : Record} {value : Value} {event : Event} :
    record.setValue path value = .ok (event, result) ↔
      ∃ place name type accepted held, record.locate path = .ok place ∧
        place.field = some (.scalar name type) ∧
        Template.groupCountedBy? place.owner name = none ∧
        type.accept value path = .ok accepted ∧ place.node.scalar? = some held ∧
        record.commit (updateAt (Node.mapScalar (Scalar.put · accepted (type.label? accepted)))
          place.route record.fields) = .ok result ∧
        event = ⟨path, .value held.value accepted⟩ := by
  constructor
  · intro done
    obtain ⟨place, located, done⟩ := bind_eq_ok.mp done
    obtain ⟨⟨name, type⟩, typed, done⟩ := bind_eq_ok.mp done
    dsimp only at done
    cases free : Template.groupCountedBy? place.owner name with
    | some group =>
      rw [free] at done
      nomatch done
    | none =>
      rw [free] at done
      obtain ⟨accepted, accept, done⟩ := bind_eq_ok.mp done
      cases holder : place.node.scalar? with
      | none =>
        rw [holder] at done
        nomatch done
      | some held =>
        rw [holder] at done
        obtain ⟨again, committed, done⟩ := bind_eq_ok.mp done
        obtain ⟨rfl, rfl⟩ := Prod.mk.inj (pure_eq_ok.mp done)
        exact ⟨place, name, type, accepted, held, located, scalarType_eq_ok.mp typed, free, accept,
          holder, committed, rfl⟩
  · rintro ⟨place, name, type, accepted, held, located, declared, free, accept, holder, committed, rfl⟩
    simp only [setValue, located, ok_bind, scalarType_eq_ok.mpr declared, free, accept, holder,
      committed]
    rfl

/-- A text that stands for a value is taken as the value. -/
theorem setText_eq {settings : Settings} {text : String} {name : String} {type : ScalarType}
    {value : Value} (located : record.locate path = .ok place)
    (declared : place.field = some (.scalar name type))
    (parsed : TextEntry.parse type settings text = .ok value) :
    record.setText settings path text = record.setValue path value := by
  rw [setText, located, ok_bind, scalarType_eq_ok.mpr declared, ok_bind]
  dsimp only
  rw [parsed]

theorem setText_eq_ok {result : Record} {settings : Settings} {text : String} {event : Event} :
    record.setText settings path text = .ok (event, result) ↔
      ∃ place name type value, record.locate path = .ok place ∧
        place.field = some (.scalar name type) ∧ TextEntry.parse type settings text = .ok value ∧
        record.setValue path value = .ok (event, result) := by
  constructor
  · intro done
    obtain ⟨place, located, done⟩ := bind_eq_ok.mp done
    obtain ⟨⟨name, type⟩, typed, done⟩ := bind_eq_ok.mp done
    dsimp only at done
    split at done
    · next value parsed =>
      exact ⟨place, name, type, value, located, scalarType_eq_ok.mp typed, parsed, done⟩
    · nomatch done
  · rintro ⟨place, name, type, value, located, declared, parsed, done⟩
    rw [setText_eq located declared parsed, done]

theorem insertItem_eq_ok {result : Record} {index : Nat} {event : Event} :
    record.insertItem path index = .ok (event, result) ↔
      ∃ place fields, record.locate path = .ok place ∧ record.resizableGroup place path = .ok fields ∧
        index ≤ place.node.children.length ∧
        record.commit (updateAt (Node.mapChildren (·.insertIdx index (defaultItem fields index)))
          place.route record.fields) = .ok result ∧
        event = ⟨path, .inserted index⟩ := by
  constructor
  · intro done
    obtain ⟨place, located, done⟩ := bind_eq_ok.mp done
    obtain ⟨fields, resizable, done⟩ := bind_eq_ok.mp done
    split at done
    · nomatch done
    · next inside =>
      obtain ⟨again, committed, done⟩ := bind_eq_ok.mp done
      obtain ⟨rfl, rfl⟩ := Prod.mk.inj (pure_eq_ok.mp done)
      exact ⟨place, fields, located, resizable, Nat.le_of_not_lt inside, committed, rfl⟩
  · rintro ⟨place, fields, located, resizable, inside, committed, rfl⟩
    simp only [insertItem, located, ok_bind, resizable, Nat.not_lt_of_le inside, if_false, committed]
    rfl

theorem removeItem_eq_ok {result : Record} {index : Nat} {event : Event} :
    record.removeItem path index = .ok (event, result) ↔
      ∃ place fields, record.locate path = .ok place ∧ record.resizableGroup place path = .ok fields ∧
        index < place.node.children.length ∧
        record.commit (updateAt (Node.mapChildren (·.eraseIdx index)) place.route record.fields) =
          .ok result ∧
        event = ⟨path, .removed index⟩ := by
  constructor
  · intro done
    obtain ⟨place, located, done⟩ := bind_eq_ok.mp done
    obtain ⟨fields, resizable, done⟩ := bind_eq_ok.mp done
    split at done
    · nomatch done
    · next inside =>
      obtain ⟨again, committed, done⟩ := bind_eq_ok.mp done
      obtain ⟨rfl, rfl⟩ := Prod.mk.inj (pure_eq_ok.mp done)
      exact ⟨place, fields, located, resizable, Nat.lt_of_not_le inside, committed, rfl⟩
  · rintro ⟨place, fields, located, resizable, inside, committed, rfl⟩
    simp only [removeItem, located, ok_bind, resizable, Nat.not_le_of_lt inside, if_false, committed]
    rfl

theorem of_resizableGroup {fields : List Field}
    (found : record.resizableGroup place path = .ok fields) :
    ∃ name repetition condition, place.field = some (.group name fields repetition condition) := by
  unfold resizableGroup at found
  split at found
  · next name inner repetition condition declared =>
    have same : inner = fields := by
      cases repetition with
      | fixed => nomatch found
      | counted | untilEnd | zeroTerminated =>
        cases condition with
        | none => exact pure_eq_ok.mp found
        | some condition =>
          obtain ⟨value, _, found⟩ := bind_eq_ok.mp found
          split at found
          · nomatch found
          · exact pure_eq_ok.mp found
    exact ⟨name, repetition, condition, same ▸ declared⟩
  · nomatch found

/-- A change of a group's items is one within the shape of the record when the items it leaves
have the shape of the group's fields. -/
theorem shaped_change {fields : List Field} {change : List Node → List Node}
    (shaped : Field.ShapedAll record.template record.fields) (located : record.locate path = .ok place)
    (resizable : record.resizableGroup place path = .ok fields)
    (kept : (∀ item ∈ place.node.children, Field.ItemShaped fields item) →
      ∀ item ∈ change place.node.children, Field.ItemShaped fields item) :
    Field.ShapedAll record.template
      (updateAt (Node.mapChildren change) place.route record.fields) := by
  obtain ⟨name, repetition, condition, declared⟩ := of_resizableGroup resizable
  refine (leads_of_locate located declared).shaped_updateAt ?_ shaped
  rintro ⟨span, items, same, inner⟩
  rw [same] at kept ⊢
  exact ⟨span, change items, rfl, kept inner⟩

/-- An accepted value is put into a tree within its shape. -/
theorem shaped_put {name : String} {type : ScalarType} {value accepted : Value}
    (shaped : Field.ShapedAll record.template record.fields) (located : record.locate path = .ok place)
    (declared : place.field = some (.scalar name type))
    (accept : type.accept value path = .ok accepted) :
    Field.ShapedAll record.template
      (updateAt (Node.mapScalar (Scalar.put · accepted (type.label? accepted))) place.route
        record.fields) := by
  refine (leads_of_locate located declared).shaped_updateAt ?_ shaped
  rintro ⟨span, held, same, holds⟩
  rw [same]
  exact ⟨span, _, rfl, ScalarType.holds_put holds (ScalarType.admits_of_accept accept)⟩

theorem shaped_insert {fields : List Field} {index : Nat}
    (shaped : Field.ShapedAll record.template record.fields) (located : record.locate path = .ok place)
    (resizable : record.resizableGroup place path = .ok fields)
    (inside : index ≤ place.node.children.length) :
    Field.ShapedAll record.template
      (updateAt (Node.mapChildren (·.insertIdx index (defaultItem fields index))) place.route
        record.fields) :=
  shaped_change shaped located resizable (shaped_insertIdx inside)

theorem shaped_erase {fields : List Field}
    (shaped : Field.ShapedAll record.template record.fields) (located : record.locate path = .ok place)
    (resizable : record.resizableGroup place path = .ok fields) (index : Nat) :
    Field.ShapedAll record.template
      (updateAt (Node.mapChildren (·.eraseIdx index)) place.route record.fields) :=
  shaped_change shaped located resizable fun inner item member =>
    inner item (List.mem_of_mem_eraseIdx member)

theorem setValue_commits {value : Value} {event : Event} {result : Record}
    (shaped : Field.ShapedAll record.template record.fields)
    (done : record.setValue path value = .ok (event, result)) :
    ∃ fields, Field.ShapedAll record.template fields ∧ record.commit fields = .ok result := by
  obtain ⟨place, name, type, accepted, held, located, declared, _, accept, _, committed, _⟩ :=
    setValue_eq_ok.mp done
  exact ⟨_, shaped_put shaped located declared accept, committed⟩

/-- Every edit that is done has a tree of the right shape settled. -/
theorem apply_commits {settings : Settings} {edit : Edit} {event : Event} {result : Record}
    (shaped : Field.ShapedAll record.template record.fields)
    (done : record.apply settings edit = .ok (event, result)) :
    ∃ fields, Field.ShapedAll record.template fields ∧ record.commit fields = .ok result := by
  cases edit with
  | setValue path value => exact setValue_commits shaped done
  | setText path text =>
    obtain ⟨_, _, _, _, _, _, _, done⟩ := setText_eq_ok.mp done
    exact setValue_commits shaped done
  | insertItem path index =>
    obtain ⟨place, fields, located, resizable, inside, committed, _⟩ := insertItem_eq_ok.mp done
    exact ⟨_, shaped_insert shaped located resizable inside, committed⟩
  | removeItem path index =>
    obtain ⟨place, fields, located, resizable, _, committed, _⟩ := removeItem_eq_ok.mp done
    exact ⟨_, shaped_erase shaped located resizable index, committed⟩

/-- What is adopted is laid out, and settled apart from the groups whose condition tests a
count. -/
theorem laid_of_commit {fields : List Node} {result : Record}
    (formed : record.template.WellFormed) (shaped : Field.ShapedAll record.template fields)
    (committed : record.commit fields = .ok result) :
    result.template = record.template ∧ result.trailing = record.trailing ∧
      result.Laid SettledApart := by
  obtain ⟨⟨nodes, stop⟩, settled, made⟩ := bind_eq_ok.mp committed
  obtain rfl := pure_eq_ok.mp made
  obtain ⟨kept, laid⟩ := settleWith_lays formed.1
    (settleFields_lays record.template formed.2 fields shaped [] Path.root 0) settled
  exact ⟨rfl, rfl, kept, laid⟩

/-- Settling a settled record again leaves it as it is. -/
theorem Laid.commit_eq (formed : record.template.WellFormed) (laid : record.LaidOut) :
    record.commit record.fields = .ok record := by
  have settled : settleLevel record.template record.fields Path.root 0 =
      .ok (record.fields, record.laidOut) :=
    settleWith_settled laid.kept laid.laid.names laid.laid.names (settleFields_settled record.template
      formed.2 [] formed.1 0 [] 0 ⟨rfl, rfl⟩ record.fields record.laidOut laid.laid laid.kept Path.root)
  rw [commit, settled]
  rfl

end Record
end ResourceTemplate
