import ResourceTemplate.Proofs.Resettling

/-! The same value set twice. Settling finds the changed scalar where it was, since the groups on
the way to it hold items and so stay present, and leaves the value there. -/
namespace ResourceTemplate

section Positions

variable {fields : List Field} {nodes middle result : List Node} {before : List Node} {parent : Path}
  {start stop position : Nat} {field : Field} {node : Node}

theorem set_of_getElem? (there : nodes[position]? = some node) : nodes.set position node = nodes := by
  obtain ⟨inside, rfl⟩ := List.getElem?_eq_some_iff.mp there
  exact List.set_getElem_self inside

theorem face_set {again : Node} (there : nodes[position]? = some node) (same : again.face = node.face) :
    (nodes.set position again).map Node.face = nodes.map Node.face := by
  rw [List.map_set, same]
  obtain ⟨inside, rfl⟩ := List.getElem?_eq_some_iff.mp there
  rw [← List.map_set, List.set_getElem_self inside]

/-- A change that leaves the children of a node as they are leaves the nodes as they are. -/
theorem updateAt_eq_self {f : Node → Node} {route : List Nat} (there : nodes[position]? = some node)
    (below : route ≠ []) (same : updateAt f route node.children = node.children) :
    updateAt f (position :: route) nodes = nodes := by
  have kept : node.mapChildren (updateAt f route) = node := by
    cases node with
    | scalar => rfl
    | branch name span tag children => exact congrArg (Node.branch name span tag) same
  rw [updateAt_cons f below, modify_eq_set there, kept]
  exact set_of_getElem? there

/-- Each field is settled from its own node, after the settled nodes of the fields before it. -/
theorem settleFields_at (settled : settleFields fields nodes before parent start = .ok (middle, stop))
    (declared : fields[position]? = some field) (there : nodes[position]? = some node) :
    ∃ front again back place, middle = front ++ again :: back ∧ front.length = position ∧
      settleField field node (before ++ front) (parent.child field.name) place = .ok again := by
  induction fields generalizing nodes before start middle position with
  | nil => simp at declared
  | cons first fields ih =>
    cases nodes with
    | nil => simp at there
    | cons head nodes =>
      obtain ⟨again, rest, alone, follow, rfl⟩ := settleFields_cons.mp settled
      cases position with
      | zero =>
        obtain ⟨rfl, rfl⟩ : first = field ∧ head = node := by simpa using And.intro declared there
        exact ⟨[], again, rest, start, rfl, rfl, by simpa using alone⟩
      | succ position =>
        obtain ⟨front, final, back, place, rfl, rfl, settled⟩ :=
          ih follow (by simpa using declared) (by simpa using there)
        exact ⟨again :: front, final, back, place, rfl, rfl, by simpa using settled⟩

theorem settleItems_at {item : ItemSettler} {items : List Node} {index : Nat}
    (settled : settleItems item nodes index start = .ok (items, stop))
    (there : nodes[position]? = some node) :
    ∃ again place, items[position]? = some again ∧ item (index + position) node place = .ok again := by
  induction nodes generalizing index start items position with
  | nil => simp at there
  | cons head nodes ih =>
    obtain ⟨again, rest, alone, follow, rfl⟩ := settleItems_cons.mp settled
    cases position with
    | zero =>
      obtain rfl : head = node := by simpa using there
      exact ⟨again, start, rfl, alone⟩
    | succ position =>
      obtain ⟨final, place, found, settled⟩ := ih follow (by simpa using there)
      exact ⟨final, place, found, by rwa [Nat.add_assoc, Nat.add_comm 1] at settled⟩

theorem Recounted.getElem? {counts : List (String × Int)}
    (recounted : Recounted counts fields nodes result) (declared : fields[position]? = some field)
    (there : nodes[position]? = some node) :
    ∃ again, result[position]? = some again ∧ field.Recounted counts node again := by
  induction recounted generalizing position with
  | nil => simp at declared
  | cons head _ ih =>
    cases position with
    | zero =>
      obtain ⟨rfl, rfl⟩ : _ = field ∧ _ = node := by simpa using And.intro declared there
      exact ⟨_, rfl, head⟩
    | succ position => exact ih (by simpa using declared) (by simpa using there)

end Positions

section Alone

variable {fields inner : List Field} {nodes result : List Node} {parent : Path}
  {start stop position : Nat} {node : Node} (checked : Template.check fields = .ok ())
  (nested : Field.AllNested (·.check = .ok ()) fields) (shaped : Field.ShapedAll fields nodes)
  (settled : settleLevel fields nodes parent start = .ok (result, stop))
  (there : nodes[position]? = some node)
include checked nested shaped settled there

/-- A field of a level that is no count field comes out as it is settled on its own. -/
theorem settleLevel_at {field : Field} (declared : fields[position]? = some field)
    (free : ∀ name type, field = .scalar name type → Template.groupCountedBy? fields name = none) :
    ∃ front again back place, settleField field node front (parent.child field.name) place = .ok again ∧
      result[position]? = some again ∧
      (front ++ again :: back).map Node.face = nodes.map Node.face := by
  have fills := settleFields_lays fields nested nodes shaped [] parent start
  obtain ⟨middle, first, recounted, _⟩ := settleWith_recounts checked fills settled
  have faces := settleFields_face first
  obtain ⟨front, again, back, place, rfl, rfl, alone⟩ := settleFields_at first declared there
  have inside : (front ++ again :: back)[front.length]? = some again := by simp
  obtain ⟨final, found, kept⟩ := recounted.getElem? declared inside
  refine ⟨front, again, back, place, alone, ?_, faces⟩
  rcases kept with rfl | ⟨name, type, _, _, _, n, same, _, counted, _⟩
  · exact found
  · have called := (calledFor_names _ _ _).subset
      (List.mem_map_of_mem (f := Prod.fst) (mem_missed.mp counted).1)
    exact absurd called (Template.groupCountedBy?_eq_none.mp (free name type same))

theorem settleLevel_composite_at {name : String}
    (declared : fields[position]? = some (.composite name inner)) :
    ∃ again path place last, result[position]? = some again ∧
      settleLevel inner node.children path place = .ok (again.children, last) := by
  obtain ⟨span, children, rfl, _⟩ := shaped.getElem? declared there
  obtain ⟨front, again, back, place, alone, found, _⟩ :=
    settleLevel_at checked nested shaped settled there declared nofun
  obtain ⟨below, last, level, rfl⟩ := settleField_composite.mp alone
  exact ⟨_, _, place, last, found, level⟩

/-- An item of a group that is present, and has the number of items asked for, is settled as a
level. -/
theorem settleLevel_item_at {name : String} {repetition : Repetition} {condition : Option Condition}
    {index : Nat} {item : Node}
    (declared : fields[position]? = some (.group name inner repetition condition))
    (counted : node.children[index]? = some item) (present : verdict? condition nodes = some true)
    (fixed : ∀ count, repetition = .fixed count → node.children.length = count) :
    ∃ again below path place last, result[position]? = some again ∧
      again.children[index]? = some below ∧
      settleLevel inner item.children path place = .ok (below.children, last) := by
  obtain ⟨span, items, rfl, each⟩ := shaped.getElem? declared there
  obtain ⟨front, again, back, place, alone, found, faces⟩ :=
    settleLevel_at checked nested shaped settled there declared nofun
  have known : verdict? condition (front ++ again :: back) = some true :=
    (verdict?_congr faces condition).trans present
  rcases settleField_group.mp alone with ⟨absent, _⟩ | ⟨_, kept, _, several, rfl⟩
  · nomatch (verdict?_append absent).symm.trans known
  · rw [Node.children_branch] at counted fixed
    rw [fillItems_eq fixed] at several
    obtain ⟨below, place, held, inside⟩ := settleItems_at several counted
    have kind : item.tag = .branch .item := (each item (List.mem_of_getElem? counted)).1
    obtain ⟨children, last, level, rfl⟩ := (settleItem_eq_ok kind).mp inside
    exact ⟨_, _, _, place, last, found, held, level⟩

end Alone

section Twice

variable {name : String} {type : ScalarType} {held : Scalar} {change : Scalar → Scalar}

theorem Leads.shaped_changed {fields owner : List Field} {nodes : List Node} {path : Path}
    {route : List Nat} {field : Field} {found : Node}
    (leads : Leads fields nodes path route owner field found) (scalar : field = .scalar name type)
    (holder : found.scalar? = some held) (kept : type.Holds held → type.Holds (change held))
    (shaped : Field.ShapedAll fields nodes) :
    Field.ShapedAll fields (updateAt (Node.mapScalar change) route nodes) := by
  refine leads.shaped_updateAt ?_ shaped
  subst scalar
  rintro ⟨span, other, rfl, holds⟩
  obtain rfl : other = held := by simpa using holder
  exact ⟨span, change other, rfl, kept holds⟩

/-- Once a scalar that is no count field is changed and its tree settled, the same path leads to
the changed scalar, and the same change changes nothing. -/
theorem Leads.changed {fields owner : List Field} {nodes : List Node} {path : Path} {route : List Nat}
    {field : Field} {found : Node} (leads : Leads fields nodes path route owner field found)
    (scalar : field = .scalar name type) (holder : found.scalar? = some held)
    (free : Template.groupCountedBy? owner name = none)
    (kept : type.Holds held → type.Holds (change held)) (stable : change (change held) = change held)
    (checked : Template.check fields = .ok ()) (nested : Field.AllNested (·.check = .ok ()) fields)
    {start stop place last : Nat} (laid : Field.LevelLaid Settled fields start nodes stop)
    {parent : Path} {result : List Node}
    (settled : settleLevel fields (updateAt (Node.mapScalar change) route nodes) parent place =
      .ok (result, last)) :
    ∃ again, Leads fields result path route owner field again ∧ again.scalar? = some (change held) ∧
      updateAt (Node.mapScalar change) route result = result := by
  have shaped := leads.shaped_changed scalar holder kept (Field.LaidAll.shaped _ _ _ _ laid.2)
  induction leads generalizing start stop place last parent result with
  | @here fields nodes name position field node named declared there =>
    subst scalar
    cases node with
    | branch => nomatch holder
    | scalar other span old =>
      obtain rfl : old = held := by simpa using holder
      rw [updateAt, modify_eq_set there] at settled shaped
      have inside := (List.getElem?_eq_some_iff.mp there).1
      obtain ⟨front, again, back, place, alone, found, _⟩ := settleLevel_at checked nested shaped settled
        (List.getElem?_set_self inside) declared (fun _ _ same => by cases same; exact free)
      obtain rfl := pure_eq_ok.mp alone
      refine ⟨_, .here named declared found, rfl, ?_⟩
      rw [updateAt, modify_eq_set found, Node.mapScalar, stable]
      exact set_of_getElem? found
  | @composite fields nodes name other position inner owner node found path route field named declared
      there leads ih =>
    have paired := mem_zip_of_getElem? declared there
    obtain ⟨_, length, children, rfl, laid⟩ := laid.2.pair paired
    obtain ⟨checked', nested'⟩ := nested.member (List.mem_of_getElem? declared)
    rw [updateAt_cons _ leads.route_ne_nil, modify_eq_set there] at settled shaped
    have inside := (List.getElem?_eq_some_iff.mp there).1
    obtain ⟨again, _, _, _, there, below⟩ := settleLevel_composite_at checked nested shaped settled
      (List.getElem?_set_self inside) declared
    obtain ⟨final, leads, holds, same⟩ := ih scalar holder free checked' nested' laid below
      (leads.shaped_changed scalar holder kept (Field.LaidAll.shaped _ _ _ _ laid.2))
    exact ⟨final, .composite named declared there leads, holds,
      updateAt_eq_self there leads.route_ne_nil same⟩
  | @item fields nodes name other position index inner owner repetition condition node item found path
      route field named declared there counted leads ih =>
    have paired := mem_zip_of_getElem? declared there
    have group := laid.1 _ paired
    -- A group that holds an item is present, before the change as after it.
    have present : verdict? condition nodes = some true :=
      group.present (List.mem_of_getElem? counted)
    have still (again : Node) (same : again.face = node.face) :
        verdict? condition (nodes.set position again) = some true :=
      (verdict?_congr (face_set there same) condition).trans present
    obtain ⟨_, length, items, rfl, laid⟩ := laid.2.pair paired
    rw [Node.children_branch] at counted
    obtain ⟨_, laid, _⟩ := itemsLaid_of_present laid (group.terminated present)
    obtain ⟨_, origin, _, children, rfl, laid⟩ := laid.member (List.mem_of_getElem? counted)
    obtain ⟨checked', nested'⟩ := nested.member (List.mem_of_getElem? declared)
    rw [updateAt_cons _ (by simp), modify_eq_set there, Node.mapChildren,
      updateAt_cons _ leads.route_ne_nil, modify_eq_set counted] at settled shaped
    have inside := (List.getElem?_eq_some_iff.mp there).1
    have among := (List.getElem?_eq_some_iff.mp counted).1
    obtain ⟨again, item, _, _, _, there, counted, below⟩ := settleLevel_item_at checked nested shaped
      settled (List.getElem?_set_self inside) declared (List.getElem?_set_self among)
      (still _ rfl)
      (fun count same => List.length_set.trans (group.fixed present count same))
    obtain ⟨final, leads, holds, same⟩ := ih scalar holder free checked' nested' laid below
      (leads.shaped_changed scalar holder kept (Field.LaidAll.shaped _ _ _ _ laid.2))
    exact ⟨final, .item named declared there counted leads, holds,
      updateAt_eq_self there (by simp) (updateAt_eq_self counted leads.route_ne_nil same)⟩

end Twice
end ResourceTemplate
