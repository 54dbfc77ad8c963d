import ResourceTemplate.Proofs.ChangedLevels
import ResourceTemplate.Proofs.EncodedPlaces

/-! What an edit leaves alone. An edit reaches into one level of the tree; everything outside of this
level keeps its contents, is found under the same paths and stands for the same bytes. -/
namespace ResourceTemplate

/-- Two trees have the same contents apart from the level at the end of a path. Its fields are
`owner`, and it holds `before` in the one tree and `after` in the other. -/
inductive Frame : (fields : List Field) → (nodes result : List Node) → Path → (owner : List Field) →
    (before after : List Node) → Prop where
  | here {fields : List Field} {nodes result : List Node} :
    Frame fields nodes result [] fields nodes result
  | composite {fields inner owner : List Field} {nodes result before after : List Node}
      {name other : String} {position : Nat} {node again : Node} {way : Path} :
    Template.position? fields name = some position →
      fields[position]? = some (.composite other inner) → nodes[position]? = some node →
      result[position]? = some again →
      Node.contents result = (Node.contents nodes).set position again.content →
      Frame inner node.children again.children way owner before after →
      Frame fields nodes result (.name name :: way) owner before after
  | item {fields inner owner : List Field} {nodes result before after : List Node}
      {name other : String} {position index : Nat} {repetition : Repetition}
      {condition : Option Condition} {node again item final : Node} {way : Path} :
    Template.position? fields name = some position →
      fields[position]? = some (.group other inner repetition condition) →
      nodes[position]? = some node → result[position]? = some again →
      Node.contents result = (Node.contents nodes).set position again.content →
      repetition.closing again.length = repetition.closing node.length →
      node.children[index]? = some item → again.children[index]? = some final →
      Node.contents again.children = (Node.contents node.children).set index final.content →
      Frame inner item.children final.children way owner before after →
      Frame fields nodes result (.name name :: .index index :: way) owner before after

section Frame

variable {fields owner : List Field} {nodes result before after : List Node} {way : Path}

theorem set_of_contents {position : Nat} {node again : Node} (there : nodes[position]? = some node)
    (same : Node.contents result = (Node.contents nodes).set position again.content) :
    Node.contents nodes = (Node.contents result).set position node.content := by
  rw [same, List.set_set, Node.contents_eq, ← List.map_set, set_of_getElem? there]

theorem Frame.symm (frame : Frame fields nodes result way owner before after) :
    Frame fields result nodes way owner after before := by
  induction frame with
  | here => exact .here
  | composite named declared there found same _ ih =>
    exact .composite named declared found there (set_of_contents there same) ih
  | item named declared there found same closing counted held kept _ ih =>
    exact .item named declared found there (set_of_contents there same) closing.symm held counted
      (set_of_contents counted kept) ih

theorem Node.mapChildren_congr {node : Node} {f g : List Node → List Node}
    (same : f node.children = g node.children) : node.mapChildren f = node.mapChildren g := by
  cases node with
  | scalar => rfl
  | branch name span tag children => exact congrArg (Node.branch name span tag) same

/-- A group that holds an item has its items laid out. -/
theorem Field.Laid.items_of_mem {rule : LevelRule} {name : String} {inner : List Field}
    {repetition : Repetition} {condition : Option Condition} {start : Nat} {node item : Node}
    (laid : (Field.group name inner repetition condition).Laid rule start node)
    (held : item ∈ node.children) :
    ∃ last, ItemsLaid (Field.LevelLaid rule inner) 0 node.offset node.children last := by
  rcases laid.items with ⟨empty, _⟩ | ⟨last, laid, _⟩
  · simp [empty] at held
  · exact ⟨last, laid⟩

/-- A change of one node, which changes no count of its level, reaches the level of the node. -/
theorem Leads.frame {path : Path} {route : List Nat} {field : Field} {found : Node}
    (leads : Leads fields nodes path route owner field found) {f : Node → Node}
    (kept : field.Shaped found → field.Shaped (f found))
    (steady : ∀ (siblings : List Node) (position : Nat), siblings[position]? = some found →
      ∀ name ∈ owner.filterMap Field.countField?,
        siblingInteger? (siblings.set position (f found)) name = siblingInteger? siblings name)
    (checked : Template.check fields = .ok ()) (nested : Field.AllNested (·.check = .ok ()) fields)
    {start stop : Nat} (level : Field.LevelLaid Settled fields start nodes stop) {parent : Path}
    {place last : Nat}
    (settled : settleLevel fields (updateAt f route nodes) parent place = .ok (result, last)) :
    ∃ way name position before after, path = way ++ [.name name] ∧
      Frame fields nodes result way owner before after ∧
      Template.position? owner name = some position ∧ owner[position]? = some field ∧
      before[position]? = some found ∧ Resettled owner before position (f found) after ∧
      ∀ top : Node, top.children = nodes →
        (nodeAt? top route.dropLast).map Node.children = some before := by
  have shaped := leads.shaped_updateAt kept (Field.LaidAll.shaped _ _ _ _ level.2)
  -- Down the path: each level above the last one is settled again with one node that is changed below.
  induction leads generalizing start stop parent place last result with
  | here named declared there =>
    rw [updateAt, modify_eq_set there] at settled shaped
    exact ⟨[], _, _, _, _, rfl, .here, named, declared, there,
      ⟨checked, nested, ⟨_, _, level⟩, shaped, ⟨_, _, _, settled⟩, steady _ _ there⟩,
      fun _ below => congrArg some below⟩
  | composite named declared there leads ih =>
    rw [updateAt_cons f leads.route_ne_nil, modify_eq_set there] at settled shaped
    obtain ⟨checked', nested'⟩ := nested.member (List.mem_of_getElem? declared)
    obtain ⟨_, below⟩ := level.2.pair (mem_zip_of_getElem? declared there)
    have level' := below.level
    have resettled := resettled_of_face checked nested level shaped there (Node.face_mapChildren _ _)
      settled
    obtain ⟨again, _, _, _, found, same, settled⟩ := resettled.composite declared there
    obtain ⟨way, name, position, before, after, rfl, frame, called, field, holder, reached, above⟩ :=
      ih kept steady checked' nested' level' settled
        (leads.shaped_updateAt kept (Field.LaidAll.shaped _ _ _ _ level'.2))
    refine ⟨_, name, position, before, after, rfl, .composite named declared there found same frame,
      called, field, holder, reached, fun top below => ?_⟩
    subst below
    rw [List.dropLast_cons_of_ne_nil leads.route_ne_nil, nodeAt?, there]
    exact above _ rfl
  | @item fields nodes _ _ position index inner _ repetition condition node item found path route field
      named declared there counted leads ih =>
    have below : node.mapChildren (updateAt f (index :: route)) =
        node.mapChildren (·.set index (item.mapChildren (updateAt f route))) := by
      apply Node.mapChildren_congr
      rw [updateAt_cons f leads.route_ne_nil, modify_eq_set counted]
    rw [updateAt_cons f (by simp), modify_eq_set there, below] at settled shaped
    obtain ⟨checked', nested'⟩ := nested.member (List.mem_of_getElem? declared)
    obtain ⟨_, group⟩ := level.2.pair (mem_zip_of_getElem? declared there)
    obtain ⟨_, items⟩ := group.items_of_mem (List.mem_of_getElem? counted)
    obtain ⟨_, _, _, _, rfl, level'⟩ := items.member (List.mem_of_getElem? counted)
    have resettled := resettled_of_face checked nested level shaped there (Node.face_mapChildren _ _)
      settled
    obtain ⟨again, final, _, _, _, present, same, held, alike, closing, settled⟩ :=
      resettled.item declared there counted
    obtain ⟨way, name, position, before, after, rfl, frame, called, field, holder, reached, above⟩ :=
      ih kept steady checked' nested' level' settled
        (leads.shaped_updateAt kept (Field.LaidAll.shaped _ _ _ _ level'.2))
    refine ⟨_, name, position, before, after, rfl,
      .item named declared there present same closing counted held alike frame, called, field, holder,
      reached, fun top below => ?_⟩
    subst below
    rw [List.dropLast_cons_of_ne_nil (by simp), List.dropLast_cons_of_ne_nil leads.route_ne_nil,
      nodeAt?, there, Option.bind_eq_bind, Option.bind_some, nodeAt?, counted]
    exact above _ rfl

/-- A path below the level leads there from above as well. -/
theorem Frame.leads_below (frame : Frame fields nodes result way owner before after) {path : Path}
    {route : List Nat} {own : List Field} {field : Field} {node : Node}
    (leads : Leads owner before path route own field node) :
    ∃ route, Leads fields nodes (way ++ path) route own field node := by
  induction frame with
  | here => exact ⟨route, leads⟩
  | composite named declared there _ _ _ ih =>
    obtain ⟨route, leads⟩ := ih leads
    exact ⟨_, .composite named declared there leads⟩
  | item named declared there _ _ _ counted _ _ _ ih =>
    obtain ⟨route, leads⟩ := ih leads
    exact ⟨_, .item named declared there counted leads⟩

theorem getElem?_of_set {position place : Nat} {new node : Node}
    (same : Node.contents result = (Node.contents nodes).set position new)
    (apart : place ≠ position) (there : nodes[place]? = some node) :
    ∃ again, result[place]? = some again ∧ again.content = node.content := by
  have known : (Node.contents result)[place]? = some node.content := by
    rw [same, List.getElem?_set_ne apart.symm, Node.contents_eq, List.getElem?_map, there]
    rfl
  rwa [Node.contents_eq, List.getElem?_map, Option.map_eq_some_iff] at known

theorem position?_inj {name other : String} {position : Nat}
    (found : Template.position? fields name = some position)
    (again : Template.position? fields other = some position) : name = other := by
  obtain ⟨field, declared, rfl⟩ := field_of_position found
  obtain ⟨_, same, rfl⟩ := field_of_position again
  rw [Option.some.inj (declared.symm.trans same)]

/-- A path begins at one node of the level, and leads as far in any level where this node has the
same contents. -/
theorem Leads.first {path : Path} {route : List Nat} {field : Field} {node : Node}
    (leads : Leads fields nodes path route owner field node) :
    ∃ name rest position, path = .name name :: rest ∧
      Template.position? fields name = some position ∧
      ∀ others : List Node, (∀ child, nodes[position]? = some child →
          ∃ again, others[position]? = some again ∧ again.content = child.content) →
        ∃ again, Leads fields others path route owner field again ∧ again.content = node.content := by
  induction leads with
  | here named declared there =>
    refine ⟨_, _, _, rfl, named, fun others alike => ?_⟩
    obtain ⟨again, found, same⟩ := alike _ there
    exact ⟨again, .here named declared found, same⟩
  | composite named declared there _ ih =>
    refine ⟨_, _, _, rfl, named, fun others alike => ?_⟩
    obtain ⟨again, found, same⟩ := alike _ there
    obtain ⟨_, _, _, _, _, follows⟩ := ih
    obtain ⟨final, leads, holds⟩ := follows again.children
      fun _ below => Node.getElem?_of_contents (Node.children_of_content same.symm) below
    exact ⟨final, .composite named declared found leads, holds⟩
  | item named declared there counted _ ih =>
    refine ⟨_, _, _, rfl, named, fun others alike => ?_⟩
    obtain ⟨again, found, same⟩ := alike _ there
    obtain ⟨item, held, same⟩ :=
      Node.getElem?_of_contents (Node.children_of_content same.symm) counted
    obtain ⟨_, _, _, _, _, follows⟩ := ih
    obtain ⟨final, leads, holds⟩ := follows item.children
      fun _ below => Node.getElem?_of_contents (Node.children_of_content same.symm) below
    exact ⟨final, .item named declared found held leads, holds⟩

/-- A path leads as far into a tree as into another one with the same contents. -/
theorem Leads.of_contents {others : List Node} {path : Path} {route : List Nat} {field : Field}
    {node : Node} (leads : Leads fields nodes path route owner field node)
    (same : Node.contents nodes = Node.contents others) :
    ∃ again, Leads fields others path route owner field again ∧ again.content = node.content := by
  obtain ⟨_, _, _, _, _, follows⟩ := leads.first
  exact follows others fun _ there => Node.getElem?_of_contents same there

section Inside

variable {inner own : List Field} {name other : String} {rest : Path} {route : List Nat}
  {position : Nat} {field : Field} {child node : Node}

/-- A path through a composite ends there or below it. -/
theorem Leads.below_composite (leads : Leads fields nodes (.name name :: rest) route own field node)
    (named : Template.position? fields name = some position)
    (declared : fields[position]? = some (.composite other inner))
    (there : nodes[position]? = some child) :
    node = child ∨ ∃ route, Leads inner child.children rest route own field node := by
  cases leads with
  | here again _ found =>
    obtain rfl := Option.some.inj (named.symm.trans again)
    exact .inl (Option.some.inj (found.symm.trans there))
  | composite again same found leads =>
    obtain rfl := Option.some.inj (named.symm.trans again)
    obtain rfl := Option.some.inj (there.symm.trans found)
    obtain ⟨_, rfl⟩ := Field.composite.inj (Option.some.inj (declared.symm.trans same))
    exact .inr ⟨_, leads⟩
  | item again same =>
    obtain rfl := Option.some.inj (named.symm.trans again)
    nomatch declared.symm.trans same

/-- A path through a group ends there or below one of its items. -/
theorem Leads.below_group {repetition : Repetition} {condition : Option Condition}
    (leads : Leads fields nodes (.name name :: rest) route own field node)
    (named : Template.position? fields name = some position)
    (declared : fields[position]? = some (.group other inner repetition condition))
    (there : nodes[position]? = some child) :
    node = child ∨ ∃ index item path route, rest = .index index :: path ∧
      child.children[index]? = some item ∧ Leads inner item.children path route own field node := by
  cases leads with
  | here again _ found =>
    obtain rfl := Option.some.inj (named.symm.trans again)
    exact .inl (Option.some.inj (found.symm.trans there))
  | composite again same =>
    obtain rfl := Option.some.inj (named.symm.trans again)
    nomatch declared.symm.trans same
  | item again same found counted leads =>
    obtain rfl := Option.some.inj (named.symm.trans again)
    obtain rfl := Option.some.inj (there.symm.trans found)
    obtain ⟨_, rfl, _⟩ := Field.group.inj (Option.some.inj (declared.symm.trans same))
    exact .inr ⟨_, _, _, _, rfl, counted, leads⟩

end Inside

/-- A scalar outside of the level is found under its path in either tree. One inside is found if it
is in the level. -/
theorem Frame.leads (frame : Frame fields nodes result way owner before after)
    (shaped : Field.ShapedAll fields nodes) {path : Path} {route : List Nat} {own : List Field}
    {field : Field} {node : Node} {scalar : Scalar}
    (leads : Leads fields nodes path route own field node) (holder : node.scalar? = some scalar)
    (inside : ∀ rest, path = way ++ rest → ∀ route node,
      Leads owner before rest route own field node → node.scalar? = some scalar →
        ∃ route again, Leads owner after rest route own field again ∧ again.scalar? = some scalar) :
    ∃ route again, Leads fields result path route own field again ∧ again.scalar? = some scalar := by
  induction frame generalizing path route node with
  | here => exact inside path rfl route node leads holder
  | @composite _ inner _ _ result _ _ name _ position child _ way named declared there found same _ ih =>
    obtain ⟨first, rest, place, rfl, begins, follows⟩ := leads.first
    by_cases here : place = position
    · subst here
      obtain rfl := position?_inj named begins
      obtain ⟨_, _, rfl, below⟩ := shaped.getElem? declared there
      rcases leads.below_composite named declared there with rfl | ⟨_, leads⟩
      · nomatch holder
      · obtain ⟨_, last, leads, holds⟩ := ih below leads holder
          fun rest same => inside rest (congrArg (Segment.name name :: ·) same)
        exact ⟨_, last, .composite named declared found leads, holds⟩
    · obtain ⟨last, leads, alike⟩ := follows result fun child => getElem?_of_set same here
      exact ⟨route, last, leads, (Node.scalar?_of_content alike).trans holder⟩
  | @item _ inner _ _ result _ _ name _ position index _ _ child _ _ _ way named declared there found
      same _ counted held kept _ ih =>
    obtain ⟨first, rest, place, rfl, begins, follows⟩ := leads.first
    by_cases here : place = position
    · subst here
      obtain rfl := position?_inj named begins
      obtain ⟨_, _, rfl, below⟩ := shaped.getElem? declared there
      rcases leads.below_group named declared there with
        rfl | ⟨among, item, path, _, rfl, counted', leads⟩
      · nomatch holder
      · by_cases here : among = index
        · subst here
          obtain rfl := Option.some.inj (counted.symm.trans counted')
          obtain ⟨_, last, leads, holds⟩ := ih (below _ (List.mem_of_getElem? counted)).2 leads holder
            fun rest same => inside rest (congrArg (Segment.name name :: .index among :: ·) same)
          exact ⟨_, last, .item named declared found held leads, holds⟩
        · obtain ⟨_, there', alike⟩ := getElem?_of_set kept here counted'
          obtain ⟨last, leads, alike⟩ := leads.of_contents (Node.children_of_content alike.symm)
          exact ⟨_, last, .item named declared found there' leads,
            (Node.scalar?_of_content alike).trans holder⟩
    · obtain ⟨last, leads, alike⟩ := follows result fun child => getElem?_of_set same here
      exact ⟨route, last, leads, (Node.scalar?_of_content alike).trans holder⟩

/-- No path leads through a scalar. -/
theorem Leads.ends_of_scalar {name other : String} {rest : Path} {route : List Nat} {own : List Field}
    {position : Nat} {field : Field} {node : Node} {type : ScalarType}
    (leads : Leads fields nodes (.name name :: rest) route own field node)
    (named : Template.position? fields name = some position)
    (declared : fields[position]? = some (.scalar other type)) : rest = [] := by
  cases leads with
  | here => rfl
  | composite again same =>
    obtain rfl := Option.some.inj (named.symm.trans again)
    nomatch declared.symm.trans same
  | item again same =>
    obtain rfl := Option.some.inj (named.symm.trans again)
    nomatch declared.symm.trans same

/-- The scalars outside of the level are the same in both trees, and so are those in the level
whose node has the same contents. -/
theorem Frame.scalar_iff (frame : Frame fields nodes result way owner before after)
    (shaped : Field.ShapedAll fields nodes) (again : Field.ShapedAll fields result) {path : Path}
    (alike : ∀ name rest position, path = way ++ .name name :: rest →
      Template.position? owner name = some position →
        (Node.contents after)[position]? = (Node.contents before)[position]? ∨
          rest ≠ [] ∧ ∃ other type, owner[position]? = some (.scalar other type)) (held : Scalar) :
    (∃ route own field node, Leads fields result path route own field node ∧ node.scalar? = some held) ↔
      ∃ route own field node, Leads fields nodes path route own field node ∧
        node.scalar? = some held := by
  -- Neither direction depends on which of the two levels is the earlier one.
  have within {level other : List Node}
      (alike : ∀ name rest position, path = way ++ .name name :: rest →
        Template.position? owner name = some position →
          (Node.contents other)[position]? = (Node.contents level)[position]? ∨
            rest ≠ [] ∧ ∃ other type, owner[position]? = some (.scalar other type))
      {own : List Field} {field : Field} (rest : Path) (same : path = way ++ rest) (route : List Nat)
      (node : Node) (leads : Leads owner level rest route own field node)
      (holder : node.scalar? = some held) :
      ∃ route again, Leads owner other rest route own field again ∧ again.scalar? = some held := by
    obtain ⟨name, rest, position, rfl, named, follows⟩ := leads.first
    rcases alike name rest position same named with equal | ⟨more, _, _, declared⟩
    · obtain ⟨last, leads, alike⟩ := follows other fun child there => by
        have known : (Node.contents other)[position]? = some child.content := by
          rw [equal, Node.contents_eq, List.getElem?_map, there]
          rfl
        rwa [Node.contents_eq, List.getElem?_map, Option.map_eq_some_iff] at known
      exact ⟨route, last, leads, (Node.scalar?_of_content alike).trans holder⟩
    · exact absurd (leads.ends_of_scalar named declared) more
  constructor
  · rintro ⟨route, own, field, node, leads, holder⟩
    obtain ⟨route, last, leads, holds⟩ := frame.symm.leads again leads holder
      (within fun name rest position same named =>
        (alike name rest position same named).imp_left .symm)
    exact ⟨route, own, field, last, leads, holds⟩
  · rintro ⟨route, own, field, node, leads, holder⟩
    obtain ⟨route, last, leads, holds⟩ := frame.leads shaped leads holder (within alike)
    exact ⟨route, own, field, last, leads, holds⟩

end Frame

end ResourceTemplate
