import Mathlib.Data.List.Forall2
import ResourceTemplate.Proofs.Conformance
import ResourceTemplate.Proofs.PathText

/-! The fields of a record as a form lists them. Every node below the root is listed once, in
depth-first order, and the text of its path leads back to it. -/
namespace ResourceTemplate

/-- A node in a tree: the child positions on the way to it, and its path. -/
structure Spot where
  route : List Nat
  path : Path
  node : Node

def Node.segment (child : Node) (position : Nat) : Segment :=
  if child.tag = .branch .item then .index position else .name child.name

def Spot.under (position : Nat) (child : Node) (spot : Spot) : Spot :=
  ⟨position :: spot.route, child.segment position :: spot.path, spot.node⟩

mutual
def Node.spots : Node → List Spot
  | .scalar name span held => [⟨[], [], .scalar name span held⟩]
  | .branch name span tag children =>
    ⟨[], [], .branch name span tag children⟩ :: spotsFrom 0 children

def spotsFrom (position : Nat) : List Node → List Spot
  | [] => []
  | child :: nodes => child.spots.map (.under position child) ++ spotsFrom (position + 1) nodes
end

def Node.view (path : Path) (node : Node) : FieldView :=
  ⟨path, node.tag, node.value?, node.label?, node.offset, node.length⟩

/-- The nodes below the root of a record, by the child positions on the way to them. -/
def Record.routes (record : Record) : List (List Nat) :=
  (spotsFrom 0 record.fields).map Spot.route

section Order

theorem pathIn_eq (child : Node) (parent : Path) (position : Nat) :
    child.pathIn parent position = parent ++ [child.segment position] := by
  unfold Node.pathIn Node.segment
  split <;> rfl

mutual
theorem Node.views_eq (path : Path) :
    (node : Node) → node.views path = node.spots.map fun spot => spot.node.view (path ++ spot.path)
  | .scalar .. => by
    rw [Node.spots, Node.views, List.map_singleton, List.append_nil]
    rfl
  | .branch _ _ _ children => by
    rw [Node.spots, Node.views, List.map_cons, viewsFrom_eq path 0 children, List.append_nil]
    rfl

theorem viewsFrom_eq (path : Path) (position : Nat) :
    (nodes : List Node) → viewsFrom path position nodes =
      (spotsFrom position nodes).map fun spot => spot.node.view (path ++ spot.path)
  | [] => rfl
  | child :: nodes => by
    rw [viewsFrom, spotsFrom, List.map_append, List.map_map, viewsFrom_eq path (position + 1) nodes,
      Node.views_eq _ child, pathIn_eq]
    congr 1
    apply List.map_congr_left
    intro spot _
    simp [Spot.under]
end

/-- The spot is that of the node itself, or it stands below one of the children. -/
inductive Stands : Node → Spot → Prop where
  | here (node : Node) : Stands node ⟨[], [], node⟩
  | child {node child : Node} {position : Nat} {spot : Spot} :
    node.children[position]? = some child → Stands child spot →
      Stands node (spot.under position child)

mutual
theorem Node.stands_of_mem : (node : Node) → ∀ spot ∈ node.spots, Stands node spot
  | .scalar name span held => by
    intro spot member
    obtain rfl := List.mem_singleton.mp member
    exact .here _
  | .branch name span tag children => by
    intro spot member
    rcases List.mem_cons.mp member with rfl | member
    · exact .here _
    · obtain ⟨position, child, inner, there, stands, rfl⟩ :=
        stands_of_memFrom 0 children spot member
      rw [Nat.zero_add]
      exact .child there stands

theorem stands_of_memFrom (start : Nat) :
    (nodes : List Node) → ∀ spot ∈ spotsFrom start nodes, ∃ position child inner,
      nodes[position]? = some child ∧ Stands child inner ∧ spot = inner.under (start + position) child
  | [] => by simp [spotsFrom]
  | first :: nodes => by
    intro spot member
    rcases List.mem_append.mp member with member | member
    · obtain ⟨inner, listed, rfl⟩ := List.mem_map.mp member
      exact ⟨0, first, inner, rfl, Node.stands_of_mem first inner listed, rfl⟩
    · obtain ⟨position, child, inner, there, stands, rfl⟩ :=
        stands_of_memFrom (start + 1) nodes spot member
      refine ⟨position + 1, child, inner, by simpa using there, stands, ?_⟩
      rw [Nat.add_right_comm, Nat.add_assoc]
end

theorem mem_spotsFrom (start : Nat) {nodes : List Node} {child : Node} {inner : Spot}
    {position : Nat} (there : nodes[position]? = some child) (member : inner ∈ child.spots) :
    inner.under (start + position) child ∈ spotsFrom start nodes := by
  induction nodes generalizing start position with
  | nil => simp at there
  | cons first nodes ih =>
    rw [spotsFrom, List.mem_append]
    cases position with
    | zero =>
      obtain rfl : first = child := by simpa using there
      exact .inl (List.mem_map_of_mem member)
    | succ position =>
      have later := ih (start + 1) (by simpa using there)
      rw [Nat.add_right_comm, Nat.add_assoc] at later
      exact .inr later

theorem Stands.mem {node : Node} {spot : Spot} (stands : Stands node spot) : spot ∈ node.spots := by
  induction stands with
  | here node => cases node <;> simp [Node.spots]
  | @child node child position spot there _ ih =>
    cases node with
    | scalar => nomatch there
    | branch name span tag children =>
      have listed := mem_spotsFrom 0 there ih
      rw [Nat.zero_add] at listed
      exact List.mem_cons_of_mem _ listed

/-- The route leads to the node, and every route that leads to a node is that of a spot. -/
theorem Stands.nodeAt? {node : Node} {spot : Spot} (stands : Stands node spot) :
    nodeAt? node spot.route = some spot.node := by
  induction stands with
  | here => rfl
  | child there _ ih => simp [Spot.under, ResourceTemplate.nodeAt?, there, ih]

theorem stands_of_nodeAt? {node found : Node} {route : List Nat}
    (there : nodeAt? node route = some found) : ∃ path, Stands node ⟨route, path, found⟩ := by
  induction route generalizing node with
  | nil =>
    obtain rfl := Option.some.inj there
    exact ⟨[], .here node⟩
  | cons position route ih =>
    obtain ⟨child, first, follow⟩ := Option.bind_eq_some_iff.mp there
    obtain ⟨path, stands⟩ := ih follow
    exact ⟨child.segment position :: path, .child first stands⟩

mutual
/-- A node comes before those below it, and these come child by child. -/
theorem Node.spots_sorted : (node : Node) → (node.spots.map Spot.route).Pairwise (· < ·)
  | .scalar .. => by simp [Node.spots]
  | .branch _ _ _ children => by
    rw [Node.spots, List.map_cons, List.pairwise_cons]
    refine ⟨?_, spotsFrom_sorted 0 children⟩
    intro route member
    obtain ⟨spot, listed, rfl⟩ := List.mem_map.mp member
    obtain ⟨position, child, inner, _, _, rfl⟩ := stands_of_memFrom 0 children spot listed
    exact List.nil_lt_cons ..

theorem spotsFrom_sorted (start : Nat) :
    (nodes : List Node) → ((spotsFrom start nodes).map Spot.route).Pairwise (· < ·)
  | [] => by simp [spotsFrom]
  | child :: nodes => by
    rw [spotsFrom, List.map_append, List.pairwise_append]
    refine ⟨?_, spotsFrom_sorted (start + 1) nodes, ?_⟩
    · rw [List.map_map, List.pairwise_map]
      refine (List.pairwise_map.mp (Node.spots_sorted child)).imp fun before => ?_
      exact List.cons_lt_cons_iff.mpr (.inr ⟨rfl, before⟩)
    · intro route member other later
      obtain ⟨_, first, rfl⟩ := List.mem_map.mp member
      obtain ⟨inner, _, rfl⟩ := List.mem_map.mp first
      obtain ⟨spot, listed, rfl⟩ := List.mem_map.mp later
      obtain ⟨position, _, _, _, _, rfl⟩ := stands_of_memFrom (start + 1) nodes spot listed
      exact List.cons_lt_cons_iff.mpr (.inl (by omega))
end

end Order

section Paths

theorem Field.ConformsAll.getElem? {fields : List Field} {nodes : List Node} {child : Node}
    {position : Nat} (conforms : ConformsAll fields nodes) (there : nodes[position]? = some child) :
    ∃ field, fields[position]? = some field ∧ field.Conforms child := by
  induction fields generalizing nodes position with
  | nil =>
    rw [ConformsAll] at conforms
    simp [conforms] at there
  | cons field fields ih =>
    obtain ⟨node, rest, rfl, first, follow⟩ := conforms
    cases position with
    | zero =>
      obtain rfl : node = child := by simpa using there
      exact ⟨field, rfl, first⟩
    | succ position =>
      simpa using ih follow (by simpa using there)

/-- What the next segment may name is what the node has below it. -/
def Scope.Describes : Scope → Node → Prop
  | .fields inner, node => Template.WellFormed inner ∧ Field.ConformsAll inner node.children
  | .items inner, node => Template.WellFormed inner ∧
    ∀ (position : Nat) (item : Node), node.children[position]? = some item →
      item.tag = .branch .item ∧ Field.ConformsAll inner item.children
  | .leaf, node => node.children = []

theorem Field.Conforms.segment {field : Field} {node : Node} (conforms : field.Conforms node)
    (position : Nat) : node.segment position = .name field.name := by
  cases field with
  | scalar =>
    obtain ⟨span, held, rfl, _⟩ := conforms
    rfl
  | composite =>
    obtain ⟨span, children, rfl, _⟩ := conforms
    rfl
  | group =>
    obtain ⟨span, items, rfl, _⟩ := conforms
    rfl

theorem Field.Conforms.scope {field : Field} {node : Node} (conforms : field.Conforms node)
    (nested : field.Nested (·.check = .ok ())) : field.scope.Describes node := by
  cases field with
  | scalar =>
    obtain ⟨span, held, rfl, _⟩ := conforms
    rfl
  | composite =>
    obtain ⟨span, children, rfl, conforms⟩ := conforms
    exact ⟨nested, conforms⟩
  | group =>
    obtain ⟨span, items, rfl, conforms⟩ := conforms
    refine ⟨nested, fun position item there => ?_⟩
    obtain ⟨span, children, rfl, conforms⟩ := conforms position item there
    exact ⟨rfl, conforms⟩

/-- One step along a path leads to the child that the segment was made for. -/
theorem Scope.Describes.step? {scope : Scope} {place : Place} {child : Node} {position : Nat}
    (describes : scope.Describes place.node) (there : place.node.children[position]? = some child) :
    ∃ next inner, place.step? scope (child.segment position) = some (next, inner) ∧
      next.route = place.route ++ [position] ∧ next.node = child ∧ inner.Describes child ∧
      ∀ name, child.segment position = .name name → Template.IsName name := by
  cases scope with
  | fields fields =>
    obtain ⟨formed, conforms⟩ := describes
    obtain ⟨field, declared, conforms⟩ := conforms.getElem? there
    have found := Template.position?_eq_some (Template.names_nodup formed.1) declared
    have member := List.mem_of_getElem? declared
    rw [conforms.segment]
    refine ⟨_, field.scope, step?_name.mpr ⟨position, field, child, found, declared, there, rfl, rfl⟩,
      rfl, rfl, conforms.scope (formed.2.member member), ?_⟩
    rintro _ ⟨⟩
    exact Template.isName_of_checkFrom formed.1 field member
  | items fields =>
    obtain ⟨formed, items⟩ := describes
    obtain ⟨item, conforms⟩ := items position child there
    have segment : child.segment position = .index position := if_pos item
    rw [segment]
    exact ⟨_, .fields fields, step?_index.mpr ⟨child, there, rfl, rfl⟩, rfl, rfl, ⟨formed, conforms⟩,
      nofun⟩
  | leaf =>
    have none : place.node.children = [] := describes
    simp [none] at there

/-- A spot's path is followed along its route to its node. -/
theorem Stands.follow? {node : Node} {spot : Spot} (stands : Stands node spot) {scope : Scope}
    (place : Place) (here : place.node = node) (describes : scope.Describes node) :
    spot.path.Named ∧ ∃ final, place.follow? scope spot.path = some final ∧
      final.route = place.route ++ spot.route ∧ final.node = spot.node := by
  induction stands generalizing scope place with
  | here node => exact ⟨nofun, place, rfl, by simp, here⟩
  | @child node child position spot there _ ih =>
    subst here
    obtain ⟨next, inner, step, route, below, describes, valid⟩ := describes.step? there
    obtain ⟨named, final, follow, along, same⟩ := ih next below describes
    constructor
    · intro name member
      rcases List.mem_cons.mp member with first | member
      · exact valid name first.symm
      · exact named name member
    · refine ⟨final, follow?_cons.mpr ⟨next, inner, step, follow⟩, ?_, same⟩
      rw [along, route]
      simp [Spot.under]

end Paths

namespace Record

structure Listed (record : Record) (spot : Spot) : Prop where
  below : spot.path ≠ []
  named : spot.path.Named
  there : nodeAt? record.root spot.route = some spot.node
  located : ∃ place, record.locate spot.path = .ok place ∧ place.route = spot.route ∧
    place.node = spot.node

variable {template : Template} {settings : Settings} {record : Record}

theorem stands_of_listed {spot : Spot} (member : spot ∈ spotsFrom 0 record.fields) :
    Stands record.root spot ∧ spot.route ≠ [] ∧ spot.path ≠ [] := by
  obtain ⟨position, child, inner, there, stands, rfl⟩ :=
    stands_of_memFrom 0 record.fields spot member
  rw [Nat.zero_add]
  have child : record.root.children[position]? = some child := there
  exact ⟨.child child stands, nofun, nofun⟩

theorem mem_routes {route : List Nat} :
    route ∈ record.routes ↔ route ≠ [] ∧ (nodeAt? record.root route).isSome = true := by
  constructor
  · intro member
    obtain ⟨spot, listed, rfl⟩ := List.mem_map.mp member
    obtain ⟨stands, below, _⟩ := stands_of_listed listed
    exact ⟨below, by rw [stands.nodeAt?]; rfl⟩
  · rintro ⟨below, there⟩
    obtain ⟨found, there⟩ := Option.isSome_iff_exists.mp there
    obtain ⟨path, stands⟩ := stands_of_nodeAt? there
    rcases List.mem_cons.mp stands.mem with first | member
    · exact absurd (congrArg Spot.route first) below
    · exact List.mem_map.mpr ⟨_, member, rfl⟩

theorem views_eq (record : Record) :
    record.views = (spotsFrom 0 record.fields).map fun spot => spot.node.view spot.path :=
  viewsFrom_eq Path.root 0 record.fields

theorem listed_of_conforms (formed : record.template.WellFormed)
    (conforms : Field.ConformsAll record.template record.fields) :
    ∀ spot ∈ spotsFrom 0 record.fields, record.Listed spot := by
  intro spot member
  obtain ⟨stands, _, below⟩ := stands_of_listed member
  have describes : (Scope.fields record.template).Describes record.root := ⟨formed, conforms⟩
  obtain ⟨named, place, follow, route, node⟩ := stands.follow? record.start rfl describes
  exact ⟨below, named, stands.nodeAt?, place, locate_eq_ok.mpr follow, route, node⟩

/-- Two fields with one text would have one path and thus one place in the tree. -/
theorem displays_nodup (listed : ∀ spot ∈ spotsFrom 0 record.fields, record.Listed spot) :
    (record.views.map (·.path.display)).Nodup := by
  rw [views_eq, List.map_map, List.nodup_iff_pairwise_ne, List.pairwise_map]
  have sorted := List.pairwise_map.mp (spotsFrom_sorted 0 record.fields)
  refine sorted.imp_of_mem fun {first second} here there before same => ?_
  have a := listed first here
  have b := listed second there
  have path := Path.display_inj a.below a.named b.below b.named same
  obtain ⟨place, located, route, _⟩ := a.located
  obtain ⟨other, found, along, _⟩ := b.located
  rw [path, found] at located
  obtain rfl := Except.ok.inj located
  rw [← route, ← along] at before
  exact List.lt_irrefl _ before

/-- A form can bind to every field by the text of its path. The nodes below the root are listed once
each, parents first and children in order. No two of the texts are the same, and each of them is read
as a path that leads to the node, given that the indices in it are machine words. -/
theorem views_addressable (formed : template.WellFormed)
    (reachable : Reachable template settings record) :
    (∀ route, route ∈ record.routes ↔ route ≠ [] ∧ (nodeAt? record.root route).isSome = true) ∧
    record.routes.Pairwise (· < ·) ∧
    List.Forall₂ (fun route view => ∃ node, nodeAt? record.root route = some node ∧
      view = node.view view.path ∧
      (view.path.Fits → record.get (.parse view.path.display) = .ok node ∧
        ∃ place, record.locate (.parse view.path.display) = .ok place ∧ place.route = route))
      record.routes record.views ∧
    (record.views.map (·.path.display)).Nodup := by
  obtain ⟨rfl, laid⟩ := reachable.laid formed
  have conforms := Field.LaidAll.conforms record.template 0 record.fields record.laidOut laid.laid
  have listed := listed_of_conforms formed conforms
  refine ⟨fun _ => mem_routes, spotsFrom_sorted 0 record.fields, ?_, displays_nodup listed⟩
  rw [views_eq, routes, List.forall₂_map_left_iff, List.forall₂_map_right_iff, List.forall₂_same]
  intro spot member
  obtain ⟨below, named, there, place, located, route, node⟩ := listed spot member
  refine ⟨spot.node, there, rfl, fun fits => ?_⟩
  have fits : spot.path.Fits := fits
  have read : Path.parse (spot.node.view spot.path).path.display = spot.path :=
    Path.parse_display below named fits
  rw [read, get, located]
  exact ⟨congrArg Except.ok node, place, rfl, route⟩

theorem views_addressable_sample : ∃ (record : Record) (view : FieldView) (node : Node) (place : Place),
    Reachable Template.sample {} record ∧
      (record.views.map (·.path.display)).take 9 =
        ["kind", "count", "points", "points[0]", "points[0].v", "points[0].h", "points[1]",
          "points[1].v", "points[1].h"] ∧
      (record.views.map (·.path.display)).Nodup ∧ view ∈ record.views ∧ view = node.view view.path ∧
      record.get (.parse "points[1].v") = .ok node ∧
      record.locate (.parse "points[1].v") = .ok place ∧ place.route = [2, 1, 0] := by
  obtain ⟨first, decoded, texts, eighth, display⟩ : ∃ record,
      decode Template.sample {} [1, 0, 0, 1, 0, 2, 0, 3, 97, 98, 1, 65, 0, 7, 8] = .ok record ∧
        ((record.attempt {} (.insertItem [.name "points"] 1)).views.map (·.path.display)).take 9 =
          ["kind", "count", "points", "points[0]", "points[0].v", "points[0].h", "points[1]",
            "points[1].v", "points[1].h"] ∧
        ((record.attempt {} (.insertItem [.name "points"] 1)).routes.zip
          (record.attempt {} (.insertItem [.name "points"] 1)).views)[7]? =
          some ([2, 1, 0], ⟨[.name "points", .index 1, .name "v"], .scalar (.int ⟨true, .word⟩),
            some (.int 0), none, 6, 2⟩) ∧
        Path.display [.name "points", .index 1, .name "v"] = "points[1].v" :=
    ⟨_, by cbv, by cbv, by cbv, by cbv⟩
  have reachable := Reachable.edited {} (.insertItem [.name "points"] 1) (.decoded decoded)
  obtain ⟨_, _, each, distinct⟩ := views_addressable Template.sample_wellFormed reachable
  have member := List.mem_of_getElem? eighth
  obtain ⟨node, _, shown, leads⟩ := (List.forall₂_iff_zip.mp each).2 member
  have fits : Path.Fits [.name "points", .index 1, .name "v"] := by
    intro index inside
    obtain rfl : index = 1 := by simpa using inside
    decide
  obtain ⟨got, place, located, route⟩ := leads fits
  rw [display] at got located
  exact ⟨_, _, node, place, reachable, texts, distinct, (List.of_mem_zip member).2, shown, got,
    located, route⟩

end Record
end ResourceTemplate
