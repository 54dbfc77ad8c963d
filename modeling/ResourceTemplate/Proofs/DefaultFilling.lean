import ResourceTemplate.Proofs.ChangedLevels
import ResourceTemplate.Proofs.FewestBytes
import ResourceTemplate.Proofs.HeldScalars

/-! What a template takes up when it is filled with default values, in nodes and in bytes, against the
footprint that is bounded in advance. A footprint does not see the byte that ends a list, and counts in
the items of groups that are absent at first. -/
namespace ResourceTemplate

mutual
def Node.count : Node → Nat
  | .scalar .. => 1
  | .branch _ _ _ children => 1 + countAll children

def Node.countAll : List Node → Nat
  | [] => 0
  | node :: nodes => node.count + countAll nodes
end

/-- Whether a group is present among default values, which all count as zero. -/
def presentAtFirst (condition : Option Condition) : Bool :=
  condition.all (·.holds 0)

def Repetition.filling : Repetition → Nat
  | .fixed count => count
  | _ => 0

mutual
/-- The lists with an end in what a field is filled with. -/
def Field.ends : Field → Nat
  | .scalar .. => 0
  | .composite _ fields => endsAll fields
  | .group _ fields repetition condition =>
    if presentAtFirst condition then
      repetition.filling * endsAll fields + repetition.ending.length
    else 0

def Field.endsAll : List Field → Nat
  | [] => 0
  | field :: fields => field.ends + endsAll fields
end

mutual
/-- What is counted in the footprint of a field for groups that are absent at first. -/
def Field.spared : Field → Nat
  | .scalar .. => 0
  | .composite _ fields => sparedAll fields
  | .group _ fields repetition condition =>
    repetition.filling *
      if presentAtFirst condition then sparedAll fields else 1 + footprints fields

def Field.sparedAll : List Field → Nat
  | [] => 0
  | field :: fields => field.spared + sparedAll fields
end

theorem Field.footprint_group {name : String} {fields : List Field} {repetition : Repetition}
    {condition : Option Condition} :
    (Field.group name fields repetition condition).footprint =
      repetition.filling * (1 + footprints fields) + 1 := by
  cases repetition with
  | fixed => rfl
  | counted | untilEnd | zeroTerminated => simp [footprint, Repetition.filling]

mutual
/-- Every list with an end is a node of its own. -/
theorem Field.ends_le_footprint : (field : Field) → field.ends ≤ field.footprint
  | .scalar .. => Nat.zero_le _
  | .composite _ fields => Nat.le_trans (Field.endsAll_le_footprints fields) (Nat.le_add_left _ 1)
  | .group _ fields repetition condition => by
    have below := Nat.mul_le_mul_left repetition.filling
      (Nat.le_trans (Field.endsAll_le_footprints fields) (Nat.le_add_left _ 1))
    have last : repetition.ending.length ≤ 1 := by
      unfold Repetition.ending
      split <;> simp
    rw [Field.ends, Field.footprint_group]
    split <;> omega

theorem Field.endsAll_le_footprints :
    (fields : List Field) → Field.endsAll fields ≤ Field.footprints fields
  | [] => Nat.le_refl 0
  | field :: fields =>
    Nat.add_le_add (Field.ends_le_footprint field) (Field.endsAll_le_footprints fields)
end

/-- The nodes from `start` to `stop` come to the footprint of the fields and the ends of lists, less
what absent groups spare. -/
def Field.Fills (fields : List Field) (start : Nat) (nodes : List Node) (stop : Nat) : Prop :=
  ∃ bytes, stop = start + bytes ∧
    Node.countAll nodes + bytes + sparedAll fields = footprints fields + endsAll fields

def AllZero (nodes : List Node) : Prop :=
  ∀ node ∈ nodes, ∀ value, node.value? = some value → value.number = 0

section Zero

variable {nodes : List Node} {condition : Option Condition}

theorem AllZero.append {node : Node} (zero : AllZero nodes)
    (last : ∀ value, node.value? = some value → value.number = 0) : AllZero (nodes ++ [node]) := by
  intro other member
  rcases List.mem_append.mp member with member | member
  · exact zero other member
  · obtain rfl := List.mem_singleton.mp member
    exact last

theorem AllZero.verdict? (zero : AllZero nodes) {present : Bool}
    (verdict : ResourceTemplate.verdict? condition nodes = some present) :
    presentAtFirst condition = present := by
  cases condition with
  | none => exact Option.some.inj verdict
  | some condition =>
    obtain ⟨value, found, holds⟩ := Option.map_eq_some_iff.mp verdict
    obtain ⟨node, among, held⟩ := Option.bind_eq_some_iff.mp found
    rw [zero node (List.mem_of_find?_eq_some among) value held] at holds
    exact holds

theorem ScalarType.number_default (type : ScalarType) : type.default.value.number = 0 := by
  have zero (format : IntType) : (format.value 0).number = 0 := by
    unfold IntType.value
    split <;> rfl
  cases type with
  | int format | enumeration format _ => exact zero format
  | fixedString | pascalString | boolean => rfl

theorem ScalarType.encodedLength_default (type : ScalarType) :
    type.encodedLength type.default.value = type.minWidth := by
  cases type <;> rfl

end Zero

theorem Recounted.countAll_eq {counts : List (String × Int)} {fields : List Field}
    {nodes again : List Node} (recounted : Recounted counts fields nodes again) :
    Node.countAll again = Node.countAll nodes := by
  induction recounted with
  | nil => rfl
  | cons head _ ih =>
    rcases head with rfl | ⟨_, _, _, _, _, _, _, _, _, rfl, rfl, _⟩
    · rw [Node.countAll, Node.countAll, ih]
    · rw [Node.countAll, Node.countAll, ih, Node.count, Node.count]

section Items

variable {fields : List Field} {path : Path} {nodes items : List Node} {index start stop : Nat}

theorem length_fillItems_nil (repetition : Repetition) :
    (fillItems fields repetition []).length = repetition.filling := by
  cases repetition with
  | fixed => exact length_fillItems
  | counted | untilEnd | zeroTerminated => rfl

theorem settleItems_fills
    (fills : ∀ parent start inner stop,
      settleLevel fields (Field.defaults fields) parent start = .ok (inner, stop) →
        Field.Fills fields start inner stop)
    (made : ∀ node ∈ nodes, ∃ number, defaultItem fields number = node)
    (settled : settleItems (settleItem fields path) nodes index start = .ok (items, stop)) :
    ∃ bytes, stop = start + bytes ∧
      Node.countAll items + bytes + nodes.length * Field.sparedAll fields =
        nodes.length * (1 + Field.footprints fields) + nodes.length * Field.endsAll fields := by
  induction nodes generalizing index start items with
  | nil =>
    obtain ⟨rfl, rfl⟩ := Prod.mk.inj (pure_eq_ok.mp settled)
    exact ⟨0, rfl, by simp [Node.countAll]⟩
  | cons node nodes ih =>
    obtain ⟨⟨number, rfl⟩, others⟩ := List.forall_mem_cons.mp made
    obtain ⟨again, rest, first, follow, rfl⟩ := settleItems_cons.mp settled
    obtain ⟨inner, middle, level, rfl⟩ := (settleItem_eq_ok rfl).mp first
    obtain ⟨length, rfl, size⟩ := fills _ _ _ _ level
    rw [Node.stop, Node.offset_branch, Node.length_branch, Nat.add_sub_cancel_left] at follow
    obtain ⟨bytes, rfl, sizes⟩ := ih others follow
    refine ⟨length + bytes, Nat.add_assoc .., ?_⟩
    rw [List.length_cons, Node.countAll, Node.count]
    simp only [Nat.add_one_mul]
    omega

end Items

/-- Counts take up as much with one value as with another. -/
theorem settleLevel_fills {fields : List Field} {parent : Path} {start stop : Nat} {result : List Node}
    (checked : Template.check fields = .ok ()) (nested : Field.AllNested (·.check = .ok ()) fields)
    (fills : ∀ middle stop, settleFields fields (Field.defaults fields) [] parent start =
      .ok (middle, stop) → Field.Fills fields start middle stop)
    (settled : settleLevel fields (Field.defaults fields) parent start = .ok (result, stop)) :
    Field.Fills fields start result stop := by
  have lays := settleFields_lays fields nested _ (Field.shapedAll_defaults fields) [] parent start
  obtain ⟨middle, first, recounted, _⟩ := settleWith_recounts checked lays settled
  obtain ⟨bytes, rfl, size⟩ := fills middle stop first
  exact ⟨bytes, rfl, by rw [recounted.countAll_eq, size]⟩

mutual
/-- The settled siblings are all zero, so that the template alone says which groups are present. Counts
do not matter: they are set when the fields of their level are settled. -/
theorem settleField_default :
    (field : Field) → field.Nested (·.check = .ok ()) → (before : List Node) → AllZero before →
      (path : Path) → (start : Nat) → (again : Node) →
      settleField field field.default before path start = .ok again →
      again.offset = start ∧ (∀ value, again.value? = some value → value.number = 0) ∧
        again.count + again.length + field.spared = field.footprint + field.ends
  | .scalar name type, _, before, _, path, start, again, settled => by
    obtain rfl := pure_eq_ok.mp settled
    refine ⟨rfl, ?_, ?_⟩
    · rintro _ ⟨⟩
      exact type.number_default
    · rw [Node.length_scalar, type.encodedLength_default, Node.count, Nat.add_comm 1]
      rfl
  | .composite name fields, ⟨checked, nested⟩, before, _, path, start, again, settled => by
    obtain ⟨inner, stop, level, rfl⟩ := settleField_composite.mp settled
    obtain ⟨bytes, rfl, size⟩ := settleLevel_fills checked nested
      (settleFields_defaults fields nested [] nofun path start) level
    refine ⟨rfl, nofun, ?_⟩
    simp only [Node.count, Node.length_branch, Nat.add_sub_cancel_left, Field.spared, Field.footprint,
      Field.ends]
    omega
  | .group name fields repetition condition, ⟨checked, nested⟩, before, zero, path, start, again,
      settled => by
    rcases settleField_group.mp settled with ⟨absent, rfl⟩ | ⟨present, items, last, several, rfl⟩
    · refine ⟨rfl, nofun, ?_⟩
      rw [Field.spared, Field.ends, zero.verdict? absent, Field.footprint_group, Node.count,
        Node.countAll, Node.length_branch]
      simp [Nat.add_comm]
    · obtain ⟨bytes, rfl, sizes⟩ := settleItems_fills
        (fun path start _ _ level => settleLevel_fills checked nested
          (settleFields_defaults fields nested [] nofun path start) level)
        (fun _ => of_mem_fillItems) several
      refine ⟨rfl, nofun, ?_⟩
      rw [length_fillItems_nil] at sizes
      simp only [Node.count, Node.length_branch, Nat.add_assoc start, Nat.add_sub_cancel_left,
        Field.spared, Field.ends, zero.verdict? present, if_true, Field.footprint_group]
      omega

theorem settleFields_defaults :
    (fields : List Field) → Field.AllNested (·.check = .ok ()) fields → (before : List Node) →
      AllZero before → (parent : Path) → (start : Nat) → (result : List Node) → (stop : Nat) →
      settleFields fields (Field.defaults fields) before parent start = .ok (result, stop) →
      Field.Fills fields start result stop
  | [], _, before, _, parent, start, result, stop, settled => by
    obtain ⟨rfl, rfl⟩ := Prod.mk.inj (pure_eq_ok.mp settled)
    exact ⟨0, rfl, rfl⟩
  | field :: fields, ⟨formed, nested⟩, before, zero, parent, start, result, stop, settled => by
    obtain ⟨again, rest, first, follow, rfl⟩ := settleFields_cons.mp settled
    obtain ⟨rfl, last, size⟩ := settleField_default field formed before zero _ start again first
    obtain ⟨bytes, rfl, sizes⟩ := settleFields_defaults fields nested (before ++ [again])
      (zero.append last) parent again.stop rest stop follow
    refine ⟨again.length + bytes, Nat.add_assoc .., ?_⟩
    rw [Node.countAll, Field.sparedAll, Field.footprints, Field.endsAll]
    omega
end

theorem settleLevel_defaults {fields : List Field} (formed : Template.WellFormed fields) {parent : Path}
    {start stop : Nat} {result : List Node}
    (settled : settleLevel fields (Field.defaults fields) parent start = .ok (result, stop)) :
    Field.Fills fields start result stop :=
  settleLevel_fills formed.1 formed.2 (settleFields_defaults fields formed.2 [] nofun parent start) settled

section Uncounted

/-- No group keeps its number of items in a field. -/
def Template.Uncounted (fields : Template) : Prop :=
  fields.filterMap Field.countField? = []

instance : DecidablePred Template.Uncounted := fun fields =>
  inferInstanceAs (Decidable (fields.filterMap Field.countField? = []))

variable {fields : List Field} {nodes : List Node} {parent : Path} {start : Nat}

theorem settleItems_total {item : ItemSettler}
    (each : ∀ node ∈ nodes, ∀ index start, ∃ again, item index node start = .ok again)
    (index start : Nat) : ∃ items stop, settleItems item nodes index start = .ok (items, stop) := by
  induction nodes generalizing index start with
  | nil => exact ⟨[], start, rfl⟩
  | cons node nodes ih =>
    obtain ⟨head, others⟩ := List.forall_mem_cons.mp each
    obtain ⟨again, first⟩ := head index start
    obtain ⟨rest, stop, follow⟩ := ih others (index + 1) again.stop
    exact ⟨again :: rest, stop, settleItems_cons.mpr ⟨again, rest, first, follow, rfl⟩⟩

/-- Without a count there is nothing to set once the fields are settled. -/
theorem settleLevel_uncounted (nested : Field.AllNested (·.check = .ok ()) fields)
    (uncounted : Template.Uncounted fields)
    (settles : ∃ middle stop,
      settleFields fields (Field.defaults fields) [] parent start = .ok (middle, stop)) :
    ∃ result stop, settleLevel fields (Field.defaults fields) parent start = .ok (result, stop) := by
  obtain ⟨middle, stop, settled⟩ := settles
  have shaped := Field.shapedAll_defaults fields
  obtain ⟨_, filled⟩ := settleFields_lays fields nested _ shaped [] parent start middle stop settled
  have uncalled : calledFor fields middle middle = [] := by
    have names := calledFor_names fields middle middle
    rw [show fields.filterMap Field.countField? = [] from uncounted, List.sublist_nil] at names
    exact List.map_eq_nil_iff.mp names
  refine ⟨middle, stop, ?_⟩
  rw [settleLevel, settleWith_eq shaped.names settled (decided_of_filled filled), uncalled]
  rfl

mutual
theorem settleField_uncounted :
    (field : Field) → field.Nested (·.check = .ok ()) → field.Nested Template.Uncounted →
      (earlier : List Field) → Template.Follows earlier field → (origin start : Nat) →
      (before : List Node) → Field.LaidAll SettledApart earlier origin before start →
      (path : Path) → ∃ again, settleField field field.default before path start = .ok again
  | .scalar .., _, _, _, _, _, _, _, _, _ => ⟨_, rfl⟩
  | .composite _ fields, ⟨checked, nested⟩, ⟨uncounted, free⟩, _, _, _, start, _, _, path => by
    obtain ⟨inner, stop, level⟩ := settleLevel_uncounted nested uncounted
      (settleFields_uncounted fields nested free [] checked start start [] ⟨rfl, rfl⟩ path)
    exact ⟨_, settleField_composite.mpr ⟨inner, stop, level, rfl⟩⟩
  | .group _ fields repetition _, ⟨checked, nested⟩, ⟨uncounted, free⟩, _, follows, _, start, _,
      laid, path => by
    obtain ⟨present, verdict⟩ := follows.verdict? laid
    cases present with
    | false => exact ⟨_, settleField_group.mpr (.inl ⟨verdict, rfl⟩)⟩
    | true =>
      obtain ⟨items, last, several⟩ : ∃ items last,
          settleItems (settleItem fields path) (fillItems fields repetition []) 0 start =
            .ok (items, last) := by
        refine settleItems_total (fun node member index start => ?_) 0 start
        obtain ⟨number, rfl⟩ := of_mem_fillItems member
        obtain ⟨inner, stop, level⟩ := settleLevel_uncounted nested uncounted
          (settleFields_uncounted fields nested free [] checked start start [] ⟨rfl, rfl⟩
            (path.index index))
        exact ⟨_, (settleItem_eq_ok rfl).mpr ⟨inner, stop, level, rfl⟩⟩
      exact ⟨_, settleField_group.mpr (.inr ⟨verdict, items, last, several, rfl⟩)⟩

theorem settleFields_uncounted :
    (fields : List Field) → Field.AllNested (·.check = .ok ()) fields →
      Field.AllNested Template.Uncounted fields → (earlier : List Field) →
      Template.checkFrom earlier fields = .ok () → (origin start : Nat) → (before : List Node) →
      Field.LaidAll SettledApart earlier origin before start → (parent : Path) →
      ∃ result stop,
        settleFields fields (Field.defaults fields) before parent start = .ok (result, stop)
  | [], _, _, _, _, _, start, _, _, _ => ⟨[], start, rfl⟩
  | field :: fields, ⟨formed, nested⟩, ⟨free, others⟩, earlier, checked, origin, start, before, laid,
      parent => by
    obtain ⟨follows, checked⟩ := Template.checkFrom_cons.mp checked
    obtain ⟨again, first⟩ := settleField_uncounted field formed free earlier follows origin start
      before laid (parent.child field.name)
    obtain ⟨place, _⟩ :=
      settleField_lays field formed _ field.shaped_default before _ start again first
    obtain ⟨rest, stop, follow⟩ := settleFields_uncounted fields nested others (earlier ++ [field])
      checked origin again.stop (before ++ [again]) (laid.append place) parent
    exact ⟨again :: rest, stop, settleFields_cons.mpr ⟨again, rest, first, follow, rfl⟩⟩
end

/-- Nothing but a count that does not fit keeps default values from being settled. -/
theorem settleLevel_total (formed : Template.WellFormed fields)
    (uncounted : Template.Everywhere Template.Uncounted fields) (parent : Path) (start : Nat) :
    ∃ result stop, settleLevel fields (Field.defaults fields) parent start = .ok (result, stop) :=
  settleLevel_uncounted formed.2 uncounted.1
    (settleFields_uncounted fields formed.2 uncounted.2 [] formed.1 start start [] ⟨rfl, rfl⟩ parent)

end Uncounted

section Inserted

variable {fields owner : List Field} {nodes result : List Node} {path : Path} {route : List Nat}
  {field : Field} {node : Node}

theorem getElem?_fillItems {repetition : Repetition} {items : List Node} {index : Nat} {item : Node}
    (there : items[index]? = some item) (inside : index < (fillItems fields repetition items).length) :
    (fillItems fields repetition items)[index]? = some item := by
  cases repetition with
  | fixed count =>
    rw [length_fillItems] at inside
    have among := (List.getElem?_eq_some_iff.mp there).1
    rw [fillItems, List.getElem?_append_left (by rw [List.length_take]; omega),
      List.getElem?_take_of_lt inside, there]
  | counted | untilEnd | zeroTerminated => exact there

/-- An item that a group still has when it is settled is the one that was there, as it is settled. -/
theorem settleField_item_at {name other : String} {inner : List Field} {repetition : Repetition}
    {condition : Option Condition} {span : Span} {children before : List Node} {way : Path} {start : Nat}
    {again item final : Node} {index : Nat}
    (settled : settleField (.group name inner repetition condition)
      (.branch other span .group children) before way start = .ok again)
    (there : children[index]? = some item) (still : again.children[index]? = some final) :
    ∃ place, settleItem inner way index item place = .ok final := by
  rcases settleField_group.mp settled with ⟨_, rfl⟩ | ⟨_, items, last, several, rfl⟩
  · contradiction
  · have inside := (List.getElem?_eq_some_iff.mp still).1
    rw [Node.children_branch, settleItems_length several] at inside
    obtain ⟨made, place, held, alone⟩ := settleItems_at several (getElem?_fillItems there inside)
    obtain rfl := Option.some.inj (held.symm.trans still)
    rw [Nat.zero_add] at alone
    exact ⟨place, alone⟩

/-- What a path finds in a tree that was changed at the path and then settled is the changed node as it
is settled, if the path still finds a node. -/
theorem Leads.settled (leads : Leads fields nodes path route owner field node) {f : Node → Node}
    (branch : ∀ name type, field ≠ .scalar name type) (checked : Template.check fields = .ok ())
    (nested : Field.AllNested (·.check = .ok ()) fields)
    (shaped : Field.ShapedAll fields (updateAt f route nodes)) {parent : Path} {start stop : Nat}
    (settled : settleLevel fields (updateAt f route nodes) parent start = .ok (result, stop))
    {place final : Place} (below : place.node.children = result)
    (followed : place.follow? (.fields fields) path = some final) :
    ∃ before way start, settleField field (f node) before way start = .ok final.node := by
  induction leads generalizing result parent start stop place with
  | here named declared there =>
    obtain ⟨again, held, last⟩ := (follow?_name named declared).mp followed
    obtain rfl := Option.some.inj last
    rw [updateAt, modify_eq_set there] at shaped settled
    obtain ⟨front, final, _, start, alone, same, _⟩ := settleLevel_at checked nested shaped settled
      (List.getElem?_set_self (List.getElem?_eq_some_iff.mp there).1) declared
      (fun name type same => absurd same (branch name type))
    rw [below, same] at held
    obtain rfl := Option.some.inj held
    exact ⟨front, _, start, alone⟩
  | @composite fields nodes _ _ position inner _ node _ _ route _ named declared there leads ih =>
    obtain ⟨again, held, last⟩ := (follow?_name named declared).mp followed
    rw [updateAt_cons f leads.route_ne_nil, modify_eq_set there] at shaped settled
    have inside : (nodes.set position (node.mapChildren (updateAt f route)))[position]? = some _ :=
      List.getElem?_set_self (List.getElem?_eq_some_iff.mp there).1
    obtain ⟨_, made⟩ := shaped.getElem? declared inside
    obtain ⟨_, way, start, stop, same, level⟩ :=
      settleLevel_composite_at checked nested shaped settled inside declared
    rw [below, same] at held
    obtain rfl := Option.some.inj held
    obtain ⟨checked, nested⟩ := nested.member (List.mem_of_getElem? declared)
    obtain ⟨children, made, shaped⟩ := made
    have same := children_updateAt f route node
    rw [made, Node.children_branch] at same
    rw [children_updateAt] at level
    exact ih branch checked nested (same ▸ shaped) level rfl last
  | @item fields nodes _ _ position index inner _ _ _ node item _ _ route _ named declared there counted
      leads ih =>
    obtain ⟨again, held, last⟩ := (follow?_name named declared).mp followed
    obtain ⟨final, still, last⟩ := follow?_index.mp last
    rw [updateAt_cons f (by simp), modify_eq_set there] at shaped settled
    have inside : (nodes.set position (node.mapChildren (updateAt f (index :: route))))[position]? =
        some _ := List.getElem?_set_self (List.getElem?_eq_some_iff.mp there).1
    obtain ⟨_, children, made, described⟩ := shaped.getElem? declared inside
    obtain ⟨front, _, _, start, alone, same, _⟩ :=
      settleLevel_at checked nested shaped settled inside declared (by rintro _ _ ⟨⟩)
    rw [below, same] at held
    obtain rfl := Option.some.inj held
    obtain ⟨checked, nested⟩ := nested.member (List.mem_of_getElem? declared)
    have same := children_updateAt f (index :: route) node
    rw [made, Node.children_branch, updateAt_cons f leads.route_ne_nil, modify_eq_set counted] at same
    have changed : children[index]? = some (item.mapChildren (updateAt f route)) := by
      rw [same]
      exact List.getElem?_set_self (List.getElem?_eq_some_iff.mp counted).1
    -- The group may have been emptied or cut, but then the path would not find the item.
    rw [made] at alone
    obtain ⟨place, alone⟩ := settleField_item_at alone changed still
    obtain ⟨kind, shaped⟩ := described _ (List.mem_of_getElem? changed)
    obtain ⟨inner, stop, level, rfl⟩ := (settleItem_eq_ok kind).mp alone
    rw [children_updateAt] at level shaped
    exact ih branch checked nested shaped level rfl last

theorem Leads.nested {rule : Template → Prop} (leads : Leads fields nodes path route owner field node)
    (nested : Field.AllNested rule fields) : field.Nested rule := by
  induction leads with
  | here _ declared => exact nested.member (List.mem_of_getElem? declared)
  | composite _ declared _ _ ih => exact ih (nested.member (List.mem_of_getElem? declared)).2
  | item _ declared _ _ _ ih => exact ih (nested.member (List.mem_of_getElem? declared)).2

end Inserted

/-- The nodes and bytes that default values take up against the footprint of their fields. A list has no
more ends than it has nodes, so that two footprints always suffice. -/
structure Field.Takes (fields : List Field) (total : Nat) : Prop where
  small : footprints fields ≤ Template.maxFootprint
  size : total + sparedAll fields = footprints fields + endsAll fields
  within : total ≤ footprints fields ↔ endsAll fields ≤ sparedAll fields
  twice : total ≤ 2 * Template.maxFootprint

theorem Field.Fills.takes {fields : List Field} {start stop : Nat} {nodes : List Node}
    (fills : Field.Fills fields start nodes stop) (checked : Template.check fields = .ok ()) :
    start ≤ stop ∧ Field.Takes fields (Node.countAll nodes + (stop - start)) := by
  obtain ⟨bytes, rfl, size⟩ := fills
  have small := Template.footprints_le_maxFootprint checked
  have few := Field.endsAll_le_footprints fields
  rw [Nat.add_sub_cancel_left]
  exact ⟨Nat.le_add_right start bytes, small, size, by omega, by omega⟩

namespace Record

/-- An item that was inserted is default values that were settled where it stands. -/
theorem fills_of_insertItem {record result : Record} {path : Path} {index : Nat} {event : Event}
    (formed : record.template.WellFormed)
    (shaped : Field.ShapedAll record.template record.fields)
    (done : record.insertItem path index = .ok (event, result)) {group item : Node}
    (found : result.get path = .ok group) (there : group.children[index]? = some item) :
    ∃ place name inner repetition condition, record.locate path = .ok place ∧
      place.field = some (.group name inner repetition condition) ∧
      Template.WellFormed inner ∧ Field.Fills inner item.offset item.children item.stop := by
  obtain ⟨place, inner, located, resizable, inside, committed, _⟩ := insertItem_eq_ok.mp done
  obtain ⟨name, repetition, condition, declared⟩ := of_resizableGroup resizable
  obtain ⟨⟨nodes, stop⟩, settled, made⟩ := bind_eq_ok.mp committed
  obtain rfl := pure_eq_ok.mp made
  have leads := leads_of_locate located declared
  obtain ⟨span, items, same, below⟩ := leads.shaped shaped
  have changed := leads.shaped_updateAt (f := Node.mapChildren (·.insertIdx index (defaultItem inner index)))
    (fun _ => by
      rw [same] at inside ⊢
      exact ⟨span, _, rfl, shaped_insertIdx inside below⟩) shaped
  obtain ⟨final, reached, made⟩ := bind_eq_ok.mp found
  obtain rfl := pure_eq_ok.mp made
  have followed := locate_eq_ok.mp reached
  obtain ⟨before, way, start, alone⟩ :=
    leads.settled nofun formed.1 formed.2 changed settled rfl followed
  rw [same, Node.mapChildren] at alone
  have new : (items.insertIdx index (defaultItem inner index))[index]? = some (defaultItem inner index) := by
    rw [same] at inside
    exact List.getElem?_insertIdx_self.trans (if_pos inside)
  obtain ⟨start, alone⟩ := settleField_item_at alone new there
  obtain ⟨children, stop, level, rfl⟩ := (settleItem_eq_ok rfl).mp alone
  have nested : Template.WellFormed inner := leads.nested formed.2
  obtain ⟨bytes, rfl, size⟩ := settleLevel_defaults nested level
  exact ⟨place, name, inner, repetition, condition, located, declared, nested, bytes,
    by simp [Node.stop], size⟩

/-- Default values take up what the footprint says, more for every list with an end, and less for the
groups that are absent at first. This goes for a whole template and for an item that is inserted, and
where no items are counted a template can be filled. -/
theorem default_filling {template : Template} (formed : template.WellFormed) :
    (∀ parent start nodes stop,
      settleLevel template (Field.defaults template) parent start = .ok (nodes, stop) →
        start ≤ stop ∧ Field.Takes template (Node.countAll nodes + (stop - start))) ∧
    (template.Everywhere Template.Uncounted → ∀ parent start, ∃ nodes stop,
      settleLevel template (Field.defaults template) parent start = .ok (nodes, stop)) ∧
    ∀ settings record, Reachable template settings record → ∀ path index event result,
      record.insertItem path index = .ok (event, result) → ∀ group item,
        result.get path = .ok group → group.children[index]? = some item →
          ∃ place name inner repetition condition, record.locate path = .ok place ∧
            place.field = some (.group name inner repetition condition) ∧
            Field.Takes inner (Node.countAll item.children + item.length) := by
  refine ⟨?_, settleLevel_total formed, ?_⟩
  · intro parent start nodes stop settled
    exact (settleLevel_defaults formed settled).takes formed.1
  · intro settings record reachable path index event result done group item found there
    obtain ⟨rfl, laid⟩ := reachable.laid formed
    obtain ⟨place, name, inner, repetition, condition, located, declared, nested, fills⟩ :=
      fills_of_insertItem formed laid.shaped done found there
    obtain ⟨_, takes⟩ := fills.takes nested.1
    rw [Node.stop, Nat.add_sub_cancel_left] at takes
    exact ⟨place, name, inner, repetition, condition, located, declared, takes⟩

/-- The group of edges is absent at first, which spares six, and the end of the names takes one. -/
theorem default_filling_sample : ∃ nodes stop record event result group item,
    settleLevel Template.sample (Field.defaults Template.sample) Path.root 0 = .ok (nodes, stop) ∧
      Node.countAll nodes + stop + 6 = Field.footprints Template.sample + 1 ∧
      decode Template.sample {} [1, 0, 0, 1, 0, 2, 0, 3, 97, 98, 1, 65, 0, 7, 8] = .ok record ∧
      record.insertItem [.name "points"] 1 = .ok (event, result) ∧
      result.get [.name "points"] = .ok group ∧ group.children[1]? = some item ∧
      Node.countAll item.children + item.length ≤ 2 * Template.maxFootprint := by
  obtain ⟨nodes, stop, settled⟩ : ∃ nodes stop,
      settleLevel Template.sample (Field.defaults Template.sample) Path.root 0 = .ok (nodes, stop) :=
    ⟨_, _, by cbv⟩
  obtain ⟨record, event, result, group, item, decoded, insert, found, there⟩ :
      ∃ record event result group item,
        decode Template.sample {} [1, 0, 0, 1, 0, 2, 0, 3, 97, 98, 1, 65, 0, 7, 8] = .ok record ∧
          record.insertItem [.name "points"] 1 = .ok (event, result) ∧
          result.get [.name "points"] = .ok group ∧ group.children[1]? = some item :=
    ⟨_, _, _, _, _, by cbv, by cbv, by cbv, by cbv⟩
  obtain ⟨filled, _, inserted⟩ := default_filling Template.sample_wellFormed
  obtain ⟨_, takes⟩ := filled _ _ _ _ settled
  obtain ⟨_, _, _, _, _, _, _, added⟩ :=
    inserted {} record (.decoded decoded) _ _ _ _ insert _ _ found there
  exact ⟨nodes, stop, record, event, result, group, item, settled, takes.size, decoded, insert, found,
    there, added.twice⟩

end Record

namespace Template

/-- Half a million rows, each with a list that is empty at first. -/
def rows : Template :=
  [.group "rows" [.group "list" [.scalar "x" (.int ⟨false, .byte⟩)] .zeroTerminated none]
    (.fixed 524287) none]

/-- The footprint of the rows is small enough, and yet default values take up half as much again. -/
theorem rows_exceed : rows.WellFormed ∧ Field.footprints rows ≤ maxFootprint ∧
    ∃ nodes stop, settleLevel rows (Field.defaults rows) Path.root 0 = .ok (nodes, stop) ∧
      Field.footprints rows < Node.countAll nodes + stop ∧ maxFootprint < Node.countAll nodes + stop := by
  have formed : rows.WellFormed := by decide +kernel
  obtain ⟨nodes, stop, settled⟩ := settleLevel_total formed (by decide +kernel) Path.root 0
  obtain ⟨_, takes⟩ := (settleLevel_defaults formed settled).takes formed.1
  have footprint : Field.footprints rows = 1048575 := by decide +kernel
  have ends : Field.endsAll rows = 524287 := by decide +kernel
  have spared : Field.sparedAll rows = 0 := by decide +kernel
  have size := takes.size
  rw [footprint, ends, spared] at size
  refine ⟨formed, takes.small, nodes, stop, settled, ?_, ?_⟩
  · omega
  · rw [maxFootprint]
    omega

end Template
end ResourceTemplate
