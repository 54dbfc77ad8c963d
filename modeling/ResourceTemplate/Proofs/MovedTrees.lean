import ResourceTemplate.Proofs.BareTrees
import ResourceTemplate.Proofs.ValueChanges

/-! Settled trees in other places. What is laid out and settled can be moved, and a node in it can be
exchanged for a longer or a shorter one, when its siblings ask nothing else of it. -/
namespace ResourceTemplate

section Moved

variable {fields : List Field} {items : List Node} {index start stop : Nat}

def Moves (fields : List Field) : Prop :=
  ∀ start nodes stop, Field.LaidAll Settled fields start nodes stop → ∀ place,
    ∃ again last, Field.LaidAll Settled fields place again last ∧
      Node.contents again = Node.contents nodes ∧ last + start = stop + place

theorem ItemsLaid.moved (moves : Moves fields)
    (laid : ItemsLaid (Field.LevelLaid Settled fields) index start items stop) (place : Nat) :
    ∃ again last, ItemsLaid (Field.LevelLaid Settled fields) index place again last ∧
      Node.contents again = Node.contents items ∧ last + start = stop + place := by
  induction items generalizing index start place with
  | nil =>
    obtain rfl : stop = start := laid
    exact ⟨[], place, rfl, rfl, Nat.add_comm place stop⟩
  | cons item items ih =>
    obtain ⟨length, children, rfl, level, follow⟩ := laid
    obtain ⟨inner, middle, moved, same, ends⟩ := moves _ _ _ level.2 place
    obtain rfl : middle = place + length := by omega
    obtain ⟨rest, last, follow, alike, stops⟩ := ih follow (place + length)
    refine ⟨_ :: rest, last,
      ⟨length, inner, rfl, ⟨level.1.of_contents same.symm, moved⟩, follow⟩, ?_, by omega⟩
    rw [Node.contents, Node.contents, alike, Node.content, Node.content, same]

end Moved

mutual
theorem laid_moved :
    (field : Field) → (start : Nat) → (node : Node) → field.Laid Settled start node →
      (place : Nat) → ∃ again, field.Laid Settled place again ∧ again.content = node.content
  | .scalar name type, _, _, ⟨held, same, holds⟩, place => by
    subst same
    exact ⟨_, ⟨held, rfl, holds⟩, rfl⟩
  | .composite name fields, start, _, ⟨length, children, same, level⟩, place => by
    subst same
    obtain ⟨again, last, moved, same, ends⟩ :=
      moves_all fields start children (start + length) level.2 place
    obtain rfl : last = place + length := by omega
    refine ⟨_, ⟨length, again, rfl, level.1.of_contents same.symm, moved⟩, ?_⟩
    rw [Node.content, Node.content, same]
  | .group name fields repetition condition, start, _, ⟨length, items, same, laid⟩, place => by
    subst same
    rcases laid with ⟨rfl, rfl⟩ | ⟨last, laid, ends⟩
    · exact ⟨_, Field.laid_absent, rfl⟩
    · obtain ⟨again, final, moved, same, stops⟩ := laid.moved (moves_all fields) place
      have stop : place + length = final + repetition.ending.length := by omega
      refine ⟨_, ⟨length, again, rfl, .inr ⟨final, moved, stop⟩⟩, ?_⟩
      rw [Node.content, Node.content, same]

theorem moves_all : (fields : List Field) → Moves fields
  | [], _, _, stop, ⟨empty, ends⟩, place => by
    subst empty ends
    exact ⟨[], place, ⟨rfl, rfl⟩, rfl, Nat.add_comm place _⟩
  | field :: fields, start, _, stop, ⟨node, rest, same, first, follow⟩, place => by
    subst same
    obtain ⟨again, moved, alike⟩ := laid_moved field start node first place
    obtain ⟨others, last, follow, same, ends⟩ :=
      moves_all fields node.stop rest stop follow again.stop
    have length : again.length = node.length := by
      rw [← Node.length_content, alike, Node.length_content]
    have before := first.stop_eq
    have after := moved.stop_eq
    refine ⟨again :: others, last, ⟨again, others, rfl, moved, follow⟩, ?_, by omega⟩
    rw [Node.contents, Node.contents, alike, same]
end

section Replaced

variable {fields : List Field} {nodes items : List Node} {position index start stop : Nat}
  {field : Field} {node again item : Node}

/-- A node is exchanged for another in its place, and the nodes behind it are moved. -/
theorem laidAll_replaced (laid : Field.LaidAll Settled fields start nodes stop)
    (declared : fields[position]? = some field) (there : nodes[position]? = some node)
    (other : field.Laid Settled node.offset again) :
    ∃ result last, Field.LaidAll Settled fields start result last ∧ result[position]? = some again ∧
      Node.contents result = (Node.contents nodes).set position again.content := by
  induction fields generalizing start nodes position with
  | nil => simp at declared
  | cons first fields ih =>
    obtain ⟨head, nodes, rfl, here, follow⟩ := laid
    cases position with
    | zero =>
      obtain ⟨rfl, rfl⟩ : first = field ∧ head = node := by simpa using And.intro declared there
      obtain ⟨rest, last, moved, same, _⟩ := moves_all fields _ _ _ follow again.stop
      refine ⟨again :: rest, last, ⟨again, rest, rfl, here.offset ▸ other, moved⟩, rfl, ?_⟩
      rw [Node.contents, Node.contents, same, List.set_cons_zero]
    | succ position =>
      obtain ⟨rest, last, laid, found, same⟩ :=
        ih follow (by simpa using declared) (by simpa using there)
      refine ⟨head :: rest, last, ⟨head, rest, rfl, here, laid⟩, by simpa using found, ?_⟩
      rw [Node.contents, Node.contents, same, List.set_cons_succ]

/-- An item is given other children, and the items behind it are moved. -/
theorem ItemsLaid.replaced (laid : ItemsLaid (Field.LevelLaid Settled fields) index start items stop)
    (there : items[position]? = some item) {children : List Node} {middle : Nat}
    (level : Field.LevelLaid Settled fields item.offset children middle) :
    ∃ result last span, ItemsLaid (Field.LevelLaid Settled fields) index start result last ∧
      Node.contents result =
        (Node.contents items).set position (Node.branch item.name span .item children).content := by
  induction items generalizing index start position with
  | nil => simp at there
  | cons head items ih =>
    obtain ⟨length, inner, rfl, here, follow⟩ := laid
    cases position with
    | zero =>
      obtain rfl : item = _ := by simpa using there.symm
      rw [Node.offset_branch] at level
      obtain ⟨rest, last, moved, same, _⟩ := follow.moved (moves_all fields) middle
      have ends : start + (middle - start) = middle := Nat.add_sub_cancel' level.2.le
      refine ⟨_ :: rest, last, ⟨start, middle - start⟩,
        ⟨_, children, rfl, ends.symm ▸ level, ends.symm ▸ moved⟩, ?_⟩
      rw [Node.contents, Node.contents, same, List.set_cons_zero]
      rfl
    | succ position =>
      obtain ⟨rest, last, span, laid, same⟩ := ih follow (by simpa using there)
      refine ⟨_ :: rest, last, span, ⟨length, inner, rfl, here, laid⟩, ?_⟩
      rw [Node.contents, Node.contents, same, List.set_cons_succ]

end Replaced

section Exchanged

variable {fields owner : List Field} {nodes : List Node} {position start stop : Nat} {field : Field}
  {node again : Node}

/-- A level stays settled with another node that asks nothing else of its siblings, and of which they
ask nothing else. -/
theorem Settled.set (settled : Settled fields nodes)
    (verdicts : ∀ field ∈ fields,
      verdict? field.condition? (nodes.set position again) = verdict? field.condition? nodes)
    (counts : ∀ name ∈ fields.filterMap Field.countField?,
      siblingInteger? (nodes.set position again) name = siblingInteger? nodes name)
    (own : ∀ field, fields[position]? = some field → field.Settled (nodes.set position again) again) :
    Settled fields (nodes.set position again) := by
  rintro ⟨field, child⟩ member
  obtain ⟨place, paired⟩ := List.mem_iff_getElem?.mp member
  obtain ⟨declared, there⟩ := List.getElem?_zip_eq_some.mp paired
  by_cases here : place = position
  · subst here
    have inside := (List.getElem?_eq_some_iff.mp there).1
    rw [List.length_set] at inside
    rw [List.getElem?_set_self inside] at there
    obtain rfl := Option.some.inj there
    exact own field declared
  · rw [List.getElem?_set_ne (Ne.symm here)] at there
    have kept := settled _ (mem_zip_of_getElem? declared there)
    have among := List.mem_of_getElem? declared
    cases field with
    | scalar => trivial
    | composite => trivial
    | group name inner repetition condition =>
      have same : verdict? condition (nodes.set position again) = verdict? condition nodes :=
        verdicts _ among
      refine ⟨GroupFilled.transfer kept.toGroupFilled same, fun present => ?_⟩
      rintro countField zeroBased rfl
      rw [counts countField (List.mem_filterMap.mpr ⟨_, among, rfl⟩)]
      exact kept.counted (same.symm.trans present) countField zeroBased rfl

/-- A settled level can be laid out with such a node. -/
theorem exchanged_of_laid (level : Field.LevelLaid Settled fields start nodes stop)
    (declared : fields[position]? = some field) (there : nodes[position]? = some node)
    (other : field.Laid Settled node.offset again)
    (settled : Settled fields (nodes.set position again)) :
    ∃ result last, Field.LevelLaid Settled fields start result last ∧
      Node.bareAll result = (Node.bareAll nodes).set position again.bare := by
  obtain ⟨result, last, laid, _, same⟩ := laidAll_replaced level.2 declared there other
  refine ⟨result, last, ⟨settled.of_contents ?_, laid⟩, Node.bareAll_of_contents same⟩
  rw [same, Node.contents_eq, Node.contents_eq, List.map_set]

/-- What is below a node asks nothing of its siblings. -/
theorem Settled.set_below (settled : Settled fields nodes) (there : nodes[position]? = some node)
    (same : again.face = node.face)
    (own : ∀ field, fields[position]? = some field → field.Settled (nodes.set position again) again) :
    Settled fields (nodes.set position again) := by
  have faces := face_set there same
  refine settled.set (fun field _ => verdict?_congr faces field.condition?) (fun name _ => ?_) own
  rw [siblingInteger?, sibling?_congr faces, ← siblingInteger?]

/-- A node that no condition tests has no part in the conditions. -/
theorem verdict?_of_untested (there : nodes[position]? = some node) (named : again.name = node.name)
    (untested : ¬ field.Tests node.name) :
    verdict? field.condition? (nodes.set position again) = verdict? field.condition? nodes := by
  cases conditional : field.condition? with
  | none => rfl
  | some condition =>
    have apart : condition.field ≠ node.name := fun same => untested ⟨condition, conditional, same⟩
    rw [verdict?, verdict?, sibling?_set_ne there again named apart]

/-- A group that is present stays settled with as many other items. -/
theorem GroupSettled.exchanged {repetition : Repetition} {condition : Option Condition}
    (settled : GroupSettled nodes repetition condition node) (there : nodes[position]? = some node)
    (same : again.face = node.face) (present : verdict? condition nodes = some true)
    (sized : again.children.length = node.children.length)
    (terminated : repetition = .zeroTerminated → 0 < again.length) :
    GroupSettled (nodes.set position again) repetition condition again := by
  have faces := face_set there same
  refine ⟨.of_present ((verdict?_congr faces condition).trans present) ?_ terminated, fun _ => ?_⟩
  · intro count fixed
    exact sized.trans (settled.fixed present count fixed)
  · intro countField zeroBased counted
    rw [siblingInteger?, sibling?_congr faces, ← siblingInteger?, sized]
    exact settled.counted present countField zeroBased counted

end Exchanged

section Relaid

variable {fields inner owner : List Field} {nodes : List Node} {position index start stop : Nat}
  {name : String} {node item : Node} {change : List Node → List Node}
  (level : Field.LevelLaid Settled fields start nodes stop) (there : nodes[position]? = some node)
include level there

/-- A scalar that no condition tests, and that is no count, can hold another value. -/
theorem relaid_scalar {type : ScalarType} {f : Scalar → Scalar}
    (declared : fields[position]? = some (.scalar name type))
    (holds : ∀ held, type.Holds held → type.Holds (f held))
    (untested : ∀ group ∈ fields, ¬ group.Tests name)
    (free : Template.groupCountedBy? fields name = none) :
    ∃ result last, Field.LevelLaid Settled fields start result last ∧
      Node.bareAll result = (Node.bareAll nodes).modify position (Node.mapScalar f) := by
  obtain ⟨_, held, rfl, sound⟩ := level.2.pair (mem_zip_of_getElem? declared there)
  obtain ⟨result, last, laid, same⟩ := exchanged_of_laid level declared there
    ⟨f held, rfl, holds held sound⟩ (level.1.set
      (fun group among => verdict?_of_untested there rfl (untested group among))
      (siblingInteger?_set there rfl free) fun field same => by
        obtain rfl := Option.some.inj (declared.symm.trans same)
        trivial)
  refine ⟨result, last, laid, ?_⟩
  rw [same, modify_eq_set (Node.getElem?_bareAll there)]
  rfl

/-- A composite can hold another settled level. -/
theorem relaid_composite (declared : fields[position]? = some (.composite name inner))
    (below : ∃ children last, Field.LevelLaid Settled inner node.offset children last ∧
      Node.bareAll children = change (Node.bareAll node.children)) :
    ∃ result last, Field.LevelLaid Settled fields start result last ∧
      Node.bareAll result = (Node.bareAll nodes).modify position (Node.mapChildren change) := by
  obtain ⟨children, _, made, bare⟩ := below
  obtain ⟨_, length, others, rfl, _⟩ := level.2.pair (mem_zip_of_getElem? declared there)
  obtain ⟨result, last, laid, same⟩ := exchanged_of_laid level declared there made.composite
    (level.1.set_below there rfl fun field same => by
      obtain rfl := Option.some.inj (declared.symm.trans same)
      trivial)
  refine ⟨result, last, laid, ?_⟩
  rw [same, modify_eq_set (Node.getElem?_bareAll there)]
  exact congrArg (List.set _ _) (congrArg (Node.branch _ _ _) bare)

/-- An item can hold another settled level. -/
theorem relaid_item {repetition : Repetition} {condition : Option Condition}
    (declared : fields[position]? = some (.group name inner repetition condition))
    (counted : node.children[index]? = some item)
    (below : ∃ children last, Field.LevelLaid Settled inner item.offset children last ∧
      Node.bareAll children = change (Node.bareAll item.children)) :
    ∃ result last, Field.LevelLaid Settled fields start result last ∧
      Node.bareAll result = (Node.bareAll nodes).modify position
        (Node.mapChildren (·.modify index (Node.mapChildren change))) := by
  obtain ⟨children, _, made, bare⟩ := below
  have group := level.1 _ (mem_zip_of_getElem? declared there)
  have present := group.present (List.mem_of_getElem? counted)
  obtain ⟨_, laid⟩ := level.2.pair (mem_zip_of_getElem? declared there)
  obtain ⟨_, items⟩ := laid.items_of_mem (List.mem_of_getElem? counted)
  obtain ⟨_, _, _, _, rfl, _⟩ := items.member (List.mem_of_getElem? counted)
  obtain ⟨others, middle, _, items, kept⟩ := items.replaced counted made
  obtain ⟨length, before, rfl, _⟩ := laid
  rw [Node.children_branch] at counted kept
  have sized := Node.length_contents others
  rw [kept, List.length_set, Node.length_contents] at sized
  obtain ⟨result, last, laid, same⟩ := exchanged_of_laid level declared there items.group
    (level.1.set_below there rfl fun field same => by
      obtain rfl := Option.some.inj (declared.symm.trans same)
      refine GroupSettled.exchanged group there rfl present sized.symm ?_
      rintro rfl
      have after := items.le
      simp only [Node.length_branch, Repetition.ending, if_true, List.length_singleton]
      omega)
  refine ⟨result, last, laid, ?_⟩
  have changed : Node.bareAll others =
      (Node.bareAll before).modify index (Node.mapChildren change) := by
    rw [Node.bareAll_of_contents kept, modify_eq_set (Node.getElem?_bareAll counted)]
    exact congrArg (List.set _ _) (congrArg (Node.branch _ _ _) bare)
  rw [same, modify_eq_set (Node.getElem?_bareAll there)]
  exact congrArg (List.set _ _) (congrArg (Node.branch _ _ _) changed)

end Relaid

/-- With another value in such a scalar the tree can be laid out anew, and it differs in nothing
else. -/
theorem Leads.relaid {fields owner : List Field} {nodes : List Node} {start stop : Nat} {path : Path}
    {route : List Nat} {name : String} {type : ScalarType} {node : Node}
    (leads : Leads fields nodes path route owner (.scalar name type) node) {f : Scalar → Scalar}
    (holds : ∀ held, type.Holds held → type.Holds (f held))
    (untested : ∀ group ∈ owner, ¬ group.Tests name)
    (free : Template.groupCountedBy? owner name = none)
    (level : Field.LevelLaid Settled fields start nodes stop) :
    ∃ result last, Field.LevelLaid Settled fields start result last ∧
      Node.bareAll result = updateAt (Node.mapScalar f) route (Node.bareAll nodes) := by
  generalize scalar : Field.scalar name type = field at leads
  induction leads generalizing start stop with
  | here _ declared there =>
    subst scalar
    exact relaid_scalar level there declared holds untested free
  | composite _ declared there leads ih =>
    obtain ⟨_, below⟩ := level.2.pair (mem_zip_of_getElem? declared there)
    rw [updateAt_cons _ leads.route_ne_nil]
    exact relaid_composite level there declared (ih untested free below.level scalar)
  | item _ declared there counted leads ih =>
    obtain ⟨_, below⟩ := level.2.pair (mem_zip_of_getElem? declared there)
    obtain ⟨_, items⟩ := below.items_of_mem (List.mem_of_getElem? counted)
    obtain ⟨_, _, _, _, rfl, under⟩ := items.member (List.mem_of_getElem? counted)
    rw [updateAt_cons _ (by simp)]
    have inner := relaid_item level there declared counted (ih untested free under scalar)
    rwa [← funext fun items => updateAt_cons _ leads.route_ne_nil] at inner

end ResourceTemplate
