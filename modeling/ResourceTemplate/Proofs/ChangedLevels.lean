import ResourceTemplate.Proofs.Contents
import ResourceTemplate.Proofs.RepeatedEdits

/-! A settled level of which one node is changed before it is settled again. Its other fields keep
their contents, apart from the groups that a condition adds or drops and the counts that groups
newly call for. -/
namespace ResourceTemplate

theorem Field.LaidAll.length_eq {rule : LevelRule} {fields : List Field} {nodes : List Node}
    {start stop : Nat} (laid : Field.LaidAll rule fields start nodes stop) :
    nodes.length = fields.length := by
  simpa using congrArg List.length laid.names

/-- Every field has a node. -/
theorem Field.LaidAll.getElem? {rule : LevelRule} {fields : List Field} {nodes : List Node}
    {start stop : Nat} (laid : Field.LaidAll rule fields start nodes stop) {position : Nat}
    {field : Field} (declared : fields[position]? = some field) :
    ∃ node, nodes[position]? = some node :=
  ⟨_, List.getElem?_eq_getElem (laid.length_eq ▸ (List.getElem?_eq_some_iff.mp declared).1)⟩

/-- A settled level is settled again with a new node, which changes no count, at one position. -/
structure Resettled (fields : List Field) (nodes : List Node) (position : Nat) (new : Node)
    (result : List Node) : Prop where
  checked : Template.check fields = .ok ()
  nested : Field.AllNested (·.check = .ok ()) fields
  level : ∃ start stop, Field.LevelLaid Settled fields start nodes stop
  shaped : Field.ShapedAll fields (nodes.set position new)
  settled : ∃ parent start stop,
    settleLevel fields (nodes.set position new) parent start = .ok (result, stop)
  counts : ∀ name ∈ fields.filterMap Field.countField?,
    siblingInteger? (nodes.set position new) name = siblingInteger? nodes name

/-- A level between settling its fields and setting its counts. -/
structure Midway (fields : List Field) (changed middle result : List Node) : Prop where
  faces : middle.map Node.face = changed.map Node.face
  alone : ∀ position field node, fields[position]? = some field → changed[position]? = some node →
    ∃ front again back path place, middle = front ++ again :: back ∧ front.length = position ∧
      settleField field node front path place = .ok again
  recounted : Recounted (missed (calledFor fields middle middle) middle) fields middle result
  held : ∀ entry ∈ calledFor fields middle middle, siblingInteger? result entry.1 = some entry.2

section Midway

variable {fields : List Field} {nodes middle result : List Node} {position other : Nat}
  {new node again : Node} {field : Field}

/-- A field is settled only when its condition can be decided. -/
theorem settleField_decided {before : List Node} {path : Path} {start : Nat}
    (settled : settleField field node before path start = .ok again) :
    ∃ present, verdict? field.condition? before = some present := by
  cases field with
  | scalar => exact ⟨true, rfl⟩
  | composite => exact ⟨true, rfl⟩
  | group name fields repetition condition =>
    rw [settleField] at settled
    obtain ⟨present, decided, _⟩ := bind_eq_ok.mp settled
    exact ⟨present, isPresent_eq_ok.mp decided⟩

theorem Resettled.midway (resettled : Resettled fields nodes position new result) :
    ∃ middle, Midway fields (nodes.set position new) middle result := by
  obtain ⟨checked, nested, _, shaped, ⟨parent, start, stop, settled⟩, _⟩ := resettled
  have fills := settleFields_lays fields nested _ shaped [] parent start
  obtain ⟨middle, first, recounted, held⟩ := settleWith_recounts checked fills settled
  refine ⟨middle, settleFields_face first, ?_, recounted, held⟩
  intro position field node declared there
  obtain ⟨front, again, back, place, split, sized, alone⟩ := settleFields_at first declared there
  exact ⟨front, again, back, _, place, split, sized, alone⟩

/-- A node whose condition is decided as before keeps its contents. -/
theorem Resettled.kept (resettled : Resettled fields nodes position new result)
    (midway : Midway fields (nodes.set position new) middle result) (apart : other ≠ position)
    (declared : fields[other]? = some field) (there : nodes[other]? = some node)
    (verdicts : verdict? field.condition? (nodes.set position new) = verdict? field.condition? nodes) :
    ∃ again, middle[other]? = some again ∧ again.content = node.content := by
  obtain ⟨_, _, kept, laid⟩ := resettled.level
  have same : (nodes.set position new)[other]? = some node := by
    rw [List.getElem?_set_ne apart.symm, there]
  obtain ⟨front, again, back, path, place, rfl, rfl, settled⟩ :=
    midway.alone other field node declared same
  have paired := mem_zip_of_getElem? declared there
  have filled : field.Filled front node := by
    have decided := settleField_decided settled
    cases field with
    | scalar => trivial
    | composite => trivial
    | group name inner repetition condition =>
      obtain ⟨present, verdict⟩ := decided
      refine GroupFilled.transfer (kept _ paired).toGroupFilled ?_
      have known : verdict? condition front = some present := verdict
      have same : verdict? condition (nodes.set position new) = verdict? condition nodes := verdicts
      rw [← same, ← verdict?_congr midway.faces, known, verdict?_append known]
  obtain ⟨start, below⟩ := laid.pair paired
  obtain ⟨final, resettled, alike, _⟩ := settleField_kept field
    (resettled.nested.member (List.mem_of_getElem? declared)) start node below front filled path place
  obtain rfl := Except.ok.inj (resettled.symm.trans settled)
  exact ⟨final, by simp, alike⟩

/-- A count that is not held when the fields are settled is called for by a group that was absent,
or at the changed position. -/
theorem Resettled.missed (resettled : Resettled fields nodes position new result)
    (midway : Midway fields (nodes.set position new) middle result) {countField : String} {n : Int}
    (unheld : (countField, n) ∈ missed (calledFor fields middle middle) middle) :
    ∃ caller name inner zeroBased condition, ∃ node again : Node,
      fields[caller]? = some (.group name inner (.counted countField zeroBased) condition) ∧
      nodes[caller]? = some node ∧ middle[caller]? = some again ∧
      n = countValue zeroBased again.children.length ∧
      verdict? condition (nodes.set position new) = some true ∧
      (verdict? condition nodes = some true →
        caller = position ∧ again.children.length ≠ node.children.length) := by
  obtain ⟨called, unheld⟩ := mem_missed.mp unheld
  obtain ⟨name, inner, zeroBased, condition, again, member, holds, rfl⟩ := mem_calledFor.mp called
  obtain ⟨caller, paired⟩ := List.mem_iff_getElem?.mp member
  obtain ⟨declared, there⟩ := List.getElem?_zip_eq_some.mp paired
  obtain ⟨_, _, kept, laid⟩ := resettled.level
  obtain ⟨node, before⟩ := laid.getElem? declared
  have holds := verdict?_congr midway.faces condition ▸ holds
  have differs (present : verdict? condition nodes = some true) :
      again.children.length ≠ node.children.length := by
    intro same
    have group := kept _ (mem_zip_of_getElem? declared before)
    have counter : countField ∈ fields.filterMap Field.countField? :=
      List.mem_filterMap.mpr ⟨_, List.mem_of_getElem? declared, rfl⟩
    apply unheld
    rw [siblingInteger?, sibling?_congr midway.faces, ← siblingInteger?,
      resettled.counts countField counter, group.counted present countField zeroBased rfl, same]
  refine ⟨caller, name, inner, zeroBased, condition, node, again, declared, before, there, rfl, holds,
    fun present => ⟨?_, differs present⟩⟩
  by_contra apart
  obtain ⟨final, found, alike⟩ :=
    resettled.kept midway apart declared before (holds.trans present.symm)
  obtain rfl := Option.some.inj (there.symm.trans found)
  exact differs present (Node.length_of_contents (Node.children_of_content alike))

end Midway

/-- A group that was absent, or one at the changed position that now holds another number of items,
calls for a count. -/
def Calls (fields : List Field) (nodes : List Node) (position : Nat) (new : Node)
    (result : List Node) (countField : String) : Prop :=
  ∃ caller name inner zeroBased condition, ∃ node again : Node,
    fields[caller]? = some (.group name inner (.counted countField zeroBased) condition) ∧
    nodes[caller]? = some node ∧ result[caller]? = some again ∧
    verdict? condition (nodes.set position new) = some true ∧
    (verdict? condition nodes = some true →
      caller = position ∧ again.children.length ≠ node.children.length)

section Result

variable {fields : List Field} {nodes result : List Node} {position other : Nat} {new node : Node}
  {field : Field}

/-- Apart from the changed one and from counts that are called for, a node whose condition is decided
as before keeps its contents. -/
theorem Resettled.elsewhere (resettled : Resettled fields nodes position new result)
    (apart : other ≠ position) (declared : fields[other]? = some field)
    (there : nodes[other]? = some node)
    (verdicts : verdict? field.condition? (nodes.set position new) = verdict? field.condition? nodes) :
    ∃ again, result[other]? = some again ∧ (again.content = node.content ∨
      ∃ countField type, field = .scalar countField type ∧
        Calls fields nodes position new result countField) := by
  obtain ⟨middle, midway⟩ := resettled.midway
  obtain ⟨between, found, alike⟩ := resettled.kept midway apart declared there verdicts
  obtain ⟨again, found, counted⟩ := midway.recounted.getElem? declared found
  refine ⟨again, found, ?_⟩
  rcases counted with rfl | ⟨countField, type, _, _, _, n, rfl, _, unheld, _⟩
  · exact .inl alike
  · -- The group that calls for the count is not itself changed when counts are set.
    obtain ⟨caller, name, inner, zeroBased, condition, before, after, group, first, last, _, holds,
      calls⟩ := resettled.missed midway unheld
    obtain ⟨final, found, same⟩ := midway.recounted.getElem? group last
    obtain rfl : final = after := by
      rcases same with same | ⟨_, _, _, _, _, _, scalar, _⟩
      · exact same
      · nomatch scalar
    exact .inr ⟨countField, type, rfl, caller, name, inner, zeroBased, condition, before, _, group,
      first, found, holds, calls⟩

/-- The count field of a group that is present holds its number of items. -/
theorem Resettled.counted (resettled : Resettled fields nodes position new result) {name : String}
    {inner : List Field} {countField : String} {zeroBased : Bool} {condition : Option Condition}
    (declared : fields[other]? = some (.group name inner (.counted countField zeroBased) condition))
    {again : Node} (found : result[other]? = some again)
    (present : verdict? condition (nodes.set position new) = some true) :
    siblingInteger? result countField = some (countValue zeroBased again.children.length) := by
  obtain ⟨middle, midway⟩ := resettled.midway
  obtain ⟨node, there⟩ : ∃ node, (nodes.set position new)[other]? = some node :=
    ⟨_, List.getElem?_eq_getElem
      (resettled.shaped.length_eq ▸ (List.getElem?_eq_some_iff.mp declared).1)⟩
  obtain ⟨front, between, back, _, _, rfl, rfl, _⟩ := midway.alone _ _ node declared there
  have inside : (front ++ between :: back)[front.length]? = some between := by simp
  obtain ⟨final, held, same | ⟨_, _, _, _, _, _, scalar, _⟩⟩ :=
    midway.recounted.getElem? declared inside
  · obtain rfl : again = between := (Option.some.inj (found.symm.trans held)).trans same
    exact midway.held _ (mem_calledFor.mpr ⟨name, inner, zeroBased, condition, again,
      mem_zip_of_getElem? declared inside, (verdict?_congr midway.faces condition).trans present, rfl⟩)
  · nomatch scalar

/-- Each node but a count is settled on its own, in a group that is decided as the whole level
decides it. -/
theorem Resettled.alone (resettled : Resettled fields nodes position new result)
    (declared : fields[other]? = some field) (there : (nodes.set position new)[other]? = some node)
    (free : ∀ name type, field = .scalar name type → Template.groupCountedBy? fields name = none) :
    ∃ again front path place, result[other]? = some again ∧
      settleField field node front path place = .ok again ∧
      verdict? field.condition? front = verdict? field.condition? (nodes.set position new) := by
  obtain ⟨checked, nested, _, shaped, ⟨parent, start, stop, settled⟩, _⟩ := resettled
  obtain ⟨front, again, back, place, alone, found, faces⟩ :=
    settleLevel_at checked nested shaped settled there declared free
  obtain ⟨present, verdict⟩ := settleField_decided alone
  refine ⟨again, front, _, place, found, alone, ?_⟩
  rw [← verdict?_congr faces, verdict, verdict?_append verdict]

theorem Resettled.here (resettled : Resettled fields nodes position new result)
    (declared : fields[position]? = some field) (there : nodes[position]? = some node)
    (free : ∀ name type, field = .scalar name type → Template.groupCountedBy? fields name = none) :
    ∃ again front path place, result[position]? = some again ∧
      settleField field new front path place = .ok again ∧
      verdict? field.condition? front = verdict? field.condition? (nodes.set position new) :=
  resettled.alone declared (List.getElem?_set_self (List.getElem?_eq_some_iff.mp there).1) free

theorem Resettled.length_eq (resettled : Resettled fields nodes position new result) :
    result.length = nodes.length := by
  obtain ⟨checked, nested, ⟨_, _, _, laid⟩, shaped, ⟨parent, start, stop, settled⟩, _⟩ := resettled
  have fills := settleFields_lays fields nested _ shaped [] parent start
  have again := settleWith_lays checked fills settled
  rw [again.2.length_eq, laid.length_eq]

/-- A change that leaves all conditions and the number of items as they are changes one place. -/
theorem Resettled.contents_eq (resettled : Resettled fields nodes position new result)
    (declared : fields[position]? = some field) (there : nodes[position]? = some node)
    (verdicts : ∀ field ∈ fields,
      verdict? field.condition? (nodes.set position new) = verdict? field.condition? nodes)
    {again : Node} (found : result[position]? = some again)
    (sized : field.countField?.isSome → again.children.length = node.children.length) :
    Node.contents result = (Node.contents nodes).set position again.content := by
  apply Node.contents_eq_set resettled.length_eq found
  intro other before apart present
  obtain ⟨_, _, _, laid⟩ := resettled.level
  have among := List.getElem?_eq_getElem (laid.length_eq ▸ (List.getElem?_eq_some_iff.mp present).1)
  obtain ⟨final, held, alike | ⟨countField, type, _, calls⟩⟩ :=
    resettled.elsewhere apart among present (verdicts _ (List.getElem_mem _))
  · exact ⟨final, held, alike⟩
  · obtain ⟨caller, name, inner, zeroBased, condition, first, last, group, start, ends, holds,
      changed⟩ := calls
    obtain ⟨rfl, differs⟩ := changed ((verdicts _ (List.mem_of_getElem? group)).symm.trans holds)
    obtain rfl := Option.some.inj (declared.symm.trans group)
    obtain rfl := Option.some.inj (there.symm.trans start)
    obtain rfl := Option.some.inj (found.symm.trans ends)
    exact absurd (sized rfl) differs

/-- A node that shows its siblings what the one before it did changes no count. -/
theorem resettled_of_face (checked : Template.check fields = .ok ())
    (nested : Field.AllNested (·.check = .ok ()) fields) {start stop : Nat}
    (level : Field.LevelLaid Settled fields start nodes stop)
    (shaped : Field.ShapedAll fields (nodes.set position new))
    (there : nodes[position]? = some node) (same : new.face = node.face) {parent : Path}
    {place last : Nat}
    (settled : settleLevel fields (nodes.set position new) parent place = .ok (result, last)) :
    Resettled fields nodes position new result where
  checked := checked
  nested := nested
  level := ⟨start, stop, level⟩
  shaped := shaped
  settled := ⟨parent, place, last, settled⟩
  counts := fun name _ => by
    rw [siblingInteger?, siblingInteger?, sibling?_congr (face_set there same)]

end Result

section Below

variable {fields inner : List Field} {nodes result : List Node} {position : Nat} {node : Node}
  {change : List Node → List Node} {name : String}

@[simp] theorem Node.face_mapChildren (change : List Node → List Node) (node : Node) :
    (node.mapChildren change).face = node.face := by
  cases node <;> rfl

/-- What is below a node has no part in the conditions of its level. -/
theorem verdict?_set (there : nodes[position]? = some node) (change : List Node → List Node)
    (condition : Option Condition) :
    verdict? condition (nodes.set position (node.mapChildren change)) = verdict? condition nodes :=
  verdict?_congr (face_set there (node.face_mapChildren change)) condition

/-- A change below a composite changes the composite alone. -/
theorem Resettled.composite
    (resettled : Resettled fields nodes position (node.mapChildren change) result)
    (declared : fields[position]? = some (.composite name inner))
    (there : nodes[position]? = some node) :
    ∃ again path place last, result[position]? = some again ∧
      Node.contents result = (Node.contents nodes).set position again.content ∧
      settleLevel inner (change node.children) path place = .ok (again.children, last) := by
  obtain ⟨again, front, path, place, found, alone, _⟩ := resettled.here declared there nofun
  have same := resettled.contents_eq declared there (fun _ _ => verdict?_set there change _) found
    nofun
  obtain ⟨_, _, _, laid⟩ := resettled.level
  obtain ⟨_, length, children, rfl, _⟩ := laid.pair (mem_zip_of_getElem? declared there)
  obtain ⟨below, last, settled, rfl⟩ := settleField_composite.mp alone
  exact ⟨_, path, place, last, found, same, settled⟩

/-- A change of the items of a group that is present, and is not given more or fewer than it asks
for, keeps the items around those that are exchanged. -/
theorem Resettled.group {repetition : Repetition} {condition : Option Condition}
    {front old made back : List Node}
    (resettled : Resettled fields nodes position (node.mapChildren change) result)
    (declared : fields[position]? = some (.group name inner repetition condition))
    (there : nodes[position]? = some node) (present : verdict? condition nodes = some true)
    (before : node.children = front ++ old ++ back)
    (after : change node.children = front ++ made ++ back)
    (fixed : ∀ count, repetition = .fixed count → (front ++ made ++ back).length = count) :
    ∃ again first items rest, result[position]? = some again ∧
      again.children = first ++ items ++ rest ∧ Exchanged inner front made back first items rest ∧
      repetition.closing again.length = repetition.closing node.length := by
  obtain ⟨_, _, kept, laid⟩ := resettled.level
  have group := kept _ (mem_zip_of_getElem? declared there)
  have terminated := group.terminated present
  have formed := resettled.nested.member (List.mem_of_getElem? declared)
  have shaped := resettled.shaped.getElem? declared
    (List.getElem?_set_self (List.getElem?_eq_some_iff.mp there).1)
  obtain ⟨again, earlier, path, place, found, alone, decided⟩ := resettled.here declared there nofun
  have holds : verdict? condition earlier = some true :=
    (decided.trans (verdict?_set there change condition)).trans present
  have filled := (settleField_lays _ formed _ shaped earlier path place again alone).2
  obtain ⟨start, length, items, rfl, laid⟩ := laid.pair (mem_zip_of_getElem? declared there)
  obtain ⟨_, laid, _⟩ := itemsLaid_of_present laid terminated
  obtain rfl : items = front ++ old ++ back := before
  obtain ⟨absent, _⟩ | ⟨_, items, last, several, rfl⟩ := settleField_group.mp alone
  · nomatch absent.symm.trans holds
  · rw [Node.children_branch] at after
    rw [after, fillItems_eq fixed] at several
    obtain ⟨first, inside, rest, rfl, exchanged⟩ :=
      settleItems_splice (settleLevel_kept formed.1 formed.2) laid several
    refine ⟨_, first, inside, rest, found, rfl, exchanged, ?_⟩
    rw [Repetition.closing_eq_ending (filled.terminated holds),
      Repetition.closing_eq_ending terminated]

/-- A change below an item changes the item alone. -/
theorem Resettled.item {repetition : Repetition} {condition : Option Condition} {index : Nat}
    {item : Node} {below : List Node → List Node}
    (resettled : Resettled fields nodes position
      (node.mapChildren fun items => items.set index (item.mapChildren below)) result)
    (declared : fields[position]? = some (.group name inner repetition condition))
    (there : nodes[position]? = some node) (counted : node.children[index]? = some item) :
    ∃ again final path place last, result[position]? = some again ∧
      Node.contents result = (Node.contents nodes).set position again.content ∧
      again.children[index]? = some final ∧
      Node.contents again.children = (Node.contents node.children).set index final.content ∧
      repetition.closing again.length = repetition.closing node.length ∧
      settleLevel inner (below item.children) path place = .ok (final.children, last) := by
  obtain ⟨_, _, kept, laid⟩ := resettled.level
  have group := kept _ (mem_zip_of_getElem? declared there)
  have present := group.present (List.mem_of_getElem? counted)
  obtain ⟨start, laid⟩ := laid.pair (mem_zip_of_getElem? declared there)
  obtain ⟨_, laid, _⟩ := itemsLaid_of_present laid.items (group.terminated present)
  have inside : (item.mapChildren below).tag = .branch .item ∧
      (item.mapChildren below).children = below item.children := by
    obtain ⟨_, _, _, children, rfl, _⟩ := laid.member (List.mem_of_getElem? counted)
    exact ⟨rfl, rfl⟩
  obtain ⟨front, back, before, rfl⟩ := split_at counted
  have after : node.children.set front.length (item.mapChildren below) =
      front ++ [item.mapChildren below] ++ back := by
    rw [before]
    simp
  obtain ⟨again, first, made, rest, found, items, ⟨same, ⟨_, _, _, exchanged⟩, alike⟩, closing⟩ :=
    resettled.group declared there present before after
      (fun count repeated => by simpa [before] using group.fixed present count repeated)
  obtain ⟨final, _, alone, follow, rfl⟩ := settleItems_cons.mp exchanged
  obtain ⟨rfl, _⟩ := Prod.mk.inj (pure_eq_ok.mp follow)
  rw [before] at laid
  obtain ⟨_, _, later⟩ := ItemsLaid.append.mp laid
  have numbers : numbered (front.length + 1) back = back := by simpa using later.numbered_eq
  have sized : first.length = front.length := Node.length_of_contents same
  have kept : Node.contents again.children =
      (Node.contents node.children).set front.length final.content := by
    rw [items, before]
    simp [same, alike, numbers, Node.contents]
  obtain ⟨children, last, level, rfl⟩ := (settleItem_eq_ok inside.1).mp alone
  refine ⟨again, _, _, _, last, found, ?_, ?_, kept, closing, inside.2 ▸ level⟩
  · apply resettled.contents_eq declared there (fun _ _ => verdict?_set there _ _) found
    intro _
    simpa using congrArg List.length kept
  · rw [items, ← sized]
    simp

end Below

/-- An item as settling makes it of the default fields, where it stands. -/
def Fresh (fields : List Field) (item : Node) : Prop :=
  ∃ parent stop,
    settleLevel fields (Field.defaults fields) parent item.offset = .ok (item.children, stop)

section Fresh

variable {fields inner : List Field} {nodes items : List Node} {index start stop : Nat} {again : Node}
  {path : Path}

theorem fresh_of_settleItem {number : Nat}
    (settled : settleItem fields path index (defaultItem fields number) start = .ok again) :
    Fresh fields again := by
  obtain ⟨children, stop, level, rfl⟩ := (settleItem_eq_ok rfl).mp settled
  exact ⟨_, stop, level⟩

theorem settleItems_mem {item : ItemSettler}
    (settled : settleItems item nodes index start = .ok (items, stop)) (member : again ∈ items) :
    ∃ number node place, node ∈ nodes ∧ item number node place = .ok again := by
  induction nodes generalizing index start items with
  | nil =>
    obtain ⟨rfl, _⟩ := Prod.mk.inj (pure_eq_ok.mp settled)
    nomatch member
  | cons node nodes ih =>
    obtain ⟨first, rest, alone, follow, rfl⟩ := settleItems_cons.mp settled
    rcases List.mem_cons.mp member with rfl | member
    · exact ⟨index, node, start, List.mem_cons_self, alone⟩
    · obtain ⟨number, other, place, among, alone⟩ := ih follow member
      exact ⟨number, other, place, List.mem_cons_of_mem _ among, alone⟩

/-- A group that was empty holds default items, as many as it asks for, or none. -/
theorem Resettled.filled {position other : Nat} {new node : Node} {result : List Node} {name : String}
    {repetition : Repetition} {condition : Option Condition}
    (resettled : Resettled fields nodes position new result)
    (declared : fields[other]? = some (.group name inner repetition condition))
    (there : (nodes.set position new)[other]? = some node) (empty : node.children = []) :
    ∃ again, result[other]? = some again ∧ (∀ item ∈ again.children, Fresh inner item) ∧
      ((∀ count, repetition ≠ .fixed count) → again.children = []) := by
  obtain ⟨span, children, rfl, _⟩ := resettled.shaped.getElem? declared there
  obtain rfl : children = [] := empty
  obtain ⟨again, front, path, place, found, alone, _⟩ := resettled.alone declared there nofun
  refine ⟨again, found, ?_⟩
  rcases settleField_group.mp alone with ⟨_, rfl⟩ | ⟨_, items, last, several, rfl⟩
  · exact ⟨fun item member => absurd member List.not_mem_nil, fun _ => rfl⟩
  · constructor
    · intro item member
      obtain ⟨number, made, _, among, alone⟩ := settleItems_mem several member
      obtain ⟨_, rfl⟩ := of_mem_fillItems among
      exact fresh_of_settleItem alone
    · intro free
      cases repetition with
      | fixed count => exact absurd rfl (free count)
      | counted | untilEnd | zeroTerminated =>
        obtain ⟨rfl, _⟩ := Prod.mk.inj (pure_eq_ok.mp several)
        rfl

end Fresh

end ResourceTemplate
