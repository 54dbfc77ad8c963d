import ResourceTemplate.Proofs.MendedCounts

/-! Items that are inserted and taken out again. What settling makes of the level without the item is
what the level was before, and so is the record. -/
namespace ResourceTemplate

theorem Node.bareAll_append (nodes others : List Node) :
    Node.bareAll (nodes ++ others) = Node.bareAll nodes ++ Node.bareAll others := by
  simp [bareAll_eq]

/-- Other numbers of items make no difference to what they are. -/
theorem Node.bareAll_numbered {level : Nat → List Node → Nat → Prop} {index start stop : Nat}
    {items : List Node} (laid : ItemsLaid level index start items stop) (number : Nat) :
    Node.bareAll (numbered number items) = Node.bareAll items := by
  induction items generalizing index start number with
  | nil => rfl
  | cons item items ih =>
    obtain ⟨length, children, rfl, _, follow⟩ := laid
    exact congrArg (_ :: ·) (ih follow (number + 1))

theorem Field.Laid.bareAll_numbered {rule : LevelRule} {name : String} {inner : List Field}
    {repetition : Repetition} {condition : Option Condition} {start : Nat} {node : Node}
    (laid : (Field.group name inner repetition condition).Laid rule start node)
    {front back : List Node} (split : node.children = front ++ back) (number : Nat) :
    Node.bareAll (numbered number back) = Node.bareAll back := by
  rcases laid.items with ⟨empty, _⟩ | ⟨_, laid, _⟩
  · obtain ⟨_, rfl⟩ := List.append_eq_nil_iff.mp (split.symm.trans empty)
    rfl
  · rw [split] at laid
    obtain ⟨_, _, later⟩ := ItemsLaid.append.mp laid
    exact Node.bareAll_numbered later number

section Level

variable {owner inner : List Field} {before after : List Node} {position origin stop last index : Nat}
  {name : String} {repetition : Repetition} {condition : Option Condition} {node item : Node}
  (resettled : Resettled owner before position (node.mapChildren (·.insertIdx index item)) after)
  (declared : owner[position]? = some (.group name inner repetition condition))
  (there : before[position]? = some node) (present : verdict? condition before = some true)
  (level : Field.LevelLaid Settled owner origin before stop)
  (final : Field.LevelLaid Settled owner origin after last)
include resettled declared there present level final

/-- Without the item, the group that it was inserted into is the one before it was. -/
theorem Resettled.erased (free : ∀ count, repetition ≠ .fixed count)
    (inside : index ≤ node.children.length) {again : Node} (found : after[position]? = some again) :
    (again.mapChildren (·.eraseIdx index)).bare = node.bare ∧ index < again.children.length := by
  obtain ⟨front, back, split, rfl, changed⟩ := insertIdx_cut inside item
  obtain ⟨_, first, placed, rest, held, made, ⟨head, ⟨_, _, _, settled⟩, tail⟩, _⟩ :=
    resettled.group declared there present split changed (fun count fixed => absurd fixed (free count))
  obtain rfl := Option.some.inj (found.symm.trans held)
  obtain ⟨alone, _, _, last, rfl⟩ := settleItems_cons.mp settled
  obtain ⟨rfl, _⟩ := Prod.mk.inj (pure_eq_ok.mp last)
  obtain ⟨_, below⟩ := level.2.pair (mem_zip_of_getElem? declared there)
  obtain ⟨_, under⟩ := final.2.pair (mem_zip_of_getElem? declared found)
  have sized : first.length = front.length := Node.length_of_contents head
  have erased : again.children.eraseIdx front.length = first ++ rest := by
    rw [made, ← sized, List.append_assoc, List.eraseIdx_append_of_length_le le_rfl]
    simp
  have bare : Node.bareAll (again.children.eraseIdx front.length) = Node.bareAll node.children := by
    rw [erased, split, List.append_nil, Node.bareAll_append, Node.bareAll_append,
      ← Node.bareAll_contents first, head, Node.bareAll_contents, ← Node.bareAll_contents rest, tail,
      Node.bareAll_contents, below.bareAll_numbered (by rw [split, List.append_nil])]
  constructor
  · obtain ⟨_, items, rfl, _⟩ := below
    obtain ⟨_, others, rfl, _⟩ := under
    exact congrArg (Node.branch _ _ _) bare
  · rw [made]
    simp [sized]

/-- Nothing tells the level without the item from what it was, but for the count of the group. -/
theorem Resettled.reverted (untested : Template.CountsUntested owner)
    (free : ∀ count, repetition ≠ .fixed count) (inside : index ≤ node.children.length) :
    ∃ again, after[position]? = some again ∧ index < again.children.length ∧
      verdict? condition after = some true ∧
      (Field.group name inner repetition condition).Shaped (again.mapChildren (·.eraseIdx index)) ∧
      SettlesAlike owner (after.set position (again.mapChildren (·.eraseIdx index))) before := by
  obtain ⟨again, mid, found, counted, laid, kept, same⟩ :=
    resettled.between declared there present level final
  obtain ⟨bare, more⟩ := resettled.erased declared there present level final free inside found
  have shaped := Field.LaidAll.shaped _ _ _ _ final.2
  have described : (Field.group name inner repetition condition).Shaped
      (again.mapChildren (·.eraseIdx index)) := by
    obtain ⟨span, items, rfl, each⟩ := shaped.getElem? declared found
    exact ⟨span, _, rfl, fun item member => each item (List.mem_of_mem_eraseIdx member)⟩
  have alike : SettlesAlike owner (after.set position (again.mapChildren (·.eraseIdx index))) mid := by
    refine settlesAlike_of_bare (shaped.set declared described) (Field.LaidAll.shaped _ _ _ _ laid) ?_
    rw [Node.bareAll_set, Node.bareAll_of_contents same, List.set_set, bare]
    exact set_of_getElem? (Node.getElem?_bareAll kept)
  refine ⟨again, found, more, ?_, described, alike.trans ?_⟩
  · exact (final.1 _ (mem_zip_of_getElem? declared found)).present (List.getElem_mem more)
  · cases repetition with
    | fixed | untilEnd | zeroTerminated =>
      obtain rfl : mid = before := counted
      exact .refl owner mid
    | counted countField zeroBased =>
      obtain ⟨_, _, _, _, _, held, counter, was, _, holds, integer, rfl⟩ := counted
      exact settlesAlike_count resettled.checked resettled.nested untested level declared present counter
        was holds (ScalarType.ne_pascalString holds integer)

end Level

/-- A node that is exchanged where two lists differ makes them alike if it does so in one of them. -/
theorem settlesAlike_exchanged {fields : List Field} {nodes result : List Node} {position : Nat}
    {field : Field} {node again new other : Node} (shaped : Field.ShapedAll fields nodes)
    (reshaped : Field.ShapedAll fields result) (declared : fields[position]? = some field)
    (there : nodes[position]? = some node)
    (same : Node.contents result = (Node.contents nodes).set position again.content)
    (described : field.Shaped new) (also : field.Shaped other) (bare : new.bare = other.bare)
    (alike : field.SettlesAlike other node) :
    SettlesAlike fields (result.set position new) nodes := by
  refine .trans (settlesAlike_of_bare (reshaped.set declared described) (shaped.set declared also) ?_)
    (settlesAlike_set shaped declared there also alike)
  rw [Node.bareAll_set, Node.bareAll_set, Node.bareAll_of_contents same, List.set_set, bare]

/-- What holds of every field list holds of the level that an edit reaches. -/
theorem Frame.everywhere {fields owner : List Field} {nodes result before after : List Node} {way : Path}
    (frame : Frame fields nodes result way owner before after) {rule : Template → Prop}
    (kept : rule fields) (nested : Field.AllNested rule fields) : rule owner := by
  induction frame with
  | here => exact kept
  | composite _ declared _ _ _ _ ih =>
    obtain ⟨kept, nested⟩ := nested.member (List.mem_of_getElem? declared)
    exact ih kept nested
  | item _ declared _ _ _ _ _ _ _ _ ih =>
    obtain ⟨kept, nested⟩ := nested.member (List.mem_of_getElem? declared)
    exact ih kept nested

/-- What settling cannot tell apart in one level of a tree that an edit reaches, it cannot tell apart
in the tree. -/
theorem Frame.reverted {fields owner : List Field} {nodes result before after : List Node} {way : Path}
    (frame : Frame fields nodes result way owner before after) (shaped : Field.ShapedAll fields nodes)
    (reshaped : Field.ShapedAll fields result) {name : String} {position : Nat} {field : Field}
    {again : Node} (named : Template.position? owner name = some position)
    (declared : owner[position]? = some field) (found : after[position]? = some again)
    {f : Node → Node} (described : field.Shaped (f again))
    (alike : SettlesAlike owner (after.set position (f again)) before) :
    ∃ route, Leads fields result (way ++ [.name name]) route owner field again ∧
      SettlesAlike fields (updateAt f route result) nodes ∧
      ∀ top : Node, top.children = result →
        (nodeAt? top route.dropLast).map Node.children = some after := by
  induction frame with
  | here =>
    refine ⟨[position], .here named declared found, ?_, fun top below => congrArg some below⟩
    rwa [updateAt, modify_eq_set found]
  | @composite fields inner _ nodes result _ _ _ _ place child final way outer holder there held same _
      ih =>
    obtain ⟨_, _, rfl, under⟩ := shaped.getElem? holder there
    obtain ⟨_, _, rfl, below⟩ := reshaped.getElem? holder held
    obtain ⟨route, leads, alike, above⟩ := ih under below named declared found alike
    have changed := leads.shaped_updateAt (fun _ => described) below
    refine ⟨place :: route, .composite outer holder held leads, ?_, fun top whole => ?_⟩
    · rw [updateAt_cons f leads.route_ne_nil, modify_eq_set held]
      exact settlesAlike_exchanged shaped reshaped holder there same ⟨_, _, rfl, changed⟩
        ⟨_, _, rfl, changed⟩ rfl alike.composite
    · subst whole
      rw [List.dropLast_cons_of_ne_nil leads.route_ne_nil, nodeAt?, held]
      exact above _ rfl
  | @item fields inner _ nodes result _ _ _ _ place index _ _ child final item last way outer holder there
      held same _ counted after kept _ ih =>
    obtain ⟨span, items, rfl, under⟩ := shaped.getElem? holder there
    obtain ⟨_, others, rfl, below⟩ := reshaped.getElem? holder held
    simp only [Node.children_branch] at counted after kept
    have inside := below _ (List.mem_of_getElem? after)
    have original := under _ (List.mem_of_getElem? counted)
    obtain ⟨route, leads, alike, above⟩ := ih original.2 inside.2 named declared found alike
    have changed := shaped_mapChildren inside (leads.shaped_updateAt (fun _ => described) inside.2)
    refine ⟨place :: index :: route, .item outer holder held after leads, ?_, fun top whole => ?_⟩
    · rw [updateAt_cons f (by simp), modify_eq_set held, Node.mapChildren,
        updateAt_cons f leads.route_ne_nil, modify_eq_set after]
      refine settlesAlike_exchanged shaped reshaped holder there same
        ⟨_, _, rfl, shaped_setItem below changed index⟩
        ⟨span, _, rfl, shaped_setItem under changed index⟩ (congrArg (Node.branch _ _ _) ?_)
        (SettlesAlike.group (forall₂_set counted ⟨changed.1.trans original.1.symm, ?_⟩))
      · rw [Node.bareAll_set, Node.bareAll_set, Node.bareAll_of_contents kept, List.set_set]
      · rwa [children_updateAt]
    · subst whole
      rw [List.dropLast_cons_of_ne_nil (by simp), List.dropLast_cons_of_ne_nil leads.route_ne_nil, nodeAt?,
        held, Option.bind_eq_bind, Option.bind_some, nodeAt?, Node.children_branch, after]
      exact above _ rfl

namespace Record

/-- An item that was inserted can be removed, as long as no condition tests a count, and the record is
then what it was: all values, counts, labels, names of items and places, and the bytes at the end. -/
theorem removeItem_insertItem {template : Template} (formed : template.WellFormed)
    (untested : template.Everywhere Template.CountsUntested) {settings : Settings} {record : Record}
    (reachable : Reachable template settings record) {path : Path} {index : Nat} {event : Event}
    {result : Record} (done : record.insertItem path index = .ok (event, result)) :
    result.removeItem path index = .ok (⟨path, .removed index⟩, record) := by
  obtain ⟨rfl, laid⟩ := reachable.laid formed
  have again : result.LaidOut := by
    have applied : record.apply settings (.insertItem path index) = .ok (event, result) := done
    obtain ⟨same, _, after⟩ := laid_of_apply formed laid applied
    exact after.laidOut (same ▸ untested)
  have laid := laid.laidOut untested
  obtain ⟨⟨route, node, field, owner⟩, inner, located, resizable, inside, committed, _⟩ :=
    insertItem_eq_ok.mp done
  obtain ⟨way, before, after, position, name, repetition, condition, rfl, declared, free, present,
    fielded, there, reached, resettled⟩ := reaches_of_items formed laid again located resizable
    (shaped_insertIdx inside) committed
  obtain rfl : field = some (.group name inner repetition condition) := declared
  obtain ⟨_, _, _, level, final, _⟩ := reached.swapped
  obtain ⟨group, found, more, still, described, alike⟩ := resettled.reverted fielded there present level
    final (reached.frame.everywhere untested.1 untested.2) free inside
  have named : Template.position? owner name = some position :=
    Template.position?_eq_some (Template.names_nodup resettled.checked) fielded
  obtain ⟨route, leads, alike, above⟩ := reached.frame.reverted laid.shaped
    (reached.same ▸ again.shaped) named fielded found described alike
  rw [← reached.same] at leads
  refine removeItem_eq_ok.mpr ⟨_, inner, locate_of_leads leads,
    (resizableGroup_eq_ok rfl (above result.root rfl)).mpr ⟨rfl, free, still⟩, more, ?_, rfl⟩
  rw [commit_eq_commit reached.same reached.trailing, commit_congr alike, laid.commit_eq formed]

/-- A point is inserted behind the first, and removed. -/
theorem removeItem_insertItem_sample : ∃ record longer event,
    decode Template.sample {} [1, 0, 0, 1, 0, 2, 0, 3, 97, 98, 1, 65, 0, 7, 8] = .ok record ∧
      record.insertItem [.name "points"] 1 = .ok (event, longer) ∧
      longer.encode = .ok [1, 1, 0, 1, 0, 2, 0, 0, 0, 0, 0, 3, 97, 98, 1, 65, 0, 7, 8] ∧
      longer.removeItem [.name "points"] 1 = .ok (⟨[.name "points"], .removed 1⟩, record) := by
  obtain ⟨record, longer, event, decoded, insert, written⟩ : ∃ record longer event,
      decode Template.sample {} [1, 0, 0, 1, 0, 2, 0, 3, 97, 98, 1, 65, 0, 7, 8] = .ok record ∧
        record.insertItem [.name "points"] 1 = .ok (event, longer) ∧
        longer.encode = .ok [1, 1, 0, 1, 0, 2, 0, 0, 0, 0, 0, 3, 97, 98, 1, 65, 0, 7, 8] :=
    ⟨_, _, _, by cbv, by cbv, by cbv⟩
  exact ⟨record, longer, event, decoded, insert, written,
    removeItem_insertItem Template.sample_wellFormed (by decide +kernel) (.decoded decoded) insert⟩

end Record
end ResourceTemplate
