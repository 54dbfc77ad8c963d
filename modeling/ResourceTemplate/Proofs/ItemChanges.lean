import ResourceTemplate.Proofs.ValueChanges

/-! What becomes of a record when an item is inserted or removed. The other items of the group keep
their contents and their order, and the bytes of the item are put in or taken out where it stands. All
other bytes stay, but for those of the count. -/
namespace ResourceTemplate

/-- Of a level that is to hold `after` instead of `before`, nothing but the count of a group has been
set in `mid`. -/
def CountSet (owner : List Field) (repetition : Repetition) (items : Nat)
    (before mid after : List Node) : Prop :=
  match repetition with
  | .counted countField zeroBased => ∃ position type span place old held,
    owner[position]? = some (.scalar countField type) ∧
    before[position]? = some (.scalar countField span old) ∧
    after[position]? = some (.scalar countField place held) ∧ type.Holds held ∧
    held.value.integer? = some (countValue zeroBased items) ∧
    mid = before.set position (.scalar countField span held)
  | _ => mid = before

theorem insertIdx_append_length {α : Type} (front back : List α) (x : α) :
    (front ++ back).insertIdx front.length x = front ++ x :: back := by
  induction front with
  | nil => simp
  | cons y front ih => simp [ih]

/-- A list is cut where an element is inserted. -/
theorem insertIdx_cut {α : Type} {xs : List α} {index : Nat} (inside : index ≤ xs.length) (x : α) :
    ∃ front back, xs = front ++ [] ++ back ∧ front.length = index ∧
      xs.insertIdx index x = front ++ [x] ++ back := by
  have sized := List.length_take_of_le inside
  refine ⟨xs.take index, xs.drop index, by simp, sized, ?_⟩
  have inserted := insertIdx_append_length (xs.take index) (xs.drop index) x
  rw [sized, List.take_append_drop] at inserted
  simpa using inserted

theorem Field.Laid.numbered_front {rule : LevelRule} {name : String} {inner : List Field}
    {repetition : Repetition} {condition : Option Condition} {start : Nat} {node : Node}
    (laid : (Field.group name inner repetition condition).Laid rule start node)
    {front back : List Node} (split : node.children = front ++ back) :
    numbered 0 front = front := by
  rcases laid.items with ⟨empty, _⟩ | ⟨_, laid, _⟩
  · obtain ⟨rfl, _⟩ := List.append_eq_nil_iff.mp (split.symm.trans empty)
    rfl
  · rw [split] at laid
    obtain ⟨_, earlier, _⟩ := ItemsLaid.append.mp laid
    exact earlier.numbered_eq

theorem flatMap_numbered {fields : List Field} (index : Nat) (nodes : List Node) :
    ((numbered index nodes).flatMap fun item => Field.bytesAll fields item.children) =
      nodes.flatMap fun item => Field.bytesAll fields item.children := by
  induction nodes generalizing index with
  | nil => rfl
  | cons node nodes ih =>
    rw [numbered, List.flatMap_cons, List.flatMap_cons, ih, Node.children_branch]

theorem ScalarType.ne_pascalString {type : ScalarType} {held : Scalar} {n : Int}
    (holds : type.Holds held) (integer : held.value.integer? = some n) : type ≠ .pascalString := by
  rintro rfl
  obtain ⟨bytes, same, _⟩ := holds.value
  rw [same] at integer
  contradiction

section Level

variable {owner inner : List Field} {before after : List Node} {position origin stop last : Nat}
  {name : String} {repetition : Repetition} {condition : Option Condition} {node : Node}
  {change : List Node → List Node}
  (resettled : Resettled owner before position (node.mapChildren change) after)
  (declared : owner[position]? = some (.group name inner repetition condition))
  (there : before[position]? = some node) (present : verdict? condition before = some true)
  (level : Field.LevelLaid Settled owner origin before stop)
  (final : Field.LevelLaid Settled owner origin after last)
include resettled declared there

/-- A change of the items of a group changes the group and its count alone. -/
theorem Resettled.beside {other : Nat} {field : Field} {child : Node} (apart : other ≠ position)
    (fielded : owner[other]? = some field) (was : before[other]? = some child) :
    ∃ again, after[other]? = some again ∧ (again.content = child.content ∨
      ∃ countField zeroBased, repetition = .counted countField zeroBased ∧
        field.name = countField) := by
  obtain ⟨again, found, alike | ⟨countField, _, rfl, calls⟩⟩ :=
    resettled.elsewhere apart fielded was (verdict?_set there change _)
  · exact ⟨again, found, .inl alike⟩
  · obtain ⟨caller, _, _, zeroBased, _, _, _, group, _, _, holds, changed⟩ := calls
    obtain ⟨rfl, _⟩ := changed ((verdict?_set there change _).symm.trans holds)
    obtain ⟨_, _, repeated, _⟩ := Field.group.inj (Option.some.inj (declared.symm.trans group))
    exact ⟨again, found, .inr ⟨countField, zeroBased, repeated, rfl⟩⟩

include present level final

/-- The count field of the group is set to its number of items, and then the group is changed. -/
theorem Resettled.between : ∃ again mid, after[position]? = some again ∧
    CountSet owner repetition again.children.length before mid after ∧
    Field.LaidAll Settled owner origin mid stop ∧ mid[position]? = some node ∧
    Node.contents after = (Node.contents mid).set position again.content := by
  obtain ⟨again, _, _, _, found, _⟩ := resettled.here declared there nofun
  cases repetition with
  | fixed | untilEnd | zeroTerminated =>
    exact ⟨again, before, found, rfl, level.2, there,
      resettled.contents_eq declared there (fun _ _ => verdict?_set there change _) found nofun⟩
  | counted countField zeroBased =>
    have count := resettled.counted declared found ((verdict?_set there change _).trans present)
    obtain ⟨value, sibling, integer⟩ := Option.bind_eq_some_iff.mp count
    obtain ⟨counter, type, _, held, named, fielded, holder, holds, rfl⟩ :=
      scalar_of_sibling resettled.checked final.2 sibling
    have apart : counter ≠ position := by
      rintro rfl
      nomatch declared.symm.trans fielded
    obtain ⟨child, was⟩ := level.2.getElem? fielded
    obtain ⟨_, old, rfl, _⟩ := level.2.pair (mem_zip_of_getElem? fielded was)
    obtain ⟨_, _, same, _⟩ := final.2.pair (mem_zip_of_getElem? fielded holder)
    obtain ⟨_, rfl, rfl⟩ := Node.scalar.inj same
    have sized := ScalarType.ne_pascalString holds integer
    have recounted := Recounted.set level.2.names fielded was
      (.inr ⟨countField, type, _, old, held, _, rfl, sized, List.mem_singleton_self _, rfl, rfl, holds,
        integer⟩)
    refine ⟨again, _, found,
      ⟨counter, type, _, _, old, held, fielded, was, holder, holds, integer, rfl⟩,
      recounted.laid level.2, by rw [List.getElem?_set_ne apart, there], ?_⟩
    -- The count alone is called for, and no other field has its name.
    apply Node.contents_eq_set (by rw [resettled.length_eq, List.length_set]) found
    intro other child away second
    by_cases here : other = counter
    · subst here
      rw [List.getElem?_set_self (List.getElem?_eq_some_iff.mp was).1] at second
      obtain rfl := Option.some.inj second
      refine ⟨_, holder, ?_⟩
      rw [Node.content, Node.content, ScalarType.encodedLength_eq sized,
        ScalarType.encodedLength_eq sized]
    · rw [List.getElem?_set_ne (Ne.symm here)] at second
      have among := List.getElem?_eq_getElem
        (level.2.length_eq ▸ (List.getElem?_eq_some_iff.mp second).1)
      obtain ⟨last, kept, alike | ⟨_, _, repeated, same⟩⟩ :=
        resettled.beside declared there away among second
      · exact ⟨last, kept, alike⟩
      · obtain ⟨rfl, _⟩ := Repetition.counted.inj repeated
        have again := Template.position?_eq_some (Template.names_nodup resettled.checked) among
        rw [same, named] at again
        exact absurd (Option.some.inj again).symm here

end Level

namespace Record

/-- The bytes with the count of a group set, if it has a count field, for a number of items. -/
def CountWritten (record result : Record) (parent : Path) (owner : List Field) (repetition : Repetition)
    (items : Nat) (bytes counted : Bytes) : Prop :=
  match repetition with
  | .counted countField zeroBased => ∃ type counter held part,
    .scalar countField type ∈ owner ∧ record.get (parent.child countField) = .ok counter ∧
    result.held? (parent.child countField) = some held ∧
    held.value.integer? = some (countValue zeroBased items) ∧
    encodeScalar type held none (parent.child countField) counter.offset = .ok part ∧
    counted = bytes.splice counter.offset counter.length part
  | _ => counted = bytes

section Group

variable {record result : Record} {parent : Path} {owner inner : List Field} {before after : List Node}
  {position : Nat} {name : String} {repetition : Repetition} {condition : Option Condition}
  {node : Node} {change : List Node → List Node}
  (reached : Reaches record result parent owner before after)
  (resettled : Resettled owner before position (node.mapChildren change) after)
  (declared : owner[position]? = some (.group name inner repetition condition))
  (there : before[position]? = some node) (present : verdict? condition before = some true)
include reached

theorem Reaches.countWritten {mid : List Node} {items origin stop last : Nat}
    (checked : Template.check owner = .ok ())
    (set : CountSet owner repetition items before mid after)
    (level : Field.LevelLaid Settled owner origin before stop)
    (laid : Field.LaidAll Settled owner origin mid last) {bytes counted : Bytes}
    (swapped : Swapped 0 bytes counted origin (Field.bytesAll owner before) (Field.bytesAll owner mid)) :
    CountWritten record result parent owner repetition items bytes counted := by
  cases repetition with
  | fixed | untilEnd | zeroTerminated =>
    obtain rfl : mid = before := set
    exact swapped.eq
  | counted countField zeroBased =>
    obtain ⟨counter, type, _, _, old, held, fielded, was, holder, holds, integer, rfl⟩ := set
    have named : Template.position? owner countField = some counter :=
      Template.position?_eq_some (Template.names_nodup checked) fielded
    have inside := (List.getElem?_eq_some_iff.mp was).1
    obtain ⟨_, exchanged⟩ := level.2.swapped laid fielded was (List.getElem?_set_self inside)
      (by rw [Node.contents_eq, Node.contents_eq, List.map_set])
    obtain ⟨_, described⟩ := level.2.pair (mem_zip_of_getElem? fielded was)
    refine ⟨type, _, held, type.stored held, List.mem_of_getElem? fielded,
      reached.get (.here named fielded was), reached.held?_result (.here named fielded holder), integer,
      ?_, ?_⟩
    · apply ScalarType.encodeScalar_eq holds
      simp
    · rw [Field.Laid.length_bytes _ _ _ described]
      exact (swapped.nest exchanged).splice

include resettled declared there present

/-- Items of a group that asks for no fixed number are exchanged, and the items around them are kept.
The count is written before the bytes of the items. -/
theorem Reaches.regrouped {front old made back : List Node} (free : ∀ count, repetition ≠ .fixed count)
    (items : node.children = front ++ old ++ back)
    (changed : change node.children = front ++ made ++ back) :
    ∃ again first items rest, result.get (parent.child name) = .ok again ∧
      again.children = first ++ items ++ rest ∧ Exchanged inner front made back first items rest ∧
      (Field.group name inner repetition condition).Laid Settled node.offset node ∧
      (Field.group name inner repetition condition).Laid Settled node.offset again ∧
      ∀ bytes edited, record.encode = .ok bytes → result.encode = .ok edited →
        (Field.group name inner repetition condition).zeroItem? again = none ∧
        ∃ counted,
          CountWritten record result parent owner repetition again.children.length bytes counted ∧
          Swapped 0 counted edited
            (node.offset + (front.flatMap fun item => Field.bytesAll inner item.children).length)
            (old.flatMap fun item => Field.bytesAll inner item.children)
            (items.flatMap fun item => Field.bytesAll inner item.children) := by
  obtain ⟨origin, stop, last, level, final, outer⟩ := reached.swapped
  obtain ⟨again, mid, found, set, laid, kept, same⟩ :=
    resettled.between declared there present level final
  obtain ⟨_, first, placed, rest, held, split, exchanged, closing⟩ :=
    resettled.group declared there present items changed
      (fun count fixed => absurd fixed (free count))
  obtain rfl := Option.some.inj (found.symm.trans held)
  obtain ⟨place, swapped⟩ := laid.swapped final.2 declared kept found same
  obtain ⟨_, below⟩ := level.2.pair (mem_zip_of_getElem? declared there)
  obtain ⟨_, under⟩ := final.2.pair (mem_zip_of_getElem? declared found)
  have named : Template.position? owner name = some position :=
    Template.position?_eq_some (Template.names_nodup resettled.checked) declared
  refine ⟨again, first, placed, rest, reached.get_result (.here named declared found), split,
    exchanged, below.offset ▸ below, place ▸ under.offset ▸ under,
    fun bytes edited encoded written => ?_⟩
  have clean := Field.zeroItem?_of_all (reached.clean written) (mem_zip_of_getElem? declared found)
  obtain ⟨counted, count, rest⟩ :=
    (outer bytes edited encoded written).through (Field.bytesAll owner mid)
  refine ⟨clean, counted, reached.countWritten resettled.checked set level laid count,
    (rest.nest swapped).nest (Field.swapped_group items split
      (flatMap_of_contents exchanged.head) ?_ closing node.offset)⟩
  rw [flatMap_of_contents exchanged.tail, flatMap_numbered]

end Group

/-- A group can be resized when it is present, and asks for no fixed number of items. -/
theorem resizableGroup_eq_ok {record : Record} {place : Place} {path : Path} {fields inner : List Field}
    {name : String} {repetition : Repetition} {condition : Option Condition} {siblings : List Node}
    (declared : place.field = some (.group name inner repetition condition))
    (above : (nodeAt? record.root place.route.dropLast).map Node.children = some siblings) :
    record.resizableGroup place path = .ok fields ↔
      fields = inner ∧ (∀ count, repetition ≠ .fixed count) ∧
        verdict? condition siblings = some true := by
  unfold resizableGroup
  rw [declared, above]
  constructor
  · intro resizable
    cases repetition with
    | fixed => exact absurd resizable throw_ne_ok
    | counted | untilEnd | zeroTerminated =>
      cases condition with
      | none => exact ⟨(pure_eq_ok.mp resizable).symm, by rintro _ ⟨⟩, rfl⟩
      | some condition =>
        obtain ⟨value, found, resizable⟩ := bind_eq_ok.mp resizable
        split at resizable
        · exact absurd resizable throw_ne_ok
        · next holds =>
          have known : sibling? siblings condition.field = some value := siblingValue_eq_ok.mp found
          exact ⟨(pure_eq_ok.mp resizable).symm, by rintro _ ⟨⟩, by simpa [verdict?, known] using holds⟩
  · rintro ⟨rfl, free, present⟩
    cases repetition with
    | fixed count => exact absurd rfl (free count)
    | counted | untilEnd | zeroTerminated =>
      cases condition with
      | none => rfl
      | some condition =>
        obtain ⟨value, known, holds⟩ := Option.map_eq_some_iff.mp present
        have found : siblingValue siblings condition.field path 0 = .ok value :=
          siblingValue_eq_ok.mpr known
        simp [found, holds, ok_bind, pure, Except.pure]

/-- A change of items that is done reaches the level of the group, which is present. -/
theorem reaches_of_items {record result : Record} (formed : record.template.WellFormed)
    (laid : record.LaidOut) (again : result.LaidOut) {path : Path} {place : Place} {inner : List Field}
    {change : List Node → List Node} (located : record.locate path = .ok place)
    (resizable : record.resizableGroup place path = .ok inner)
    (kept : (∀ item ∈ place.node.children, Field.ItemShaped inner item) →
      ∀ item ∈ change place.node.children, Field.ItemShaped inner item)
    (committed : record.commit (updateAt (Node.mapChildren change) place.route record.fields) =
      .ok result) :
    ∃ parent before after position name repetition condition, path = parent.child name ∧
      place.field = some (.group name inner repetition condition) ∧
      (∀ count, repetition ≠ .fixed count) ∧ verdict? condition before = some true ∧
      place.owner[position]? = some (.group name inner repetition condition) ∧
      before[position]? = some place.node ∧
      Reaches record result parent place.owner before after ∧
      Resettled place.owner before position (place.node.mapChildren change) after := by
  obtain ⟨name, repetition, condition, declared⟩ := of_resizableGroup resizable
  obtain ⟨⟨nodes, stop⟩, settled, made⟩ := bind_eq_ok.mp committed
  obtain rfl := pure_eq_ok.mp made
  have shaped (group : (Field.group name inner repetition condition).Shaped place.node) :
      (Field.group name inner repetition condition).Shaped (place.node.mapChildren change) := by
    obtain ⟨span, items, same, shaped⟩ := group
    rw [same] at kept ⊢
    exact ⟨span, change items, rfl, kept shaped⟩
  have steady (siblings : List Node) (position : Nat) (there : siblings[position]? = some place.node) :
      ∀ countField ∈ place.owner.filterMap Field.countField?,
        siblingInteger? (siblings.set position (place.node.mapChildren change)) countField =
          siblingInteger? siblings countField := by
    intro countField _
    rw [siblingInteger?, sibling?_congr (face_set there (Node.face_mapChildren _ _)), siblingInteger?]
  obtain ⟨way, other, position, before, after, same, frame, named, fielded, there, resettled, above⟩ :=
    (leads_of_locate located declared).frame shaped steady formed.1 formed.2 ⟨laid.kept, laid.laid⟩
      settled
  obtain ⟨_, same', rfl⟩ := field_of_position named
  obtain rfl := Option.some.inj (fielded.symm.trans same')
  obtain ⟨_, free, present⟩ := (resizableGroup_eq_ok declared (above record.root rfl)).mp resizable
  exact ⟨way, before, after, position, name, repetition, condition, same, declared, free, present,
    fielded, there, ⟨formed, rfl, rfl, laid, again, frame⟩, resettled⟩

/-- A path leads to a group, one of the fields `owner` at `parent`, whose items have the fields
`inner`. The group is `node` before an edit and `again` after it. -/
structure GroupEdited (record result : Record) (path parent : Path) (owner inner : List Field)
    (repetition : Repetition) (node again : Node) : Prop where
  located : ∃ name condition route, path = parent.child name ∧ record.locate path =
    .ok ⟨route, node, some (.group name inner repetition condition), owner⟩
  edited : result.get path = .ok again
  trailing : result.trailing = record.trailing

/-- A default item is inserted, and so are its bytes where it stands. -/
structure ItemInserted (record result : Record) (path parent : Path) (owner inner : List Field)
    (repetition : Repetition) (index : Nat) (node again item : Node) : Prop
    extends GroupEdited record result path parent owner inner repetition node again where
  there : again.children[index]? = some item
  fresh : Fresh inner item
  items : Node.contents again.children =
    Node.contents (numbered 0 (node.children.insertIdx index item))
  encoded : ∀ bytes edited, record.encode = .ok bytes → result.encode = .ok edited →
    ∃ counted part,
      CountWritten record result parent owner repetition again.children.length bytes counted ∧
      encodeLevel inner item.children (path.index index) item.offset = .ok part ∧
      edited = counted.splice item.offset 0 part

/-- An item is removed, and so are its bytes. -/
structure ItemRemoved (record result : Record) (path parent : Path) (owner inner : List Field)
    (repetition : Repetition) (index : Nat) (node again item : Node) : Prop
    extends GroupEdited record result path parent owner inner repetition node again where
  there : node.children[index]? = some item
  items : Node.contents again.children = Node.contents (numbered 0 (node.children.eraseIdx index))
  encoded : ∀ bytes edited, record.encode = .ok bytes → result.encode = .ok edited →
    ∃ counted,
      CountWritten record result parent owner repetition again.children.length bytes counted ∧
      edited = counted.splice item.offset item.length []

section Spliced

variable {record result : Record} {path : Path} {index : Nat} {event : Event}
  (formed : record.template.WellFormed) (laid : record.LaidOut) (again : result.LaidOut)
include formed laid again

theorem inserted_of_insertItem (done : record.insertItem path index = .ok (event, result)) :
    ∃ parent owner inner repetition node again item,
      ItemInserted record result path parent owner inner repetition index node again item := by
  obtain ⟨⟨route, node, field, owner⟩, inner, located, resizable, inside, committed, _⟩ :=
    insertItem_eq_ok.mp done
  obtain ⟨parent, before, after, position, name, repetition, condition, rfl, declared, free, present,
    fielded, there, reached, resettled⟩ := reaches_of_items formed laid again located resizable
    (shaped_insertIdx inside) committed
  obtain rfl : field = some (.group name inner repetition condition) := declared
  obtain ⟨front, back, split, rfl, changed⟩ := insertIdx_cut inside (defaultItem inner index)
  obtain ⟨again, first, items, rest, got, made, ⟨head, ⟨_, _, _, settled⟩, tail⟩, below, under,
    bytes⟩ := reached.regrouped resettled fielded there present free split changed
  obtain ⟨item, _, alone, last, rfl⟩ := settleItems_cons.mp settled
  obtain ⟨rfl, _⟩ := Prod.mk.inj (pure_eq_ok.mp last)
  have sized : first.length = front.length := Node.length_of_contents head
  have counted : again.children[front.length]? = some item := by
    rw [made, ← sized]
    simp
  have formed := resettled.nested.member (List.mem_of_getElem? fielded)
  have held := List.mem_of_getElem? counted
  obtain ⟨_, items⟩ := under.items_of_mem held
  rw [made] at items
  obtain ⟨level, offset⟩ := items.between
  rw [under.offset, flatMap_of_contents head] at offset
  refine ⟨parent, owner, inner, repetition, node, again, item, {
    located := ⟨name, condition, route, rfl, located⟩
    edited := got
    trailing := reached.trailing
    there := counted
    fresh := fresh_of_settleItem alone
    items := ?_
    encoded := ?_ }⟩
  · obtain ⟨children, stop, _, rfl⟩ := (settleItem_eq_ok rfl).mp alone
    rw [made, split, List.append_nil, insertIdx_append_length, numbered_append,
      below.numbered_front (by rw [split, List.append_assoc]), Nat.zero_add, numbered]
    simp only [Node.contents_append, Node.contents, head, tail, List.append_assoc, List.length_singleton]
    rfl
  · intro old new encoded written
    obtain ⟨clean, counted, count, swapped⟩ := bytes old new encoded written
    rw [Field.zeroItem?, firstZero_eq_none] at clean
    refine ⟨counted, Field.bytesAll inner item.children, count, ?_, ?_⟩
    · rw [encodeLevel_eq formed.1 formed.2 level, (clean item held).1]
      rfl
    · rw [offset]
      simpa using swapped.splice

/-- An item that is removed is one of the group, and the others are kept. -/
theorem removed_of_removeItem (done : record.removeItem path index = .ok (event, result)) :
    ∃ parent owner inner repetition node again item,
      ItemRemoved record result path parent owner inner repetition index node again item := by
  obtain ⟨⟨route, node, field, owner⟩, inner, located, resizable, inside, committed, _⟩ :=
    removeItem_eq_ok.mp done
  obtain ⟨parent, before, after, position, name, repetition, condition, rfl, declared, free, present,
    fielded, there, reached, resettled⟩ := reaches_of_items formed laid again located resizable
    (fun shaped item member => shaped item (List.mem_of_mem_eraseIdx member)) committed
  obtain rfl : field = some (.group name inner repetition condition) := declared
  obtain ⟨item, counted⟩ : ∃ item, node.children[index]? = some item :=
    ⟨_, List.getElem?_eq_getElem inside⟩
  obtain ⟨front, back, split, rfl⟩ := split_at counted
  have changed : node.children.eraseIdx front.length = front ++ [] ++ back := by
    rw [split, List.append_assoc, List.eraseIdx_append_of_length_le le_rfl]
    simp
  obtain ⟨again, first, items, rest, got, made, ⟨head, ⟨_, _, _, settled⟩, tail⟩, below, under,
    bytes⟩ := reached.regrouped resettled fielded there present free split changed
  obtain ⟨rfl, _⟩ := Prod.mk.inj (pure_eq_ok.mp settled)
  obtain ⟨_, items⟩ := below.items_of_mem (List.mem_of_getElem? counted)
  rw [split] at items
  obtain ⟨level, offset⟩ := items.between
  rw [below.offset] at offset
  have length : item.length = (Field.bytesAll inner item.children).length :=
    Nat.add_left_cancel (Field.LaidAll.length_bytes _ _ _ _ level.2)
  refine ⟨parent, owner, inner, repetition, node, again, item, {
    located := ⟨name, condition, route, rfl, located⟩
    edited := got
    trailing := reached.trailing
    there := counted
    items := ?_
    encoded := ?_ }⟩
  · rw [changed, made, numbered_append, List.append_nil, List.append_nil,
      below.numbered_front (by rw [split, List.append_assoc]), Nat.zero_add]
    simp [head, tail]
  · intro old new encoded written
    obtain ⟨_, counted, count, swapped⟩ := bytes old new encoded written
    refine ⟨counted, count, ?_⟩
    rw [offset, length]
    simpa using swapped.splice

end Spliced

/-- Inserting and removing items is a splice, as long as no condition tests a count. The other items
keep their contents and their order, an inserted one is a default item, and the encoding changes in the
bytes of the item and of the count alone. -/
theorem items_spliced {template : Template} (formed : template.WellFormed)
    (untested : template.Everywhere Template.CountsUntested) {settings : Settings} {record : Record}
    (reachable : Reachable template settings record) (path : Path) (index : Nat) :
    (∀ event result, record.insertItem path index = .ok (event, result) →
      ∃ parent owner inner repetition node again item,
        ItemInserted record result path parent owner inner repetition index node again item) ∧
    ∀ event result, record.removeItem path index = .ok (event, result) →
      ∃ parent owner inner repetition node again item,
        ItemRemoved record result path parent owner inner repetition index node again item := by
  obtain ⟨rfl, laid⟩ := reachable.laid formed
  have settled (edit : Edit) (event : Event) (result : Record)
      (done : record.apply settings edit = .ok (event, result)) : result.LaidOut := by
    obtain ⟨same, _, after⟩ := laid_of_apply formed laid done
    exact after.laidOut (same ▸ untested)
  have laid := laid.laidOut untested
  constructor
  · intro event result done
    exact inserted_of_insertItem formed laid (settled (.insertItem path index) event result done) done
  · intro event result done
    exact removed_of_removeItem formed laid (settled (.removeItem path index) event result done) done

/-- A point is inserted behind the first, and the first one is removed. -/
theorem items_spliced_sample : ∃ record longer shorter inserted removed,
    decode Template.sample {} [1, 0, 0, 1, 0, 2, 0, 3, 97, 98, 1, 65, 0, 7, 8] = .ok record ∧
      record.insertItem [.name "points"] 1 = .ok (inserted, longer) ∧
      longer.encode = .ok [1, 1, 0, 1, 0, 2, 0, 0, 0, 0, 0, 3, 97, 98, 1, 65, 0, 7, 8] ∧
      (∃ parent owner inner repetition node again item, ItemInserted record longer [.name "points"]
        parent owner inner repetition 1 node again item) ∧
      record.removeItem [.name "points"] 0 = .ok (removed, shorter) ∧
      shorter.encode = .ok [1, 255, 0, 3, 97, 98, 1, 65, 0, 7, 8] ∧
      ∃ parent owner inner repetition node again item, ItemRemoved record shorter [.name "points"]
        parent owner inner repetition 0 node again item := by
  obtain ⟨record, longer, shorter, inserted, removed, decoded, insert, more, remove, less⟩ :
      ∃ record longer shorter inserted removed,
        decode Template.sample {} [1, 0, 0, 1, 0, 2, 0, 3, 97, 98, 1, 65, 0, 7, 8] = .ok record ∧
          record.insertItem [.name "points"] 1 = .ok (inserted, longer) ∧
          longer.encode = .ok [1, 1, 0, 1, 0, 2, 0, 0, 0, 0, 0, 3, 97, 98, 1, 65, 0, 7, 8] ∧
          record.removeItem [.name "points"] 0 = .ok (removed, shorter) ∧
          shorter.encode = .ok [1, 255, 0, 3, 97, 98, 1, 65, 0, 7, 8] :=
    ⟨_, _, _, _, _, by cbv, by cbv, by cbv, by cbv, by cbv⟩
  have spliced (path : Path) (index : Nat) :=
    items_spliced Template.sample_wellFormed (by decide +kernel) (.decoded decoded) path index
  exact ⟨record, longer, shorter, inserted, removed, decoded, insert, more,
    (spliced _ 1).1 _ _ insert, remove, less, (spliced _ 0).2 _ _ remove⟩

end Record
end ResourceTemplate
