import ResourceTemplate.Proofs.Frames

/-! Which bytes an edit changes. The bytes of two trees that differ in one level differ in those of
this level, and these stand at the same offset in both. -/
namespace ResourceTemplate

/-- The bytes with `part` instead of the `length` ones at `offset`. -/
def Bytes.splice (bytes : Bytes) (offset length : Nat) (part : Bytes) : Bytes :=
  bytes.take offset ++ part ++ bytes.drop (offset + length)

def Swapped (start : Nat) (bytes other : Bytes) (offset : Nat) (old new : Bytes) : Prop :=
  ∃ left right, bytes = left ++ old ++ right ∧ other = left ++ new ++ right ∧
    offset = start + left.length

section Swapped

variable {start offset place : Nat} {bytes other old new part : Bytes}

theorem Swapped.refl (start : Nat) (bytes other : Bytes) :
    Swapped start bytes other start bytes other :=
  ⟨[], [], by simp, by simp, rfl⟩

theorem Swapped.nest {inner made : Bytes} (outer : Swapped start bytes other offset old new)
    (within : Swapped offset old new place inner made) : Swapped start bytes other place inner made := by
  obtain ⟨left, right, rfl, rfl, rfl⟩ := outer
  obtain ⟨before, after, rfl, rfl, rfl⟩ := within
  exact ⟨left ++ before, after ++ right, by simp, by simp, by simp [Nat.add_assoc]⟩

theorem Swapped.append (swapped : Swapped start bytes other offset old new) (rest : Bytes) :
    Swapped start (bytes ++ rest) (other ++ rest) offset old new := by
  obtain ⟨left, right, rfl, rfl, rfl⟩ := swapped
  exact ⟨left, right ++ rest, by simp, by simp, rfl⟩

theorem Swapped.prepend (swapped : Swapped (start + part.length) bytes other offset old new) :
    Swapped start (part ++ bytes) (part ++ other) offset old new := by
  obtain ⟨left, right, rfl, rfl, rfl⟩ := swapped
  exact ⟨part ++ left, right, by simp, by simp, by simp [Nat.add_assoc]⟩

/-- One exchange is made of two. -/
theorem Swapped.through (swapped : Swapped start bytes other offset old new) (part : Bytes) :
    ∃ between, Swapped start bytes between offset old part ∧
      Swapped start between other offset part new := by
  obtain ⟨left, right, rfl, rfl, rfl⟩ := swapped
  exact ⟨_, ⟨left, right, rfl, rfl, rfl⟩, left, right, rfl, rfl, rfl⟩

theorem Swapped.eq (swapped : Swapped start bytes other offset part part) : other = bytes := by
  obtain ⟨left, right, rfl, rfl, _⟩ := swapped
  rfl

theorem Swapped.splice (swapped : Swapped 0 bytes other offset old new) :
    other = bytes.splice offset old.length new := by
  obtain ⟨left, right, rfl, rfl, rfl⟩ := swapped
  simp [Bytes.splice, List.append_assoc]

end Swapped

section Laid

variable {rule : LevelRule} {fields inner : List Field} {field : Field} {nodes result : List Node}
  {node again : Node} {start stop last position : Nat}

/-- A field list of which one node is changed stands for the same bytes around it. -/
theorem Field.LaidAll.swapped (laid : Field.LaidAll rule fields start nodes stop)
    (after : Field.LaidAll rule fields start result last) (declared : fields[position]? = some field)
    (there : nodes[position]? = some node) (found : result[position]? = some again)
    (same : Node.contents result = (Node.contents nodes).set position again.content) :
    again.offset = node.offset ∧
      Swapped start (Field.bytesAll fields nodes) (Field.bytesAll fields result) node.offset
        (field.bytes node) (field.bytes again) := by
  induction fields generalizing start nodes result position with
  | nil => simp at declared
  | cons first fields ih =>
    obtain ⟨head, nodes, rfl, here, follow⟩ := laid
    obtain ⟨top, result, rfl, made, later⟩ := after
    cases position with
    | zero =>
      obtain ⟨rfl, rfl, rfl⟩ : first = field ∧ head = node ∧ top = again := by
        simpa using And.intro declared (And.intro there found)
      have rest : Node.contents result = Node.contents nodes := (List.cons.inj same).2
      refine ⟨made.offset.trans here.offset.symm, ?_⟩
      rw [Field.bytesAll, Field.bytesAll, ← Field.bytesAll_contents fields result, rest,
        Field.bytesAll_contents, here.offset]
      exact (Swapped.refl _ _ _).append _
    | succ position =>
      obtain ⟨alike, rest⟩ := List.cons.inj same
      -- The first node is as long as it was, so that the others begin where they did.
      have bytes : first.bytes top = first.bytes head := by
        rw [← first.bytes_content, alike, first.bytes_content]
      have length := Field.Laid.length_bytes first start head here
      have stops : top.stop = head.stop := by
        rw [made.stop_eq, here.stop_eq, Field.Laid.length_bytes first start top made, bytes, ← length]
      obtain ⟨place, swapped⟩ := ih follow (stops ▸ later) (by simpa using declared)
        (by simpa using there) (by simpa using found) rest
      rw [here.stop_eq, length] at swapped
      refine ⟨place, ?_⟩
      rw [Field.bytesAll, Field.bytesAll, bytes]
      exact swapped.prepend

/-- An item is laid out behind the bytes of those before it. -/
theorem ItemsLaid.between {front back : List Node} {item : Node} {index : Nat}
    (laid : ItemsLaid (Field.LevelLaid rule fields) index start (front ++ [item] ++ back) stop) :
    Field.LevelLaid rule fields item.offset item.children item.stop ∧
      item.offset = start + (front.flatMap fun item => Field.bytesAll fields item.children).length := by
  obtain ⟨_, laid, _⟩ := ItemsLaid.append.mp laid
  obtain ⟨middle, earlier, length, children, rfl, level, _⟩ := ItemsLaid.append.mp laid
  exact ⟨level, earlier.stop_eq⟩

theorem flatMap_of_contents {front first : List Node}
    (same : Node.contents first = Node.contents front) :
    (first.flatMap fun item => Field.bytesAll fields item.children) =
      front.flatMap fun item => Field.bytesAll fields item.children := by
  induction front generalizing first with
  | nil =>
    obtain rfl : first = [] := List.eq_nil_of_length_eq_zero (Node.length_of_contents same)
    rfl
  | cons node front ih =>
    cases first with
    | nil => nomatch same
    | cons other first =>
      obtain ⟨head, tail⟩ := List.cons.inj same
      rw [List.flatMap_cons, List.flatMap_cons, ih tail,
        ← Field.bytesAll_contents fields other.children, Node.children_of_content head,
        Field.bytesAll_contents]

/-- A group of which some items are exchanged stands for the same bytes around them. -/
theorem Field.swapped_group {name : String} {repetition : Repetition} {condition : Option Condition}
    {front old back first made rest : List Node} (before : node.children = front ++ old ++ back)
    (after : again.children = first ++ made ++ rest)
    (head : (first.flatMap fun item => Field.bytesAll inner item.children) =
      front.flatMap fun item => Field.bytesAll inner item.children)
    (tail : (rest.flatMap fun item => Field.bytesAll inner item.children) =
      back.flatMap fun item => Field.bytesAll inner item.children)
    (closing : repetition.closing again.length = repetition.closing node.length) (start : Nat) :
    Swapped start ((Field.group name inner repetition condition).bytes node)
      ((Field.group name inner repetition condition).bytes again)
      (start + (front.flatMap fun item => Field.bytesAll inner item.children).length)
      (old.flatMap fun item => Field.bytesAll inner item.children)
      (made.flatMap fun item => Field.bytesAll inner item.children) := by
  refine ⟨_, (back.flatMap fun item => Field.bytesAll inner item.children) ++
    repetition.closing node.length, ?_, ?_, rfl⟩
  · simp [Field.bytes, before]
  · simp [Field.bytes, after, closing, head, tail]

/-- Where an item is changed, the items are the same on both sides of it. -/
theorem split_of_set {items others : List Node} {index : Nat} {item final : Node}
    (there : items[index]? = some item) (found : others[index]? = some final)
    (same : Node.contents others = (Node.contents items).set index final.content) :
    ∃ front back first rest, items = front ++ [item] ++ back ∧ others = first ++ [final] ++ rest ∧
      Node.contents first = Node.contents front ∧ Node.contents rest = Node.contents back := by
  obtain ⟨front, back, rfl, rfl⟩ := split_at there
  obtain ⟨first, rest, rfl, sized⟩ := split_at found
  have parts : Node.contents first ++ (final.content :: Node.contents rest) =
      Node.contents front ++ (final.content :: Node.contents back) := by
    simpa [Node.contents] using same
  obtain ⟨before, after⟩ := List.append_inj parts (by simpa using sized)
  exact ⟨front, back, first, rest, rfl, rfl, before, (List.cons.inj after).2⟩

end Laid

section Frame

variable {rule : LevelRule} {fields owner : List Field} {nodes result before after : List Node}
  {way : Path} {start stop last : Nat}

/-- The level that an edit reaches begins where it did, and only its bytes are exchanged. -/
theorem Frame.swapped (frame : Frame fields nodes result way owner before after)
    (level : Field.LevelLaid rule fields start nodes stop)
    (again : Field.LevelLaid rule fields start result last) :
    ∃ origin stop last, Field.LevelLaid rule owner origin before stop ∧
      Field.LevelLaid rule owner origin after last ∧
      Swapped start (Field.bytesAll fields nodes) (Field.bytesAll fields result) origin
        (Field.bytesAll owner before) (Field.bytesAll owner after) := by
  induction frame generalizing start stop last with
  | here => exact ⟨start, stop, last, level, again, .refl ..⟩
  | composite _ declared there found same _ ih =>
    obtain ⟨place, outer⟩ := level.2.swapped again.2 declared there found same
    obtain ⟨_, below⟩ := level.2.pair (mem_zip_of_getElem? declared there)
    obtain ⟨_, under⟩ := again.2.pair (mem_zip_of_getElem? declared found)
    obtain ⟨origin, stop, last, level, again, inside⟩ := ih below.level (place ▸ under.level)
    exact ⟨origin, stop, last, level, again, outer.nest inside⟩
  | @item _ _ _ _ _ _ _ _ _ _ _ repetition _ node child item final _ _ declared there found same
      closing counted held kept _ ih =>
    obtain ⟨place, outer⟩ := level.2.swapped again.2 declared there found same
    obtain ⟨_, below⟩ := level.2.pair (mem_zip_of_getElem? declared there)
    obtain ⟨_, under⟩ := again.2.pair (mem_zip_of_getElem? declared found)
    obtain ⟨front, back, first, rest, items, others, head, tail⟩ := split_of_set counted held kept
    obtain ⟨_, laid⟩ := below.items_of_mem (List.mem_of_getElem? counted)
    obtain ⟨_, made⟩ := under.items_of_mem (List.mem_of_getElem? held)
    rw [items] at laid
    rw [others] at made
    obtain ⟨level, offset⟩ := laid.between
    obtain ⟨again, position⟩ := made.between
    rw [flatMap_of_contents head, place, ← offset] at position
    obtain ⟨origin, stop, last, level, again, inside⟩ := ih level (position ▸ again)
    have group := outer.nest (Field.swapped_group items others (flatMap_of_contents head)
      (flatMap_of_contents tail) closing node.offset)
    rw [← offset] at group
    exact ⟨origin, stop, last, level, again, group.nest (by simpa using inside)⟩

/-- What may be written holds levels that may be written. -/
theorem Frame.clean (frame : Frame fields nodes result way owner before after)
    (clean : Field.zeroItems? fields result = none) : Field.zeroItems? owner after = none := by
  induction frame with
  | here => exact clean
  | composite _ declared _ found _ _ ih =>
    exact ih (Field.zeroItem?_of_all clean (mem_zip_of_getElem? declared found))
  | item _ declared _ found _ _ _ held _ _ ih =>
    have clean := Field.zeroItem?_of_all clean (mem_zip_of_getElem? declared found)
    rw [Field.zeroItem?, firstZero_eq_none] at clean
    exact ih (clean _ (List.mem_of_getElem? held)).1

end Frame

namespace Record

theorem get_of_leads {record : Record} {path : Path} {owner : List Field} {route : List Nat}
    {field : Field} {node : Node}
    (leads : Leads record.template record.fields path route owner field node) :
    record.get path = .ok node := by
  rw [get, locate_of_leads leads]
  rfl

/-- An edit that reaches one level of a settled record: its fields are `owner`, and it holds `after`
instead of `before`. -/
structure Reaches (record result : Record) (parent : Path) (owner : List Field)
    (before after : List Node) : Prop where
  formed : record.template.WellFormed
  same : result.template = record.template
  trailing : result.trailing = record.trailing
  laid : record.LaidOut
  again : result.LaidOut
  frame : Frame record.template record.fields result.fields parent owner before after

section Reaches

variable {record result : Record} {parent : Path} {owner : List Field} {before after : List Node}
  (reached : Reaches record result parent owner before after)
include reached

theorem Reaches.get {path : Path} {route : List Nat} {own : List Field} {field : Field} {node : Node}
    (leads : Leads owner before path route own field node) :
    record.get (parent ++ path) = .ok node := by
  obtain ⟨_, leads⟩ := reached.frame.leads_below leads
  exact get_of_leads leads

theorem Reaches.get_result {path : Path} {route : List Nat} {own : List Field} {field : Field}
    {node : Node} (leads : Leads owner after path route own field node) :
    result.get (parent ++ path) = .ok node := by
  obtain ⟨_, leads⟩ := reached.frame.symm.leads_below leads
  rw [← reached.same] at leads
  exact get_of_leads leads

/-- The level begins at the same offset before and after, and in the encodings its bytes alone are
exchanged. -/
theorem Reaches.swapped : ∃ origin stop last, Field.LevelLaid Settled owner origin before stop ∧
    Field.LevelLaid Settled owner origin after last ∧
    ∀ bytes edited, record.encode = .ok bytes → result.encode = .ok edited →
      Swapped 0 bytes edited origin (Field.bytesAll owner before) (Field.bytesAll owner after) := by
  obtain ⟨formed, same, trailing, laid, again, frame⟩ := reached
  have level : Field.LevelLaid Settled record.template 0 result.fields result.laidOut :=
    ⟨same ▸ again.kept, same ▸ again.laid⟩
  obtain ⟨origin, stop, last, first, final, swapped⟩ := frame.swapped ⟨laid.kept, laid.laid⟩ level
  refine ⟨origin, stop, last, first, final, fun bytes edited encoded written => ?_⟩
  rw [laid.encode_eq formed, written_eq_ok] at encoded
  rw [again.encode_eq (same ▸ formed), written_eq_ok] at written
  rw [← encoded.2, ← written.2, Record.bytes, Record.bytes, same, trailing]
  exact swapped.append _

/-- A level of a record that can be written has no forbidden item. -/
theorem Reaches.clean {edited : Bytes} (written : result.encode = .ok edited) :
    Field.zeroItems? owner after = none := by
  obtain ⟨formed, same, _, _, again, frame⟩ := reached
  rw [again.encode_eq (same ▸ formed), written_eq_ok, same] at written
  exact frame.clean written.1

end Reaches

end Record
end ResourceTemplate
