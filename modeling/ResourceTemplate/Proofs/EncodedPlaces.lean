import ResourceTemplate.Proofs.Runs

/-! Where the bytes of a node stand. In the bytes of an encoded record every node writes what
stands at its offset over its length, and nodes follow one another without gap or overlap. -/
namespace ResourceTemplate

/-- The bytes from `offset` on, as many as `length` if there are so many. -/
def Bytes.slice (bytes : Bytes) (offset length : Nat) : Bytes := (bytes.drop offset).take length

def Abut : (start : Nat) → List Node → (stop : Nat) → Prop
  | start, [], stop => stop = start
  | start, node :: nodes, stop => node.offset = start ∧ Abut node.stop nodes stop

section Stands

variable {bytes first last : Bytes} {offset length : Nat}

/-- Some bytes stand at an offset. -/
def Bytes.Stands (bytes : Bytes) (offset : Nat) (part : Bytes) : Prop := part <+: bytes.drop offset

theorem Bytes.Stands.slice (stands : bytes.Stands offset first) (sized : first.length = length) :
    bytes.slice offset length = first := by
  rw [Bytes.slice, ← sized]
  exact (List.prefix_iff_eq_take.mp stands).symm

theorem Bytes.Stands.left (stands : bytes.Stands offset (first ++ last)) : bytes.Stands offset first :=
  (List.prefix_append first last).trans stands

theorem Bytes.Stands.right (stands : bytes.Stands offset (first ++ last)) :
    bytes.Stands (offset + first.length) last := by
  obtain ⟨rest, same⟩ := stands
  refine ⟨rest, ?_⟩
  rw [← List.drop_drop, ← same, List.append_assoc, List.drop_left]

end Stands

section Laid

variable {rule : LevelRule} {bytes : Bytes} {field : Field} {fields : List Field} {node : Node}
  {nodes : List Node} {start stop : Nat}

theorem Field.LaidAll.abut (laid : Field.LaidAll rule fields start nodes stop) :
    Abut start nodes stop := by
  induction fields generalizing start nodes with
  | nil =>
    obtain ⟨rfl, rfl⟩ := laid
    rfl
  | cons field fields ih =>
    obtain ⟨node, rest, rfl, first, follow⟩ := laid
    exact ⟨first.offset, ih follow⟩

theorem ItemsLaid.abut {level : Nat → List Node → Nat → Prop} {index : Nat}
    (laid : ItemsLaid level index start nodes stop) : Abut start nodes stop := by
  induction nodes generalizing index start with
  | nil => exact laid
  | cons node nodes ih =>
    obtain ⟨length, children, rfl, _, follow⟩ := laid
    exact ⟨rfl, ih follow⟩

/-- Where a field list stands, each of its nodes does. -/
theorem Field.LaidAll.stands (laid : Field.LaidAll rule fields start nodes stop)
    (stands : bytes.Stands start (Field.bytesAll fields nodes))
    (member : (field, node) ∈ fields.zip nodes) :
    field.Laid rule node.offset node ∧ bytes.Stands node.offset (field.bytes node) := by
  induction fields generalizing start nodes with
  | nil => simp at member
  | cons first fields ih =>
    obtain ⟨head, rest, rfl, laid, follow⟩ := laid
    rw [Field.bytesAll] at stands
    rcases List.mem_cons.mp member with same | member
    · obtain ⟨rfl, rfl⟩ := Prod.mk.inj same
      rw [laid.offset]
      exact ⟨laid, stands.left⟩
    · have rest := stands.right
      rw [← Field.Laid.length_bytes first start head laid, ← laid.stop_eq] at rest
      exact ih follow rest member

/-- Where a list of items stands, each of them does. -/
theorem ItemsLaid.stands {index : Nat}
    (laid : ItemsLaid (Field.LevelLaid rule fields) index start nodes stop)
    (stands : bytes.Stands start (nodes.flatMap fun item => Field.bytesAll fields item.children))
    (member : node ∈ nodes) :
    Field.LevelLaid rule fields node.offset node.children node.stop ∧
      bytes.Stands node.offset (Field.bytesAll fields node.children) := by
  induction nodes generalizing index start with
  | nil => nomatch member
  | cons head nodes ih =>
    obtain ⟨length, children, rfl, level, follow⟩ := laid
    rw [List.flatMap_cons] at stands
    rcases List.mem_cons.mp member with rfl | member
    · exact ⟨level, stands.left⟩
    · have sized := Field.LaidAll.length_bytes fields start children (start + length) level.2
      have rest := stands.right
      rw [Node.children_branch, ← sized] at rest
      exact ih follow rest member

end Laid

theorem Field.zeroItem?_of_all {field : Field} {fields : List Field} {node : Node} {nodes : List Node}
    (clean : Field.zeroItems? fields nodes = none) (member : (field, node) ∈ fields.zip nodes) :
    field.zeroItem? node = none := by
  induction fields generalizing nodes with
  | nil => simp at member
  | cons first fields ih =>
    cases nodes with
    | nil => simp at member
    | cons head nodes =>
      rw [Field.zeroItems?, Option.or_eq_none_iff, Option.map_eq_none_iff] at clean
      rcases List.mem_cons.mp member with same | member
      · obtain ⟨rfl, rfl⟩ := Prod.mk.inj same
        exact clean.1
      · exact ih clean.2 member

namespace Record

/-- The field lists of a record with the nodes that hold them: the root, every composite and
every item. -/
inductive Level (record : Record) : (fields : List Field) → (parent : Node) → Path → Prop where
  | root : Level record record.template record.root Path.root
  | composite {fields inner : List Field} {parent node : Node} {path : Path} {name : String} :
    Level record fields parent path → (.composite name inner, node) ∈ fields.zip parent.children →
      Level record inner node (path.child name)
  | item {fields inner : List Field} {parent node item : Node} {path : Path} {name : String}
      {repetition : Repetition} {condition : Option Condition} {index : Nat} :
    Level record fields parent path →
      (.group name inner repetition condition, node) ∈ fields.zip parent.children →
      node.children[index]? = some item → Level record inner item ((path.child name).index index)

structure Standing (bytes : Bytes) (fields : List Field) (parent : Node) : Prop where
  checked : Template.check fields = .ok ()
  nested : Field.AllNested (·.check = .ok ()) fields
  level : Field.LevelLaid Settled fields parent.offset parent.children parent.stop
  clean : Field.zeroItems? fields parent.children = none
  stands : bytes.Stands parent.offset (Field.bytesAll fields parent.children)

theorem Level.standing {record : Record} {bytes : Bytes} (formed : record.template.WellFormed)
    (laid : record.LaidOut) (encoded : record.encode = .ok bytes) {fields : List Field}
    {parent : Node} {path : Path} (level : record.Level fields parent path) :
    Standing bytes fields parent := by
  induction level with
  | root =>
    rw [laid.encode_eq formed, written_eq_ok] at encoded
    obtain ⟨clean, rfl⟩ := encoded
    refine ⟨formed.1, formed.2, ⟨laid.kept, ?_⟩, clean, List.prefix_append ..⟩
    rw [show record.root.stop = record.laidOut from Nat.zero_add _]
    exact laid.laid
  | composite _ member ih =>
    obtain ⟨below, stands⟩ := ih.level.2.stands ih.stands member
    have clean := Field.zeroItem?_of_all ih.clean member
    obtain ⟨checked, nested⟩ := ih.nested.member (List.of_mem_zip member).1
    exact ⟨checked, nested, below.level, clean, stands⟩
  | @item _ _ _ node item _ _ repetition _ _ _ member there ih =>
    obtain ⟨below, stands⟩ := ih.level.2.stands ih.stands member
    have clean := Field.zeroItem?_of_all ih.clean member
    obtain ⟨checked, nested⟩ := ih.nested.member (List.of_mem_zip member).1
    have held := List.mem_of_getElem? there
    rcases below.items with ⟨empty, _⟩ | ⟨last, items, _⟩
    · simp [empty] at held
    · obtain ⟨level, stands⟩ := items.stands stands.left held
      rw [Field.zeroItem?, firstZero_eq_none] at clean
      exact ⟨checked, nested, level, (clean item held).1, stands⟩

/-- What encoding writes of a level and of each node in it, and how the nodes and the items of
their groups follow one another. A present list ends with one zero byte. -/
structure Placed (bytes : Bytes) (fields : List Field) (parent : Node) (path : Path) : Prop where
  level : encodeLevel fields parent.children path parent.offset =
    .ok (bytes.slice parent.offset parent.length)
  field : ∃ counts, derivedCounts fields parent.children path parent.offset = .ok counts ∧
    ∀ field node, (field, node) ∈ fields.zip parent.children →
      encodeField field node parent.children (counts.lookup field.name) (path.child field.name)
        node.offset = .ok (bytes.slice node.offset node.length)
  names : parent.children.map Node.name = fields.map Field.name
  abut : Abut parent.offset parent.children parent.stop
  items : ∀ name inner repetition condition node,
    (.group name inner repetition condition, node) ∈ fields.zip parent.children →
      ∃ present last, isPresent condition parent.children (path.child name) node.offset = .ok present ∧
        Abut node.offset node.children last ∧
        if present = true ∧ repetition = .zeroTerminated then
          node.stop = last + 1 ∧ bytes.slice last 1 = [0]
        else node.stop = last

section Standing

variable {bytes : Bytes} {fields : List Field} {parent node : Node}
  (standing : Standing bytes fields parent) (path : Path)
include standing

theorem Standing.encodeLevel_eq : encodeLevel fields parent.children path parent.offset =
    .ok (bytes.slice parent.offset parent.length) := by
  obtain ⟨checked, nested, level, clean, stands⟩ := standing
  have sized :=
    Field.LaidAll.length_bytes fields parent.offset parent.children parent.stop level.2
  rw [ResourceTemplate.encodeLevel_eq checked nested level, clean,
    stands.slice (Nat.add_left_cancel sized).symm]
  rfl

theorem Standing.encodeField_eq {field : Field} (member : (field, node) ∈ fields.zip parent.children) :
    encodeField field node parent.children
        ((calledFor fields parent.children parent.children).lookup field.name) (path.child field.name)
        node.offset =
      .ok (bytes.slice node.offset node.length) := by
  obtain ⟨checked, nested, ⟨settled, laid⟩, clean, stands⟩ := standing
  obtain ⟨below, stands⟩ := laid.stands stands member
  rw [ResourceTemplate.encodeField_eq field node.offset node
    (nested.member (List.of_mem_zip member).1) below parent.children (settled _ member) _
    (settled.lookup_calledFor checked laid _ member), Field.zeroItem?_of_all clean member,
    stands.slice (Field.Laid.length_bytes field node.offset node below).symm]
  rfl

theorem Standing.items_abut {name : String} {inner : List Field} {repetition : Repetition}
    {condition : Option Condition}
    (member : (Field.group name inner repetition condition, node) ∈ fields.zip parent.children) :
    ∃ present last, isPresent condition parent.children (path.child name) node.offset = .ok present ∧
      Abut node.offset node.children last ∧
      if present = true ∧ repetition = .zeroTerminated then
        node.stop = last + 1 ∧ bytes.slice last 1 = [0]
      else node.stop = last := by
  obtain ⟨below, stands⟩ := standing.level.2.stands standing.stands member
  have group := standing.level.1 _ member
  obtain ⟨present, verdict⟩ := group.decided
  cases present with
  | false =>
    obtain ⟨empty, short⟩ := group.absent verdict
    refine ⟨false, node.offset, isPresent_eq_ok.mpr verdict, ?_, ?_⟩
    · rw [empty]
      rfl
    · simp [Node.stop, short]
  | true =>
    have terminated := group.terminated verdict
    obtain ⟨last, items, ends⟩ := itemsLaid_of_present below.items terminated
    refine ⟨true, last, isPresent_eq_ok.mpr verdict, items.abut, ?_⟩
    by_cases zero : repetition = .zeroTerminated
    · rw [if_pos ⟨rfl, zero⟩]
      subst zero
      have closing : bytes.Stands last (Repetition.zeroTerminated.closing node.length) :=
        items.stop_eq ▸ stands.right
      rw [Repetition.closing_eq_ending terminated] at closing
      exact ⟨ends, closing.slice rfl⟩
    · rw [if_neg fun both => zero both.2]
      rw [Repetition.ending, if_neg zero] at ends
      exact ends

theorem Standing.placed : Placed bytes fields parent path where
  level := standing.encodeLevel_eq path
  field := ⟨_, derivedCounts_eq standing.level.1.decided,
    fun _ _ member => standing.encodeField_eq path member⟩
  names := standing.level.2.names
  abut := standing.level.2.abut
  items := fun _ _ _ _ _ member => standing.items_abut path member

end Standing

/-- The places that a record gives for its nodes are those of their bytes, as long as no condition
tests a count. -/
theorem placed_of_encode {template : Template} (formed : template.WellFormed)
    (untested : template.Everywhere Template.CountsUntested) {settings : Settings}
    {record : Record} (reachable : Reachable template settings record) {bytes : Bytes}
    (encoded : record.encode = .ok bytes) :
    bytes.length = record.length ∧
      ∀ fields parent path, record.Level fields parent path → Placed bytes fields parent path := by
  obtain ⟨rfl, laid⟩ := reachable.laid formed
  have laid := laid.laidOut untested
  refine ⟨?_, fun fields parent path level => (level.standing formed laid encoded).placed path⟩
  rw [laid.encode_eq formed, written_eq_ok] at encoded
  obtain ⟨_, rfl⟩ := encoded
  exact laid.length_bytes

theorem placed_of_encode_sample : ∃ record bytes, Reachable Template.sample {} record ∧
    record.encode = .ok bytes ∧ bytes.length = record.length ∧
      Placed bytes Template.sample record.root Path.root := by
  obtain ⟨first, decoded, encoded⟩ : ∃ record,
      decode Template.sample {} [1, 0, 0, 1, 0, 2, 0, 3, 97, 98, 1, 65, 0, 7, 8] = .ok record ∧
        (record.attempt {} (.insertItem [.name "points"] 1)).encode =
          .ok [1, 1, 0, 1, 0, 2, 0, 0, 0, 0, 0, 3, 97, 98, 1, 65, 0, 7, 8] :=
    ⟨_, by cbv, by cbv⟩
  have reachable := Reachable.edited {} (.insertItem [.name "points"] 1) (.decoded decoded)
  obtain ⟨sized, placed⟩ :=
    placed_of_encode Template.sample_wellFormed (by decide +kernel) reachable encoded
  have same := (reachable.laid Template.sample_wellFormed).1
  exact ⟨_, _, reachable, encoded, sized, same ▸ placed _ _ _ .root⟩

end Record
end ResourceTemplate
