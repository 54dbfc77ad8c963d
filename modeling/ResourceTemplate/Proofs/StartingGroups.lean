import ResourceTemplate.Proofs.DefaultFilling
import ResourceTemplate.Proofs.MendedCounts

/-! When settling succeeds. Nothing but a count that its field cannot hold stands in its way, and a level
that was settled has new counts only where a group begins to be present, which starts without items. -/
namespace ResourceTemplate

/-- The integer field of this name can hold the count. -/
def Template.Fits (fields : Template) (name : String) (count : Int) : Prop :=
  ∃ type base, Field.scalar name type ∈ fields ∧ type.intType? = some base ∧ base.contains count = true

/-- The count field of a group can hold the count of no items. -/
def Field.CountOpens (owner : Template) : Field → Prop
  | .group _ _ (.counted countField zeroBased) _ => owner.Fits countField (countValue zeroBased 0)
  | _ => True

/-- The groups that are present among default values can start without items. -/
def Template.CountsOpen (fields : Template) : Prop :=
  ∀ group ∈ fields, presentAtFirst group.condition? = true → group.CountOpens fields

mutual
/-- What a field is filled with can be settled. -/
def Field.Opens : Field → Prop
  | .scalar .. => True
  | .composite _ fields => Template.CountsOpen fields ∧ OpensAll fields
  | .group _ fields repetition _ =>
    0 < repetition.filling → Template.CountsOpen fields ∧ OpensAll fields

def Field.OpensAll : List Field → Prop
  | [] => True
  | field :: fields => (presentAtFirst field.condition? = true → field.Opens) ∧ OpensAll fields
end

/-- A group can begin to be present in a field list. -/
def Field.CanStart (owner : Template) (group : Field) : Prop :=
  group.CountOpens owner ∧ group.Opens

section Counts

variable {rule : LevelRule} {fields : List Field} {nodes middle : List Node} {parent : Path}
  {start stop : Nat} {type : ScalarType} {base : IntType} {name : String} {n : Int}

theorem ScalarType.Holds.contains {held : Scalar} (holds : type.Holds held)
    (integer : held.value.integer? = some n) :
    ∃ base, type.intType? = some base ∧ base.contains n = true := by
  have accepted := ScalarType.accept_integer holds integer Path.root
  cases known : type.intType? with
  | none =>
    have admits := holds.value
    cases type with
    | int | enumeration => contradiction
    | fixedString | pascalString | boolean =>
      obtain ⟨_, same⟩ := admits
      simp [same, Value.integer?] at integer
  | some base =>
    obtain ⟨m, same, inside, _⟩ := (ScalarType.accept_integer_iff known).mp accepted
    obtain rfl := Option.some.inj same
    exact ⟨base, rfl, inside⟩

/-- A count that is held fits. -/
theorem fits_of_held (checked : Template.check fields = .ok ())
    (laid : Field.LaidAll rule fields start nodes stop) (held : siblingInteger? nodes name = some n) :
    Template.Fits fields name n := by
  obtain ⟨value, sibling, integer⟩ := Option.bind_eq_some_iff.mp held
  obtain ⟨position, type, _, _, _, declared, _, holds, rfl⟩ := scalar_of_sibling checked laid sibling
  obtain ⟨base, known, inside⟩ := holds.contains integer
  exact ⟨type, base, List.mem_of_getElem? declared, known, inside⟩

theorem syncCount_ok_iff (checked : Template.check fields = .ok ())
    (laid : Field.LaidAll rule fields start nodes stop) :
    (∃ again, syncCount fields parent nodes (name, n) = .ok again) ↔ Template.Fits fields name n := by
  constructor
  · rintro ⟨again, synced⟩
    obtain ⟨recounted, held⟩ := syncCount_ok laid synced
    exact fits_of_held checked (recounted.laid laid) held
  · rintro ⟨type, base, member, known, inside⟩
    obtain ⟨position, declared⟩ := List.mem_iff_getElem?.mp member
    have named := Template.position?_eq_some (Template.names_nodup checked) declared
    obtain ⟨node, there⟩ := laid.getElem? declared
    by_cases already : node.value?.bind Value.integer? = some n
    · exact ⟨nodes, syncCount_eq_ok.mpr ⟨position, node, named, there, .inl ⟨already, rfl⟩⟩⟩
    · have accepted : type.accept (.int n) (parent.child name) = .ok (base.value n) :=
        (ScalarType.accept_integer_iff known).mpr ⟨n, rfl, inside, rfl⟩
      exact ⟨_, syncCount_eq_ok.mpr
        ⟨position, node, named, there, .inr ⟨already, type, _, declared, accepted, rfl⟩⟩⟩

/-- The counts of a level can be set when each of them fits. -/
theorem syncCounts_ok_iff (checked : Template.check fields = .ok ())
    (laid : Field.LaidAll rule fields start nodes stop) {counts : List (String × Int)} :
    (∃ again, syncCounts fields parent nodes counts = .ok again) ↔
      ∀ entry ∈ counts, Template.Fits fields entry.1 entry.2 := by
  induction counts generalizing nodes with
  | nil => exact iff_of_true ⟨nodes, rfl⟩ (by simp)
  | cons entry counts ih =>
    rw [List.forall_mem_cons, ← syncCount_ok_iff checked laid]
    constructor
    · rintro ⟨again, synced⟩
      rw [syncCounts, List.foldlM_cons] at synced
      obtain ⟨middle, first, follow⟩ := bind_eq_ok.mp synced
      exact ⟨⟨middle, first⟩, (ih ((syncCount_ok laid first).1.laid laid)).mp ⟨again, follow⟩⟩
    · rintro ⟨⟨middle, first⟩, others⟩
      obtain ⟨again, follow⟩ := (ih ((syncCount_ok laid first).1.laid laid)).mpr others
      exact ⟨again, bind_eq_ok.mpr ⟨middle, first, follow⟩⟩

/-- A group that keeps its number of items in a field is given no other items. -/
theorem mem_calledFor_settled
    (settled : settleFields fields nodes [] parent start = .ok (middle, stop)) :
    (name, n) ∈ calledFor fields middle middle ↔ (name, n) ∈ calledFor fields nodes nodes := by
  have faces := settleFields_face settled
  have same {position : Nat} {group : String} {inner : List Field} {zeroBased : Bool}
      {condition : Option Condition} {node again : Node}
      (declared : fields[position]? = some (.group group inner (.counted name zeroBased) condition))
      (there : nodes[position]? = some node) (found : middle[position]? = some again)
      (present : verdict? condition middle = some true) :
      again.children.length = node.children.length := by
    obtain ⟨front, _, _, _, rfl, rfl, alone⟩ := settleFields_at settled declared there
    obtain rfl : _ = again := by simpa using found
    obtain ⟨_, _, _, items, rfl⟩ := branch_of_settled alone nofun
    rcases settleField_group.mp alone with ⟨absent, _⟩ | ⟨_, _, _, several, rfl⟩
    · rw [List.nil_append] at absent
      rw [verdict?_append absent] at present
      contradiction
    · exact settleItems_length several
  have length : middle.length = nodes.length := by simpa using congrArg List.length faces
  rw [mem_calledFor, mem_calledFor]
  constructor
  · rintro ⟨group, inner, zeroBased, condition, again, member, present, rfl⟩
    obtain ⟨position, paired⟩ := List.mem_iff_getElem?.mp member
    obtain ⟨declared, found⟩ := List.getElem?_zip_eq_some.mp paired
    have inside := (List.getElem?_eq_some_iff.mp found).1
    have there := List.getElem?_eq_getElem (length ▸ inside)
    exact ⟨group, inner, zeroBased, condition, _, mem_zip_of_getElem? declared there,
      (verdict?_congr faces condition).symm.trans present,
      by rw [same declared there found present]⟩
  · rintro ⟨group, inner, zeroBased, condition, node, member, present, rfl⟩
    obtain ⟨position, paired⟩ := List.mem_iff_getElem?.mp member
    obtain ⟨declared, there⟩ := List.getElem?_zip_eq_some.mp paired
    have inside := (List.getElem?_eq_some_iff.mp there).1
    have found := List.getElem?_eq_getElem (length.symm ▸ inside)
    have present := (verdict?_congr faces condition).trans present
    exact ⟨group, inner, zeroBased, condition, _, mem_zip_of_getElem? declared found, present,
      by rw [same declared there found present]⟩

/-- A level is settled when its fields are, and when the counts fit that its groups call for. -/
theorem settleLevel_ok_iff (checked : Template.check fields = .ok ())
    (nested : Field.AllNested (·.check = .ok ()) fields) (shaped : Field.ShapedAll fields nodes) :
    (∃ result stop, settleLevel fields nodes parent start = .ok (result, stop)) ↔
      (∃ middle stop, settleFields fields nodes [] parent start = .ok (middle, stop)) ∧
        ∀ entry ∈ calledFor fields nodes nodes, Template.Fits fields entry.1 entry.2 := by
  have fills := settleFields_lays fields nested nodes shaped [] parent start
  have counts {middle : List Node} {stop : Nat}
      (first : settleFields fields nodes [] parent start = .ok (middle, stop)) :
      (∃ again, syncCounts fields parent middle (calledFor fields middle middle) = .ok again) ↔
        ∀ entry ∈ calledFor fields nodes nodes, Template.Fits fields entry.1 entry.2 := by
    rw [syncCounts_ok_iff checked (fills _ _ first).1]
    exact forall_congr' fun entry =>
      imp_congr_left (mem_calledFor_settled first)
  have decides (middle : List Node) (stop : Nat)
      (first : settleFields fields nodes [] parent start = .ok (middle, stop)) :
      Decided fields middle := decided_of_filled (fills middle stop first).2
  constructor
  · rintro ⟨result, stop, settled⟩
    obtain ⟨_, middle, first, synced⟩ := (settleWith_eq_ok decides).mp settled
    exact ⟨⟨middle, stop, first⟩, (counts first).mp ⟨result, synced⟩⟩
  · rintro ⟨⟨middle, stop, first⟩, fit⟩
    obtain ⟨result, synced⟩ := (counts first).mpr fit
    exact ⟨result, stop, (settleWith_eq_ok decides).mpr ⟨shaped.names, middle, first, synced⟩⟩

end Counts

section Alone

variable {fields earlier : List Field} {nodes before front : List Node} {parent : Path}
  {start position : Nat} {field : Field} (each : Nat → Prop)

/-- Fields are settled when each of them is, behind siblings that show what the nodes before it do. -/
theorem settleFields_ok_iff (sized : nodes.length = fields.length)
    (alone : ∀ position field node, fields[position]? = some field → nodes[position]? = some node →
      ∀ front path place, front.map Node.face = (before ++ nodes.take position).map Node.face →
        ((∃ again, settleField field node front path place = .ok again) ↔ each position)) :
    (∃ result stop, settleFields fields nodes before parent start = .ok (result, stop)) ↔
      ∀ position < fields.length, each position := by
  induction fields generalizing nodes before start each with
  | nil =>
    obtain rfl : nodes = [] := by simpa using sized
    exact iff_of_true ⟨[], start, rfl⟩ (by simp)
  | cons field fields ih =>
    cases nodes with
    | nil => contradiction
    | cons node nodes =>
      have head := alone 0 field node rfl rfl before (parent.child field.name) start (by simp)
      have tail {again : Node}
          (first : settleField field node before (parent.child field.name) start = .ok again) :=
        @ih nodes (before ++ [again]) again.stop (fun position => each (position + 1))
          (Nat.succ.inj sized) fun position other child declared there front path place faces =>
            alone (position + 1) other child declared there front path place
              (by simp [faces, settleField_face first])
      rw [List.length_cons, Nat.forall_lt_succ_left]
      constructor
      · rintro ⟨_, stop, settled⟩
        obtain ⟨again, rest, first, follow, rfl⟩ := settleFields_cons.mp settled
        exact ⟨head.mp ⟨again, first⟩, (tail first).mp ⟨rest, stop, follow⟩⟩
      · rintro ⟨first, others⟩
        obtain ⟨again, first⟩ := head.mpr first
        obtain ⟨rest, stop, follow⟩ := (tail first).mpr others
        exact ⟨_, stop, settleFields_cons.mpr ⟨again, rest, first, follow, rfl⟩⟩

theorem settleItems_ok_iff {item : ItemSettler} {index : Nat}
    (alone : ∀ position node, nodes[position]? = some node → ∀ number place,
      ((∃ again, item number node place = .ok again) ↔ each position)) :
    (∃ items stop, settleItems item nodes index start = .ok (items, stop)) ↔
      ∀ position < nodes.length, each position := by
  induction nodes generalizing index start each with
  | nil => exact iff_of_true ⟨[], start, rfl⟩ (by simp)
  | cons node nodes ih =>
    have head := alone 0 node rfl index start
    have tail (place : Nat) := @ih place (fun position => each (position + 1)) (index + 1)
      fun position child there => alone (position + 1) child there
    rw [List.length_cons, Nat.forall_lt_succ_left]
    constructor
    · rintro ⟨_, stop, settled⟩
      obtain ⟨again, rest, first, follow, rfl⟩ := settleItems_cons.mp settled
      exact ⟨head.mp ⟨again, first⟩, (tail _).mp ⟨rest, stop, follow⟩⟩
    · rintro ⟨first, others⟩
      obtain ⟨again, first⟩ := head.mpr first
      obtain ⟨rest, stop, follow⟩ := (tail again.stop).mpr others
      exact ⟨_, stop, settleItems_cons.mpr ⟨again, rest, first, follow, rfl⟩⟩

theorem Field.ShapedAll.append (shaped : Field.ShapedAll earlier before) {node : Node}
    (next : field.Shaped node) : Field.ShapedAll (earlier ++ [field]) (before ++ [node]) := by
  induction earlier generalizing before with
  | nil =>
    obtain rfl : before = [] := shaped
    exact ⟨node, [], rfl, next, rfl⟩
  | cons first earlier ih =>
    obtain ⟨head, rest, rfl, described, follow⟩ := shaped
    exact ⟨head, rest ++ [node], rfl, described, ih follow⟩

theorem decided_take (checked : Template.checkFrom earlier fields = .ok ())
    (already : Field.ShapedAll earlier before) (shaped : Field.ShapedAll fields nodes)
    (declared : fields[position]? = some field) :
    ∃ present, verdict? field.condition? (before ++ nodes.take position) = some present := by
  induction fields generalizing earlier before nodes position with
  | nil => simp at declared
  | cons first fields ih =>
    obtain ⟨follows, checked⟩ := Template.checkFrom_cons.mp checked
    obtain ⟨node, rest, rfl, described, shaped⟩ := shaped
    cases position with
    | zero =>
      obtain rfl : first = field := by simpa using declared
      simpa using follows.decided already
    | succ position =>
      simpa using ih checked (already.append described) shaped (by simpa using declared)

/-- The siblings before a group decide on it as the whole level does. -/
theorem verdict?_front (checked : Template.check fields = .ok ())
    (shaped : Field.ShapedAll fields nodes) (declared : fields[position]? = some field)
    (faces : front.map Node.face = (nodes.take position).map Node.face) :
    ∃ present, verdict? field.condition? front = some present ∧
      verdict? field.condition? nodes = some present := by
  obtain ⟨present, decided⟩ := @decided_take _ [] _ [] _ _ checked rfl shaped declared
  rw [List.nil_append] at decided
  refine ⟨present, (verdict?_congr faces _).trans decided, ?_⟩
  rw [← List.take_append_drop position nodes]
  exact verdict?_append decided

end Alone

section Defaults

variable {fields inner : List Field} {nodes front : List Node} {name other : String} {span : Span}
  {repetition : Repetition} {condition : Option Condition}

theorem Field.opensAll_iff :
    Field.OpensAll fields ↔
      ∀ field ∈ fields, presentAtFirst field.condition? = true → field.Opens := by
  induction fields with
  | nil => simp [Field.OpensAll]
  | cons field fields ih => rw [Field.OpensAll, List.forall_mem_cons, ih]

theorem Field.defaults_eq (fields : List Field) : Field.defaults fields = fields.map Field.default := by
  induction fields with
  | nil => rfl
  | cons field fields ih => rw [Field.defaults, ih, List.map_cons]

theorem settleItem_ok_iff {item : Node} (kind : item.tag = .branch .item) {path : Path}
    {number place : Nat} :
    (∃ again, settleItem inner path number item place = .ok again) ↔
      ∃ result stop, settleLevel inner item.children (path.index number) place = .ok (result, stop) := by
  simp only [settleItem_eq_ok kind]
  constructor
  · rintro ⟨_, result, stop, settled, _⟩
    exact ⟨result, stop, settled⟩
  · rintro ⟨result, stop, settled⟩
    exact ⟨_, result, stop, settled, rfl⟩

theorem settleField_group_iff (present : verdict? condition front = some true) {items : List Node}
    {path : Path} {place : Nat} :
    (∃ again, settleField (.group name inner repetition condition) (.branch other span .group items)
        front path place = .ok again) ↔
      ∃ result last, settleItems (settleItem inner path) (fillItems inner repetition items) 0 place =
        .ok (result, last) := by
  simp only [settleField_group]
  constructor
  · rintro ⟨_, ⟨absent, _⟩ | ⟨_, result, last, settled, _⟩⟩
    · rw [present] at absent
      contradiction
    · exact ⟨result, last, settled⟩
  · rintro ⟨result, last, settled⟩
    exact ⟨_, .inr ⟨present, result, last, settled, rfl⟩⟩

/-- An empty group that is present can be settled when the items it is filled with can. -/
theorem settleField_empty_iff
    (opens : ∀ parent start,
      (∃ result stop, settleLevel inner (Field.defaults inner) parent start = .ok (result, stop)) ↔
        Template.CountsOpen inner ∧ Field.OpensAll inner)
    (present : verdict? condition front = some true) {path : Path} {place : Nat} :
    (∃ again, settleField (.group name inner repetition condition) (.branch other span .group []) front
        path place = .ok again) ↔
      (Field.group name inner repetition condition).Opens := by
  have items : (∃ items stop, settleItems (settleItem inner path) (fillItems inner repetition []) 0 place =
      .ok (items, stop)) ↔ ∀ position < repetition.filling,
        Template.CountsOpen inner ∧ Field.OpensAll inner := by
    rw [settleItems_ok_iff fun _ => Template.CountsOpen inner ∧ Field.OpensAll inner,
      length_fillItems_nil]
    intro position node there number place
    obtain ⟨_, rfl⟩ := of_mem_fillItems (List.mem_of_getElem? there)
    exact (settleItem_ok_iff rfl).trans (opens (path.index number) place)
  rw [settleField_group_iff present, items, Field.Opens]
  constructor
  · intro each filled
    exact each 0 filled
  · intro opens position inside
    exact opens (Nat.zero_lt_of_lt inside)

/-- Whether values are zero can be seen from what nodes show. -/
theorem AllZero.of_faces (zero : AllZero nodes) (faces : front.map Node.face = nodes.map Node.face) :
    AllZero front := by
  intro node member value held
  have shown : node.face ∈ nodes.map Node.face := faces ▸ List.mem_map_of_mem member
  obtain ⟨other, among, same⟩ := List.mem_map.mp shown
  obtain ⟨_, scalar⟩ := Prod.mk.inj same
  refine zero other among value ?_
  rw [Node.value?, scalar]
  exact held

theorem allZero_defaults (fields : List Field) : AllZero (Field.defaults fields) := by
  intro node member value held
  rw [Field.defaults_eq] at member
  obtain ⟨field, _, rfl⟩ := List.mem_map.mp member
  cases field with
  | scalar name type =>
    obtain rfl := Option.some.inj held
    exact type.number_default
  | composite | group => contradiction

theorem AllZero.take (zero : AllZero nodes) (count : Nat) : AllZero (nodes.take count) :=
  fun node member => zero node (List.mem_of_mem_take member)

/-- Among default values the groups that are present at first call for the counts of no items. -/
theorem countsOpen_iff (checked : Template.check fields = .ok ()) :
    Template.CountsOpen fields ↔
      ∀ entry ∈ calledFor fields (Field.defaults fields) (Field.defaults fields),
        Template.Fits fields entry.1 entry.2 := by
  have zero := allZero_defaults fields
  constructor
  · rintro opens ⟨countField, n⟩ called
    obtain ⟨group, inner, zeroBased, condition, node, member, holds, rfl⟩ := mem_calledFor.mp called
    have fits : Template.Fits fields countField (countValue zeroBased 0) :=
      opens _ (List.of_mem_zip member).1 (zero.verdict? holds)
    obtain ⟨position, paired⟩ := List.mem_iff_getElem?.mp member
    obtain ⟨declared, there⟩ := List.getElem?_zip_eq_some.mp paired
    rw [Field.defaults_eq, List.getElem?_map, declared] at there
    obtain rfl : Node.branch group ⟨0, 0⟩ .group [] = node := Option.some.inj there
    exact fits
  · intro fits group member first
    match group with
    | .group name inner (.counted countField zeroBased) condition =>
      obtain ⟨position, declared⟩ := List.mem_iff_getElem?.mp member
      obtain ⟨present, _, verdict⟩ :=
        verdict?_front checked (Field.shapedAll_defaults fields) declared rfl
      obtain rfl : true = present := first.symm.trans (zero.verdict? verdict)
      have there : (Field.defaults fields)[position]? = some (.branch name ⟨0, 0⟩ .group []) := by
        rw [Field.defaults_eq, List.getElem?_map, declared]
        rfl
      exact fits (countField, countValue zeroBased 0) (mem_calledFor.mpr
        ⟨name, inner, zeroBased, condition, _, mem_zip_of_getElem? declared there, verdict, rfl⟩)
    | .scalar .. | .composite .. => trivial
    | .group _ _ (.fixed _) _ | .group _ _ .untilEnd _ | .group _ _ .zeroTerminated _ => trivial

/-- Default values can be settled when those of each field can, and when the counts of no items fit. -/
theorem settleLevel_of_alone (checked : Template.check fields = .ok ())
    (nested : Field.AllNested (·.check = .ok ()) fields)
    (alone : ∀ field ∈ fields, ∀ front path place,
      verdict? field.condition? front = some (presentAtFirst field.condition?) →
        ((∃ again, settleField field field.default front path place = .ok again) ↔
          (presentAtFirst field.condition? = true → field.Opens))) (parent : Path) (start : Nat) :
    (∃ result stop, settleLevel fields (Field.defaults fields) parent start = .ok (result, stop)) ↔
      Template.CountsOpen fields ∧ Field.OpensAll fields := by
  have shaped := Field.shapedAll_defaults fields
  rw [settleLevel_ok_iff checked nested shaped, ← countsOpen_iff checked, and_comm, Field.opensAll_iff]
  apply and_congr_right
  intro _
  rw [settleFields_ok_iff (fun position => ∀ field, fields[position]? = some field →
    presentAtFirst field.condition? = true → field.Opens) shaped.length_eq]
  · constructor
    · intro each field member
      obtain ⟨position, declared⟩ := List.mem_iff_getElem?.mp member
      exact each position (List.getElem?_eq_some_iff.mp declared).1 field declared
    · intro each position _ field declared
      exact each field (List.mem_of_getElem? declared)
  · intro position field node declared there front path place faces
    rw [Field.defaults_eq, List.getElem?_map, declared] at there
    obtain rfl := Option.some.inj there
    obtain ⟨present, verdict, _⟩ := verdict?_front checked shaped declared faces
    have zero := ((allZero_defaults fields).take position).of_faces faces
    rw [← zero.verdict? verdict] at verdict
    rw [alone field (List.mem_of_getElem? declared) front path place verdict]
    constructor
    · intro opens other same
      obtain rfl := Option.some.inj (declared.symm.trans same)
      exact opens
    · intro opens
      exact opens field declared

end Defaults

mutual
theorem settleField_default_iff :
    (field : Field) → field.Nested (·.check = .ok ()) → (front : List Node) → (path : Path) →
      (place : Nat) → verdict? field.condition? front = some (presentAtFirst field.condition?) →
      ((∃ again, settleField field field.default front path place = .ok again) ↔
        (presentAtFirst field.condition? = true → field.Opens))
  | .scalar .., _, _, _, _, _ => iff_of_true ⟨_, rfl⟩ fun _ => trivial
  | .composite name fields, ⟨checked, nested⟩, front, path, place, _ => by
    have level := settleLevel_of_alone checked nested (settleFields_default_iff fields nested) path place
    rw [Field.Opens, ← level, Field.default]
    simp only [settleField_composite]
    constructor
    · rintro ⟨_, inner, stop, settled, _⟩ _
      exact ⟨inner, stop, settled⟩
    · intro settles
      obtain ⟨inner, stop, settled⟩ := settles rfl
      exact ⟨_, inner, stop, settled, rfl⟩
  | .group name fields repetition condition, ⟨checked, nested⟩, front, path, place, verdict => by
    cases first : presentAtFirst condition with
    | false =>
      have absent : verdict? condition front = some false := first ▸ verdict
      exact iff_of_true ⟨_, settleField_group.mpr (.inl ⟨absent, rfl⟩)⟩
        fun present => absurd (first.symm.trans present) (by decide)
    | true =>
      have present : verdict? condition front = some true := first ▸ verdict
      rw [Field.default, settleField_empty_iff
        (settleLevel_of_alone checked nested (settleFields_default_iff fields nested)) present]
      constructor
      · intro opens _
        exact opens
      · intro opens
        exact opens first

theorem settleFields_default_iff :
    (fields : List Field) → Field.AllNested (·.check = .ok ()) fields → (field : Field) →
      field ∈ fields → (front : List Node) → (path : Path) → (place : Nat) →
      verdict? field.condition? front = some (presentAtFirst field.condition?) →
      ((∃ again, settleField field field.default front path place = .ok again) ↔
        (presentAtFirst field.condition? = true → field.Opens))
  | [], _, _, member => absurd member List.not_mem_nil
  | first :: fields, ⟨formed, nested⟩, field, member => by
    rcases List.mem_cons.mp member with same | member
    · rw [same]
      exact settleField_default_iff first formed
    · exact settleFields_default_iff fields nested field member
end

/-- What can be filled in for a template can be told from the template alone. -/
theorem settleLevel_default_iff {fields : List Field} (checked : Template.check fields = .ok ())
    (nested : Field.AllNested (·.check = .ok ()) fields) (parent : Path) (start : Nat) :
    (∃ result stop, settleLevel fields (Field.defaults fields) parent start = .ok (result, stop)) ↔
      Template.CountsOpen fields ∧ Field.OpensAll fields :=
  settleLevel_of_alone checked nested (settleFields_default_iff fields nested) parent start

end ResourceTemplate
