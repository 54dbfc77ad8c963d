import ResourceTemplate.Proofs.ScalarStorage
import ResourceTemplate.Proofs.TemplateRules

/-! Trees that are laid out as their template describes. The relation is on fields, nodes and
offsets alone; a rule that every field list is to keep with its nodes is a parameter, and the
one that groups keep with their siblings is `Settled`. A laid out tree stands for bytes. -/
namespace ResourceTemplate

/-- What a group's condition and repetition ask of it. A list is present when it takes up bytes,
of which its end is the last. -/
structure GroupFilled (siblings : List Node) (repetition : Repetition)
    (condition : Option Condition) (node : Node) : Prop where
  decided : ∃ present, verdict? condition siblings = some present
  absent : verdict? condition siblings = some false → node.children = [] ∧ node.length = 0
  fixed : verdict? condition siblings = some true →
    ∀ count, repetition = .fixed count → node.children.length = count
  terminated : verdict? condition siblings = some true →
    repetition = .zeroTerminated → 0 < node.length

/-- A group is settled when its count field, if it has one, holds its number of items too. -/
structure GroupSettled (siblings : List Node) (repetition : Repetition)
    (condition : Option Condition) (node : Node) : Prop
    extends GroupFilled siblings repetition condition node where
  counted : verdict? condition siblings = some true →
    ∀ countField zeroBased, repetition = .counted countField zeroBased →
      siblingInteger? siblings countField = some (countValue zeroBased node.children.length)

/-- Only groups depend on their siblings. -/
def Field.Filled (siblings : List Node) : Field → Node → Prop
  | .group _ _ repetition condition, node => GroupFilled siblings repetition condition node
  | _, _ => True

def Field.Settled (siblings : List Node) : Field → Node → Prop
  | .group _ _ repetition condition, node => GroupSettled siblings repetition condition node
  | _, _ => True

abbrev LevelRule := List Field → List Node → Prop

def Settled : LevelRule := fun fields nodes =>
  ∀ pair ∈ fields.zip nodes, pair.1.Settled nodes pair.2

/-- Every group is settled, apart from those whose condition tests a count. -/
def SettledApart : LevelRule := fun fields nodes =>
  ∀ pair ∈ fields.zip nodes, ¬ pair.1.TestsCount fields → pair.1.Settled nodes pair.2

theorem Settled.apart {fields : List Field} {nodes : List Node} (settled : Settled fields nodes) :
    SettledApart fields nodes :=
  fun pair member _ => settled pair member

/-- Where no condition tests a count, no group is apart. -/
theorem SettledApart.settled {fields : List Field} {nodes : List Node}
    (untested : Template.CountsUntested fields) (apart : SettledApart fields nodes) :
    Settled fields nodes :=
  fun pair member => apart pair member (untested pair.1 (List.of_mem_zip member).1)

def Repetition.ending (repetition : Repetition) : Bytes :=
  if repetition = .zeroTerminated then [0] else []

theorem Repetition.stop_eq (repetition : Repetition) (last : Nat) :
    (if repetition = .zeroTerminated then last + 1 else last) = last + repetition.ending.length := by
  unfold ending
  split <;> rfl

/-- The end of a list of this length, which is none when the list is absent. -/
def Repetition.closing (repetition : Repetition) (length : Nat) : Bytes :=
  if 0 < length then repetition.ending else []

theorem Repetition.closing_eq_ending {repetition : Repetition} {length : Nat}
    (present : repetition = .zeroTerminated → 0 < length) :
    repetition.closing length = repetition.ending := by
  unfold closing ending
  by_cases zero : repetition = .zeroTerminated
  · rw [if_pos (present zero)]
  · simp [zero]

/-- Items numbered from `index` that follow one another from `start` to `stop`. -/
def ItemsLaid (level : (start : Nat) → List Node → (stop : Nat) → Prop) :
    (index start : Nat) → List Node → (stop : Nat) → Prop
  | _, start, [], stop => stop = start
  | index, start, node :: nodes, stop =>
    ∃ length children, node = .branch (toString index) ⟨start, length⟩ .item children ∧
      level start children (start + length) ∧
      ItemsLaid level (index + 1) (start + length) nodes stop

mutual
/-- `node` is what the field describes, laid out from `start`. -/
def Field.Laid (rule : LevelRule) : Field → (start : Nat) → Node → Prop
  | .scalar name type, start, node =>
    ∃ held, node = .scalar name ⟨start, type.encodedLength held.value⟩ held ∧ type.Holds held
  | .composite name fields, start, node =>
    ∃ length children, node = .branch name ⟨start, length⟩ .composite children ∧
      rule fields children ∧ LaidAll rule fields start children (start + length)
  | .group name fields repetition _, start, node =>
    ∃ length items, node = .branch name ⟨start, length⟩ .group items ∧
      (items = [] ∧ length = 0 ∨
        ∃ last, ItemsLaid (fun start children stop =>
            rule fields children ∧ LaidAll rule fields start children stop) 0 start items last ∧
          start + length = last + repetition.ending.length)

/-- The nodes follow one another from `start` to `stop`. -/
def Field.LaidAll (rule : LevelRule) :
    List Field → (start : Nat) → List Node → (stop : Nat) → Prop
  | [], start, nodes, stop => nodes = [] ∧ stop = start
  | field :: fields, start, nodes, stop =>
    ∃ node rest, nodes = node :: rest ∧ field.Laid rule start node ∧
      LaidAll rule fields node.stop rest stop
end

abbrev Field.LevelLaid (rule : LevelRule) (fields : List Field) (start : Nat) (nodes : List Node)
    (stop : Nat) : Prop :=
  rule fields nodes ∧ Field.LaidAll rule fields start nodes stop

mutual
def Field.bytes : Field → Node → Bytes
  | .scalar _ type, node => (node.scalar?.map type.stored).getD []
  | .composite _ fields, node => bytesAll fields node.children
  | .group _ fields repetition _, node =>
    node.children.flatMap (fun item => bytesAll fields item.children) ++
      repetition.closing node.length

def Field.bytesAll : List Field → List Node → Bytes
  | field :: fields, node :: nodes => field.bytes node ++ bytesAll fields nodes
  | _, _ => []
end

/-- The first item, from `index` on, that has a forbidden item within or is one itself. -/
def firstZero (within : Node → Option Path) (starts : Node → Bool) :
    (index : Nat) → List Node → Option Path
  | _, [] => none
  | index, node :: nodes =>
    ((within node).map (.index index :: ·)).or
      (if starts node then some [.index index] else firstZero within starts (index + 1) nodes)

mutual
/-- The way from a field to the first item of a zero-terminated list that looks like its end. -/
def Field.zeroItem? : Field → Node → Option Path
  | .scalar .., _ => none
  | .composite _ fields, node => zeroItems? fields node.children
  | .group _ fields repetition _, node =>
    firstZero (fun item => zeroItems? fields item.children)
      (fun item => repetition = .zeroTerminated ∧
        (Field.bytesAll fields item.children).head? = some 0) 0 node.children

def Field.zeroItems? : List Field → List Node → Option Path
  | field :: fields, node :: nodes =>
    ((field.zeroItem? node).map (.name field.name :: ·)).or (zeroItems? fields nodes)
  | _, _ => none
end

section Laid

variable {rule weaker : LevelRule} {field : Field} {fields : List Field} {node : Node}
  {nodes : List Node} {start stop : Nat}

theorem Field.Laid.offset (laid : field.Laid rule start node) : node.offset = start := by
  cases field with
  | scalar name type => obtain ⟨held, rfl, _⟩ := laid; rfl
  | composite name fields => obtain ⟨length, children, rfl, _⟩ := laid; rfl
  | group name fields repetition condition => obtain ⟨length, items, rfl, _⟩ := laid; rfl

theorem Field.Laid.stop_eq (laid : field.Laid rule start node) :
    node.stop = start + node.length := by
  rw [Node.stop, laid.offset]

theorem Field.Laid.name (laid : field.Laid rule start node) : node.name = field.name := by
  cases field with
  | scalar name type => obtain ⟨held, rfl, _⟩ := laid; rfl
  | composite name fields => obtain ⟨length, children, rfl, _⟩ := laid; rfl
  | group name fields repetition condition => obtain ⟨length, items, rfl, _⟩ := laid; rfl

theorem Field.LaidAll.names (laid : Field.LaidAll rule fields start nodes stop) :
    nodes.map Node.name = fields.map Field.name := by
  induction fields generalizing start nodes with
  | nil => obtain ⟨rfl, _⟩ := laid; rfl
  | cons field fields ih =>
    obtain ⟨node, rest, rfl, first, follow⟩ := laid
    rw [List.map_cons, List.map_cons, first.name, ih follow]

theorem Field.LaidAll.le (laid : Field.LaidAll rule fields start nodes stop) : start ≤ stop := by
  induction fields generalizing start nodes with
  | nil => exact Nat.le_of_eq laid.2.symm
  | cons field fields ih =>
    obtain ⟨node, rest, rfl, first, follow⟩ := laid
    have := ih follow
    rw [first.stop_eq] at this
    omega

/-- Every node of a laid out list is laid out by the field it is paired with. -/
theorem Field.LaidAll.pair (laid : Field.LaidAll rule fields start nodes stop)
    (member : (field, node) ∈ fields.zip nodes) : ∃ place, field.Laid rule place node := by
  induction fields generalizing start nodes with
  | nil => simp at member
  | cons first fields ih =>
    obtain ⟨head, rest, rfl, laid, follow⟩ := laid
    rcases List.mem_cons.mp member with same | member
    · obtain ⟨rfl, rfl⟩ := Prod.mk.inj same
      exact ⟨start, laid⟩
    · exact ih follow member

theorem ItemsLaid.member {level : Nat → List Node → Nat → Prop} {index : Nat}
    (laid : ItemsLaid level index start nodes stop) (member : node ∈ nodes) :
    ∃ (position start length : Nat) (children : List Node),
      node = .branch (toString position) ⟨start, length⟩ .item children ∧
        level start children (start + length) := by
  induction nodes generalizing index start with
  | nil => simp at member
  | cons head nodes ih =>
    obtain ⟨length, children, rfl, first, follow⟩ := laid
    rcases List.mem_cons.mp member with rfl | member
    · exact ⟨index, start, length, children, rfl, first⟩
    · exact ih follow member

/-- A group that is present is its items and its end, also when it has no items. -/
theorem itemsLaid_of_present {level : Nat → List Node → Nat → Prop} {repetition : Repetition}
    {length : Nat}
    (laid : nodes = [] ∧ length = 0 ∨ ∃ last, ItemsLaid level 0 start nodes last ∧
      start + length = last + repetition.ending.length)
    (present : repetition = .zeroTerminated → 0 < length) :
    ∃ last, ItemsLaid level 0 start nodes last ∧
      start + length = last + repetition.ending.length := by
  rcases laid with ⟨rfl, rfl⟩ | laid
  · have endless : repetition ≠ .zeroTerminated := fun zero => Nat.lt_irrefl 0 (present zero)
    exact ⟨start, rfl, by simp [Repetition.ending, endless]⟩
  · exact laid

theorem ItemsLaid.mono {strong weak : Nat → List Node → Nat → Prop}
    (implies : ∀ start children stop, strong start children stop → weak start children stop)
    {index : Nat} (laid : ItemsLaid strong index start nodes stop) :
    ItemsLaid weak index start nodes stop := by
  induction nodes generalizing index start with
  | nil => exact laid
  | cons node nodes ih =>
    obtain ⟨length, children, rfl, first, follow⟩ := laid
    exact ⟨length, children, rfl, implies _ _ _ first, ih follow⟩

mutual
/-- A layout under one rule is a layout under another, which follows from it at every level. -/
theorem Field.Laid.imp :
    (field : Field) →
      field.Nested (fun fields => ∀ nodes, rule fields nodes → weaker fields nodes) →
      (start : Nat) → (node : Node) → field.Laid rule start node → field.Laid weaker start node
  | .scalar .., _, _, _, laid => laid
  | .composite _ fields, ⟨implies, nested⟩, start, _, ⟨length, children, same, kept, laid⟩ =>
    ⟨length, children, same, implies _ kept,
      Field.LaidAll.imp fields nested start children (start + length) laid⟩
  | .group _ fields _ _, ⟨implies, nested⟩, _, _, ⟨length, items, same, laid⟩ => by
    refine ⟨length, items, same, ?_⟩
    rcases laid with absent | ⟨last, laid, ending⟩
    · exact .inl absent
    · refine .inr ⟨last, laid.mono ?_, ending⟩
      intro start children stop ⟨kept, laid⟩
      exact ⟨implies _ kept, Field.LaidAll.imp fields nested start children stop laid⟩

theorem Field.LaidAll.imp :
    (fields : List Field) →
      Field.AllNested (fun fields => ∀ nodes, rule fields nodes → weaker fields nodes) fields →
      (start : Nat) → (nodes : List Node) → (stop : Nat) →
      Field.LaidAll rule fields start nodes stop → Field.LaidAll weaker fields start nodes stop
  | [], _, _, _, _, laid => laid
  | field :: fields, ⟨first, nested⟩, start, _, stop, ⟨node, rest, same, laid, follow⟩ =>
    ⟨node, rest, same, Field.Laid.imp field first start node laid,
      Field.LaidAll.imp fields nested node.stop rest stop follow⟩
end

theorem ItemsLaid.length_bytes {level : Nat → List Node → Nat → Prop}
    (sized : ∀ start children stop, level start children stop →
      stop = start + (Field.bytesAll fields children).length)
    {index : Nat} (laid : ItemsLaid level index start nodes stop) :
    stop = start + (nodes.flatMap fun item => Field.bytesAll fields item.children).length := by
  induction nodes generalizing index start with
  | nil => exact laid
  | cons node nodes ih =>
    obtain ⟨length, children, rfl, first, follow⟩ := laid
    have head := sized _ _ _ first
    have tail := ih follow
    simp only [List.flatMap_cons, List.length_append, Node.children_branch]
    omega

mutual
/-- A laid out node is as long as the bytes that it stands for. -/
theorem Field.Laid.length_bytes :
    (field : Field) → (start : Nat) → (node : Node) → field.Laid rule start node →
      node.length = (field.bytes node).length
  | .scalar _ type, _, _, ⟨held, same, _⟩ => by
    subst same
    simp [Field.bytes]
  | .composite _ fields, start, _, ⟨length, children, same, _, laid⟩ => by
    subst same
    have := Field.LaidAll.length_bytes fields start children (start + length) laid
    simp only [Node.length_branch, Field.bytes, Node.children_branch]
    omega
  | .group _ fields repetition _, start, _, ⟨length, items, same, laid⟩ => by
    subst same
    simp only [Node.length_branch, Field.bytes, Node.children_branch]
    rcases laid with ⟨rfl, rfl⟩ | ⟨last, laid, ends⟩
    · rfl
    · have items := laid.length_bytes fun start children stop ⟨_, laid⟩ =>
        Field.LaidAll.length_bytes fields start children stop laid
      rw [List.length_append, Repetition.closing]
      split
      · omega
      · rw [List.length_nil]
        omega

theorem Field.LaidAll.length_bytes :
    (fields : List Field) → (start : Nat) → (nodes : List Node) → (stop : Nat) →
      Field.LaidAll rule fields start nodes stop →
      stop = start + (Field.bytesAll fields nodes).length
  | [], _, _, _, ⟨empty, same⟩ => by rw [same, empty]; rfl
  | field :: fields, start, _, stop, ⟨node, rest, same, first, follow⟩ => by
    subst same
    have head := Field.Laid.length_bytes field start node first
    have tail := Field.LaidAll.length_bytes fields node.stop rest stop follow
    rw [first.stop_eq] at tail
    simp only [Field.bytesAll, List.length_append]
    omega
end

theorem ItemsLaid.stop_eq {index : Nat}
    (laid : ItemsLaid (Field.LevelLaid rule fields) index start nodes stop) :
    stop = start + (nodes.flatMap fun item => Field.bytesAll fields item.children).length :=
  laid.length_bytes fun start children stop level =>
    Field.LaidAll.length_bytes fields start children stop level.2

theorem ItemsLaid.le {index : Nat}
    (laid : ItemsLaid (Field.LevelLaid rule fields) index start nodes stop) : start ≤ stop := by
  rw [laid.stop_eq]
  exact Nat.le_add_right start _

theorem Field.Laid.level {name : String} {inner : List Field}
    (laid : (Field.composite name inner).Laid rule start node) :
    Field.LevelLaid rule inner node.offset node.children node.stop := by
  obtain ⟨length, children, rfl, level⟩ := laid
  exact level

/-- A group is its items and its end, or it is absent. -/
theorem Field.Laid.items {name : String} {inner : List Field} {repetition : Repetition}
    {condition : Option Condition}
    (laid : (Field.group name inner repetition condition).Laid rule start node) :
    node.children = [] ∧ node.length = 0 ∨
      ∃ last, ItemsLaid (Field.LevelLaid rule inner) 0 node.offset node.children last ∧
        node.stop = last + repetition.ending.length := by
  obtain ⟨length, items, rfl, laid⟩ := laid
  exact laid

/-- A level becomes an item of the length from its start to its stop. -/
theorem ItemsLaid.cons {children : List Node} {index middle : Nat}
    (first : Field.LevelLaid rule fields start children middle)
    (follow : ItemsLaid (Field.LevelLaid rule fields) (index + 1) middle nodes stop) :
    ItemsLaid (Field.LevelLaid rule fields) index start
      (.branch (toString index) ⟨start, middle - start⟩ .item children :: nodes) stop := by
  have length := Nat.add_sub_cancel' first.2.le
  exact ⟨_, children, rfl, length.symm ▸ first, length.symm ▸ follow⟩

theorem Field.LevelLaid.composite {name : String}
    (level : Field.LevelLaid rule fields start nodes stop) :
    (Field.composite name fields).Laid rule start
      (.branch name ⟨start, stop - start⟩ .composite nodes) := by
  have length := Nat.add_sub_cancel' level.2.le
  exact ⟨_, nodes, rfl, level.1, length.symm ▸ level.2⟩

section Group

variable {name : String} {repetition : Repetition} {condition : Option Condition}

theorem Field.laid_absent :
    (Field.group name fields repetition condition).Laid rule start
      (.branch name ⟨start, 0⟩ .group []) :=
  ⟨0, [], rfl, .inl ⟨rfl, rfl⟩⟩

/-- Items and their end become a group. -/
theorem ItemsLaid.group (laid : ItemsLaid (Field.LevelLaid rule fields) 0 start nodes stop) :
    (Field.group name fields repetition condition).Laid rule start
      (.branch name ⟨start, stop + repetition.ending.length - start⟩ .group nodes) := by
  have after := laid.le
  exact ⟨_, nodes, rfl, .inr ⟨stop, laid, by omega⟩⟩

end Group

end Laid

section Settled

variable {siblings others earlier later : List Node} {repetition : Repetition}
  {condition : Option Condition} {node : Node}

/-- A group whose condition does not hold is settled when it is empty. -/
theorem GroupSettled.of_absent (verdict : verdict? condition siblings = some false)
    (empty : node.children = []) (short : node.length = 0) :
    GroupSettled siblings repetition condition node := by
  refine ⟨⟨⟨false, verdict⟩, fun _ => ⟨empty, short⟩, ?_, ?_⟩, ?_⟩
  all_goals
    intro present
    rw [verdict] at present
    nomatch present

theorem GroupFilled.of_present (verdict : verdict? condition siblings = some true)
    (fixed : ∀ count, repetition = .fixed count → node.children.length = count)
    (terminated : repetition = .zeroTerminated → 0 < node.length) :
    GroupFilled siblings repetition condition node := by
  refine ⟨⟨true, verdict⟩, fun absent => ?_, fun _ => fixed, fun _ => terminated⟩
  rw [verdict] at absent
  nomatch absent

/-- A group that holds an item is present. -/
theorem GroupFilled.present (filled : GroupFilled siblings repetition condition node) {item : Node}
    (held : item ∈ node.children) : verdict? condition siblings = some true := by
  obtain ⟨present, verdict⟩ := filled.decided
  cases present with
  | true => exact verdict
  | false =>
    rw [(filled.absent verdict).1] at held
    nomatch held

theorem GroupFilled.transfer (filled : GroupFilled siblings repetition condition node)
    (same : verdict? condition others = verdict? condition siblings) :
    GroupFilled others repetition condition node := by
  obtain ⟨decided, absent, fixed, terminated⟩ := filled
  exact ⟨same ▸ decided, same ▸ absent, same ▸ fixed, same ▸ terminated⟩

/-- What earlier siblings settle stays settled when more siblings follow. -/
theorem GroupFilled.verdict_append (filled : GroupFilled earlier repetition condition node)
    (later : List Node) : verdict? condition (earlier ++ later) = verdict? condition earlier := by
  obtain ⟨present, verdict⟩ := filled.decided
  exact (verdict?_append verdict).trans verdict.symm

theorem GroupSettled.append (settled : GroupSettled earlier repetition condition node) :
    GroupSettled (earlier ++ later) repetition condition node := by
  have same := settled.verdict_append later
  refine ⟨settled.transfer same, ?_⟩
  rw [same]
  intro holds countField zeroBased counted
  exact siblingInteger?_append (settled.counted holds countField zeroBased counted)

theorem Field.Settled.filled {field : Field} (settled : field.Settled siblings node) :
    field.Filled siblings node := by
  cases field with
  | scalar => trivial
  | composite => trivial
  | group => exact GroupSettled.toGroupFilled settled

theorem decided_of_filled {fields : List Field} {nodes : List Node}
    (filled : ∀ pair ∈ fields.zip nodes, pair.1.Filled nodes pair.2) : Decided fields nodes := by
  rintro ⟨field, node⟩ member
  have filled := filled _ member
  cases field with
  | scalar => exact ⟨true, rfl⟩
  | composite => exact ⟨true, rfl⟩
  | group => exact GroupFilled.decided filled

theorem Settled.decided {fields : List Field} {nodes : List Node} (settled : Settled fields nodes) :
    Decided fields nodes :=
  decided_of_filled fun pair member => (settled pair member).filled

theorem Field.Filled.append {field : Field} (filled : field.Filled earlier node) :
    field.Filled (earlier ++ later) node := by
  cases field with
  | scalar => trivial
  | composite => trivial
  | group => exact GroupFilled.transfer filled (filled.verdict_append later)

theorem Field.Settled.append {field : Field} (settled : field.Settled earlier node) :
    field.Settled (earlier ++ later) node := by
  cases field with
  | scalar => trivial
  | composite => trivial
  | group => exact GroupSettled.append settled

end Settled
end ResourceTemplate
