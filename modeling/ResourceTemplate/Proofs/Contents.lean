import ResourceTemplate.Proofs.Resettling

/-! What a tree holds apart from where it stands. The bytes of a tree and what settling makes of it
depend on its contents alone: from another start, and at another path, settling gives the same
contents further on. -/
namespace ResourceTemplate

mutual
/-- A node without the offsets: what it holds and how long it is, wherever it stands. -/
def Node.content : Node → Node
  | .scalar name span held => .scalar name ⟨0, span.length⟩ held
  | .branch name span tag children => .branch name ⟨0, span.length⟩ tag (contents children)

def Node.contents : List Node → List Node
  | [] => []
  | node :: nodes => node.content :: contents nodes
end

section Content

variable {node other : Node} {nodes others : List Node}

theorem Node.contents_eq (nodes : List Node) : Node.contents nodes = nodes.map Node.content := by
  induction nodes with
  | nil => rfl
  | cons node nodes ih => rw [contents, ih, List.map_cons]

@[simp] theorem Node.name_content (node : Node) : node.content.name = node.name := by
  cases node <;> rfl

@[simp] theorem Node.length_content (node : Node) : node.content.length = node.length := by
  cases node <;> rfl

@[simp] theorem Node.scalar?_content (node : Node) : node.content.scalar? = node.scalar? := by
  cases node <;> rfl

@[simp] theorem Node.children_content (node : Node) :
    node.content.children = Node.contents node.children := by
  cases node <;> rfl

@[simp] theorem Node.length_contents (nodes : List Node) : (contents nodes).length = nodes.length := by
  rw [contents_eq, List.length_map]

theorem Node.length_of_contents (same : Node.contents nodes = Node.contents others) :
    nodes.length = others.length := by
  simpa using congrArg List.length same

theorem Node.children_of_content (same : node.content = other.content) :
    Node.contents node.children = Node.contents other.children := by
  simpa using congrArg Node.children same

theorem Node.face_of_content (same : node.content = other.content) : node.face = other.face := by
  rw [face, face, ← name_content node, ← scalar?_content node, same, name_content, scalar?_content]

theorem Node.scalar?_of_content (same : node.content = other.content) :
    node.scalar? = other.scalar? :=
  (Prod.mk.inj (face_of_content same)).2

theorem Node.faces_of_contents (same : Node.contents nodes = Node.contents others) :
    nodes.map Node.face = others.map Node.face := by
  induction nodes generalizing others with
  | nil =>
    cases others with
    | nil => rfl
    | cons => nomatch same
  | cons node nodes ih =>
    cases others with
    | nil => nomatch same
    | cons other others =>
      obtain ⟨head, tail⟩ := List.cons.inj same
      rw [List.map_cons, List.map_cons, face_of_content head, ih tail]

theorem Node.getElem?_of_contents {position : Nat} (same : Node.contents nodes = Node.contents others)
    (there : nodes[position]? = some node) :
    ∃ other, others[position]? = some other ∧ other.content = node.content := by
  have known : (others.map Node.content)[position]? = some node.content := by
    rw [← contents_eq, ← same, contents_eq, List.getElem?_map, there]
    rfl
  rw [List.getElem?_map, Option.map_eq_some_iff] at known
  exact known

@[simp] theorem Node.contents_append (nodes others : List Node) :
    Node.contents (nodes ++ others) = Node.contents nodes ++ Node.contents others := by
  simp [contents_eq]

/-- Lists of nodes that differ in one place have the same contents elsewhere. -/
theorem Node.contents_eq_set {position : Nat} (sized : others.length = nodes.length)
    (there : others[position]? = some other)
    (alike : ∀ place node, place ≠ position → nodes[place]? = some node →
      ∃ again, others[place]? = some again ∧ again.content = node.content) :
    Node.contents others = (Node.contents nodes).set position other.content := by
  rw [contents_eq, contents_eq]
  apply List.ext_getElem?
  intro place
  by_cases here : place = position
  · subst here
    have inside := (List.getElem?_eq_some_iff.mp there).1
    rw [List.getElem?_map, there, List.getElem?_set_self (by simpa [← sized] using inside)]
    rfl
  · rw [List.getElem?_set_ne (Ne.symm here), List.getElem?_map, List.getElem?_map]
    cases before : nodes[place]? with
    | none =>
      have outside := List.getElem?_eq_none_iff.mp before
      rw [List.getElem?_eq_none (sized ▸ outside)]
    | some node =>
      obtain ⟨again, found, same⟩ := alike place node here before
      simp [found, same]

end Content

mutual
/-- A node stands for the same bytes wherever it stands. -/
theorem Field.bytes_content :
    (field : Field) → (node : Node) → field.bytes node.content = field.bytes node
  | .scalar _ type, node => by rw [Field.bytes, Field.bytes, Node.scalar?_content]
  | .composite _ fields, node => by
    rw [Field.bytes, Field.bytes, Node.children_content, Field.bytesAll_contents fields]
  | .group _ fields repetition _, node => by
    have each : (fun item : Node => Field.bytesAll fields item.content.children) =
        fun item => Field.bytesAll fields item.children := by
      funext item
      rw [Node.children_content, Field.bytesAll_contents fields]
    rw [Field.bytes, Field.bytes, Node.children_content, Node.length_content, Node.contents_eq,
      List.flatMap_map, each]

theorem Field.bytesAll_contents :
    (fields : List Field) → (nodes : List Node) →
      Field.bytesAll fields (Node.contents nodes) = Field.bytesAll fields nodes
  | [], _ => rfl
  | _ :: _, [] => rfl
  | field :: fields, node :: nodes => by
    rw [Node.contents, Field.bytesAll, Field.bytesAll, Field.bytes_content field,
      Field.bytesAll_contents fields]
end

/-- A list is cut around an element. -/
theorem split_at {α : Type} {xs : List α} {position : Nat} {x : α} (there : xs[position]? = some x) :
    ∃ front back, xs = front ++ [x] ++ back ∧ front.length = position := by
  obtain ⟨inside, rfl⟩ := List.getElem?_eq_some_iff.mp there
  exact ⟨xs.take position, xs.drop (position + 1), by simp, List.length_take_of_le inside.le⟩

/-- Nodes under the names of items, counted from `index`. -/
def numbered : (index : Nat) → List Node → List Node
  | _, [] => []
  | index, node :: nodes =>
    .branch (toString index) node.span .item node.children :: numbered (index + 1) nodes

theorem numbered_append (index : Nat) (first last : List Node) :
    numbered index (first ++ last) = numbered index first ++ numbered (index + first.length) last := by
  induction first generalizing index with
  | nil => rfl
  | cons node first ih =>
    rw [List.cons_append, numbered, ih, numbered, List.cons_append, List.length_cons, Nat.add_assoc,
      Nat.add_comm 1]

theorem ItemsLaid.numbered_eq {level : Nat → List Node → Nat → Prop} {index start stop : Nat}
    {nodes : List Node} (laid : ItemsLaid level index start nodes stop) :
    numbered index nodes = nodes := by
  induction nodes generalizing index start with
  | nil => rfl
  | cons node nodes ih =>
    obtain ⟨length, children, rfl, _, follow⟩ := laid
    rw [numbered, ih follow]
    rfl

/-- Items that follow one another do so on both sides of any place between them. -/
theorem ItemsLaid.append {level : Nat → List Node → Nat → Prop} {index start stop : Nat}
    {first last : List Node} :
    ItemsLaid level index start (first ++ last) stop ↔
      ∃ middle, ItemsLaid level index start first middle ∧
        ItemsLaid level (index + first.length) middle last stop := by
  induction first generalizing index start with
  | nil => simp [ItemsLaid]
  | cons node first ih =>
    simp only [List.cons_append, ItemsLaid, ih, List.length_cons, Nat.add_comm first.length,
      ← Nat.add_assoc]
    constructor
    · rintro ⟨length, children, made, level, middle, head, tail⟩
      exact ⟨middle, ⟨length, children, made, level, head⟩, tail⟩
    · rintro ⟨middle, ⟨length, children, made, level, head⟩, tail⟩
      exact ⟨length, children, made, level, middle, head, tail⟩

theorem settleItems_append {item : ItemSettler} {first last items : List Node}
    {index start stop : Nat} :
    settleItems item (first ++ last) index start = .ok (items, stop) ↔
      ∃ front middle back, settleItems item first index start = .ok (front, middle) ∧
        settleItems item last (index + first.length) middle = .ok (back, stop) ∧
        items = front ++ back := by
  induction first generalizing index start items with
  | nil =>
    constructor
    · intro settled
      exact ⟨[], start, items, rfl, settled, rfl⟩
    · rintro ⟨front, middle, back, empty, settled, rfl⟩
      obtain ⟨rfl, rfl⟩ := Prod.mk.inj (pure_eq_ok.mp empty)
      exact settled
  | cons node first ih =>
    simp only [List.cons_append, settleItems_cons, ih, List.length_cons, Nat.add_comm first.length,
      ← Nat.add_assoc]
    constructor
    · rintro ⟨again, _, alone, ⟨front, middle, back, head, tail, rfl⟩, rfl⟩
      exact ⟨_, middle, back, ⟨again, front, alone, head, rfl⟩, tail, rfl⟩
    · rintro ⟨_, middle, back, ⟨again, front, alone, head, rfl⟩, tail, rfl⟩
      exact ⟨again, _, alone, ⟨front, middle, back, head, tail, rfl⟩, rfl⟩

section Settled

variable {siblings others : List Node} {node other : Node}

theorem GroupFilled.of_content {repetition : Repetition} {condition : Option Condition}
    (filled : GroupFilled siblings repetition condition node) (same : node.content = other.content)
    (verdicts : verdict? condition others = verdict? condition siblings) :
    GroupFilled others repetition condition other := by
  obtain ⟨decided, absent, fixed, terminated⟩ := filled.transfer verdicts
  have items := Node.length_of_contents (Node.children_of_content same)
  have length : node.length = other.length := by
    rw [← Node.length_content, same, Node.length_content]
  refine ⟨decided, fun verdict => ?_, fun verdict count repeated => ?_, length ▸ terminated⟩
  · obtain ⟨empty, short⟩ := absent verdict
    rw [empty, List.length_nil] at items
    exact ⟨List.eq_nil_of_length_eq_zero items.symm, length ▸ short⟩
  · rw [← items, fixed verdict count repeated]

/-- Only the names and the values of siblings matter. -/
theorem Field.Filled.congr {field : Field} (filled : field.Filled siblings node)
    (faces : others.map Node.face = siblings.map Node.face) : field.Filled others node := by
  cases field with
  | scalar => trivial
  | composite => trivial
  | group name inner repetition condition => exact GroupFilled.transfer filled (verdict?_congr faces _)

/-- What is settled stays so in other places. -/
theorem Settled.of_contents {fields : List Field} {nodes : List Node} (settled : Settled fields nodes)
    (same : Node.contents nodes = Node.contents others) : Settled fields others := by
  rintro ⟨field, other⟩ member
  obtain ⟨position, paired⟩ := List.mem_iff_getElem?.mp member
  obtain ⟨declared, there⟩ := List.getElem?_zip_eq_some.mp paired
  obtain ⟨node, before, alike⟩ := Node.getElem?_of_contents same.symm there
  have faces := Node.faces_of_contents same
  have kept := settled _ (mem_zip_of_getElem? declared before)
  cases field with
  | scalar => trivial
  | composite => trivial
  | group name inner repetition condition =>
    have verdicts := verdict?_congr faces condition
    refine ⟨GroupFilled.of_content kept.toGroupFilled alike verdicts.symm, fun present => ?_⟩
    rintro countField zeroBased rfl
    rw [siblingInteger?, ← sibling?_congr faces, ← siblingInteger?,
      kept.counted (verdicts.trans present) countField zeroBased rfl,
      Node.length_of_contents (Node.children_of_content alike)]

end Settled

section Level

variable {fields : List Field} {nodes items result : List Node} {parent : Path}
  {index start stop place last : Nat}

/-- Settling keeps the contents and the length of what is settled under these fields. -/
def Keeps (fields : List Field) : Prop :=
  ∀ start nodes stop, Field.LevelLaid Settled fields start nodes stop → ∀ parent place,
    ∃ result last, settleLevel fields nodes parent place = .ok (result, last) ∧
      Node.contents result = Node.contents nodes ∧ last + start = stop + place

/-- A level is kept when its fields are, since its counts are held already. -/
theorem keeps_of_fields (kept : ∀ start nodes stop, Field.LaidAll Settled fields start nodes stop →
    Settled fields nodes → ∀ parent place,
      ∃ result last, settleFields fields nodes [] parent place = .ok (result, last) ∧
        Node.contents result = Node.contents nodes ∧ last + start = stop + place) :
    Keeps fields := by
  intro start nodes stop level parent place
  obtain ⟨result, last, settled, same, ends⟩ := kept start nodes stop level.2 level.1 parent place
  have names : result.map Node.name = fields.map Field.name := by
    rw [← level.2.names]
    simpa [Function.comp_def, Node.face] using
      congrArg (List.map Prod.fst) (Node.faces_of_contents same)
  exact ⟨result, last,
    settleWith_settled (level.1.of_contents same.symm) level.2.names names settled, same, ends⟩

/-- Items that are settled are kept under any numbers and in any place. -/
theorem settleItems_kept {path : Path} (keeps : Keeps fields)
    (laid : ItemsLaid (Field.LevelLaid Settled fields) index start items stop) (number place : Nat) :
    ∃ result last, settleItems (settleItem fields path) items number place = .ok (result, last) ∧
      Node.contents result = Node.contents (numbered number items) ∧ last + start = stop + place := by
  induction items generalizing index start number place with
  | nil =>
    obtain rfl : stop = start := laid
    exact ⟨[], place, rfl, rfl, Nat.add_comm place stop⟩
  | cons node items ih =>
    obtain ⟨length, children, rfl, level, follow⟩ := laid
    obtain ⟨inner, middle, settled, same, ends⟩ := keeps _ _ _ level (path.index number) place
    obtain rfl : middle = place + length := by omega
    have first : settleItem fields path number
        (.branch (toString index) ⟨start, length⟩ .item children) place =
          .ok (.branch (toString number) ⟨place, length⟩ .item inner) :=
      (settleItem_eq_ok rfl).mpr ⟨inner, _, settled, by rw [Nat.add_sub_cancel_left]⟩
    obtain ⟨rest, last, others, alike, stops⟩ := ih follow (number + 1) (place + length)
    refine ⟨_, last, settleItems_cons.mpr ⟨_, rest, first, ?_, rfl⟩, ?_, by omega⟩
    · simpa [Node.stop] using others
    · rw [numbered, Node.contents, Node.contents, alike, Node.content, Node.content, same]
      rfl

/-- The items `new` are settled to `made` behind the items of `front`. Those of `front` and `back` are
kept, as `first` and `rest`. -/
structure Exchanged (fields : List Field) (front new back first made rest : List Node) : Prop where
  head : Node.contents first = Node.contents front
  settled : ∃ path place last,
    settleItems (settleItem fields path) new front.length place = .ok (made, last)
  tail : Node.contents rest = Node.contents (numbered (front.length + new.length) back)

/-- Items are exchanged for others between items that are settled, and these are kept. -/
theorem settleItems_splice {path : Path} {front old new back : List Node} (keeps : Keeps fields)
    (laid : ItemsLaid (Field.LevelLaid Settled fields) 0 start (front ++ old ++ back) stop)
    (settled : settleItems (settleItem fields path) (front ++ new ++ back) 0 place =
      .ok (items, last)) :
    ∃ first made rest, items = first ++ made ++ rest ∧
      Exchanged fields front new back first made rest := by
  obtain ⟨_, laid, later⟩ := ItemsLaid.append.mp laid
  obtain ⟨_, earlier, _⟩ := ItemsLaid.append.mp laid
  obtain ⟨_, ends, rest, both, tail, rfl⟩ := settleItems_append.mp settled
  obtain ⟨first, middle, made, head, exchanged, rfl⟩ := settleItems_append.mp both
  obtain ⟨_, _, again, same, _⟩ := settleItems_kept keeps earlier 0 place
  obtain ⟨rfl, rfl⟩ := Prod.mk.inj (Except.ok.inj (again.symm.trans head))
  obtain ⟨_, _, again, alike, _⟩ := settleItems_kept keeps later (0 + (front ++ new).length) ends
  obtain ⟨rfl, rfl⟩ := Prod.mk.inj (Except.ok.inj (again.symm.trans tail))
  rw [earlier.numbered_eq] at same
  rw [Nat.zero_add] at exchanged
  rw [Nat.zero_add, List.length_append] at alike
  exact ⟨_, made, _, rfl, same, ⟨_, _, _, exchanged⟩, alike⟩

end Level

mutual
/-- A group that is as its siblings ask, and settled within, keeps its contents in any place. -/
theorem settleField_kept :
    (field : Field) → field.Nested (·.check = .ok ()) → (start : Nat) → (node : Node) →
      field.Laid Settled start node → (before : List Node) → field.Filled before node →
      (path : Path) → (place : Nat) →
      ∃ again, settleField field node before path place = .ok again ∧ again.content = node.content ∧
        again.offset = place
  | .scalar name type, _, start, _, ⟨held, same, _⟩, _, _, _, place => by
    subst same
    exact ⟨_, rfl, rfl, rfl⟩
  | .composite name fields, ⟨checked, nested⟩, start, _, ⟨length, children, same, level⟩, _, _,
      path, place => by
    subst same
    have keeps : Keeps fields := keeps_of_fields fun start nodes stop laid settled =>
      settleFields_kept fields nested [] checked start [] start ⟨rfl, rfl⟩ nodes stop laid settled [] rfl
    obtain ⟨inner, last, settled, same, ends⟩ := keeps _ _ _ level path place
    obtain rfl : last = place + length := by omega
    refine ⟨_, settleField_composite.mpr ⟨inner, _, settled, rfl⟩, ?_, rfl⟩
    rw [Node.content, Node.content, same, Nat.add_sub_cancel_left]
  | .group name fields repetition condition, ⟨checked, nested⟩, start, _,
      ⟨length, items, same, laid⟩, before, filled, path, place => by
    subst same
    obtain ⟨present, verdict⟩ := filled.decided
    cases present with
    | false =>
      obtain ⟨rfl, rfl⟩ : items = [] ∧ length = 0 := filled.absent verdict
      exact ⟨_, settleField_group.mpr (.inl ⟨verdict, rfl⟩), rfl, rfl⟩
    | true =>
      obtain ⟨stop, laid, ends⟩ := itemsLaid_of_present laid (filled.terminated verdict)
      have keeps : Keeps fields := keeps_of_fields fun start nodes stop laid settled =>
        settleFields_kept fields nested [] checked start [] start ⟨rfl, rfl⟩ nodes stop laid settled []
          rfl
      obtain ⟨result, last, settled, same, stops⟩ := settleItems_kept keeps laid 0 place
      rw [laid.numbered_eq] at same
      have kept : fillItems fields repetition items = items := fillItems_eq (filled.fixed verdict)
      have length : last + repetition.ending.length - place = length := by omega
      refine ⟨_, settleField_group.mpr
        (.inr ⟨verdict, result, last, by rw [kept, settled], rfl⟩), ?_, rfl⟩
      rw [Node.content, Node.content, same, length]

theorem settleFields_kept :
    (fields : List Field) → Field.AllNested (·.check = .ok ()) fields → (earlier : List Field) →
      Template.checkFrom earlier fields = .ok () → (origin : Nat) → (before : List Node) →
      (start : Nat) → Field.LaidAll Settled earlier origin before start → (nodes : List Node) →
      (stop : Nat) → Field.LaidAll Settled fields start nodes stop →
      (∀ pair ∈ fields.zip nodes, pair.1.Settled (before ++ nodes) pair.2) → (others : List Node) →
      others.map Node.face = before.map Node.face → (parent : Path) → (place : Nat) →
      ∃ result last, settleFields fields nodes others parent place = .ok (result, last) ∧
        Node.contents result = Node.contents nodes ∧ last + start = stop + place
  | [], _, _, _, _, _, start, _, _, stop, ⟨empty, ends⟩, _, _, _, _, place => by
    subst empty ends
    exact ⟨[], place, rfl, rfl, Nat.add_comm place stop⟩
  | field :: fields, ⟨formed, nested⟩, earlier, checked, origin, before, start, already, _, stop,
      ⟨node, rest, same, first, follow⟩, settled, others, faces, parent, place => by
    subst same
    obtain ⟨follows, checked⟩ := Template.checkFrom_cons.mp checked
    rw [List.zip_cons_cons, List.forall_mem_cons] at settled
    have early : field.Settled before node := .of_append follows already settled.1
    obtain ⟨again, alone, alike, stands⟩ := settleField_kept field formed start node first others
      (early.filled.congr faces) (parent.child field.name) place
    have length : again.length = node.length := by
      rw [← Node.length_content, alike, Node.length_content]
    have shown : (others ++ [again]).map Node.face = (before ++ [node]).map Node.face := by
      simp [faces, Node.face_of_content alike]
    obtain ⟨result, last, tail, same, ends⟩ := settleFields_kept fields nested (earlier ++ [field])
      checked origin (before ++ [node]) node.stop (already.append first) rest stop follow
      (by simpa using settled.2) (others ++ [again]) shown parent again.stop
    refine ⟨again :: result, last, settleFields_cons.mpr ⟨again, result, alone, tail, rfl⟩, ?_, ?_⟩
    · rw [Node.contents, Node.contents, alike, same]
    · have before := first.stop_eq
      have after : again.stop = place + node.length := by rw [Node.stop, stands, length]
      omega
end

/-- A settled level is kept in any place. -/
theorem settleLevel_kept {fields : List Field} (checked : Template.check fields = .ok ())
    (nested : Field.AllNested (·.check = .ok ()) fields) : Keeps fields :=
  keeps_of_fields fun start nodes stop laid settled =>
    settleFields_kept fields nested [] checked start [] start ⟨rfl, rfl⟩ nodes stop laid settled [] rfl

end ResourceTemplate
