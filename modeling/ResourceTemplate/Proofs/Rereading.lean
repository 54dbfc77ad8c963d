import ResourceTemplate.Proofs.DecodedLayout
import ResourceTemplate.Proofs.EarlierSiblings

/-! Reading what was written. The bytes of a laid out and settled tree decode to that tree, but for
the bits of its booleans, when no list holds an item that looks like its end, items take up bytes
and nothing follows a group that takes all bytes. -/
namespace ResourceTemplate

mutual
/-- A node without the bits that its booleans were read from. -/
def Node.forgetBits : Node → Node
  | .scalar name span held => .scalar name span held.forgetBits
  | .branch name span tag children => .branch name span tag (forgetBitsAll children)

def Node.forgetBitsAll : List Node → List Node
  | [] => []
  | node :: nodes => node.forgetBits :: forgetBitsAll nodes
end

section Forgotten

variable {node other : Node} {nodes others : List Node}

@[simp] theorem Node.name_forgetBits (node : Node) : node.forgetBits.name = node.name := by
  cases node <;> rfl

@[simp] theorem Node.value?_forgetBits (node : Node) : node.forgetBits.value? = node.value? := by
  cases node with
  | scalar name span held => simp [forgetBits]
  | branch => rfl

theorem Node.forgetBitsAll_append (nodes others : List Node) :
    Node.forgetBitsAll (nodes ++ others) = Node.forgetBitsAll nodes ++ Node.forgetBitsAll others := by
  induction nodes with
  | nil => rfl
  | cons node nodes ih => rw [List.cons_append, forgetBitsAll, forgetBitsAll, ih, List.cons_append]

theorem sibling?_forgetBits (nodes : List Node) (name : String) :
    sibling? (Node.forgetBitsAll nodes) name = sibling? nodes name := by
  induction nodes with
  | nil => rfl
  | cons node nodes ih =>
    by_cases here : node.name = name
    · simp [Node.forgetBitsAll, sibling?, here]
    · simpa [Node.forgetBitsAll, sibling?, here] using ih

/-- The bits of booleans settle nothing. -/
theorem sibling?_of_forgotten (same : Node.forgetBitsAll nodes = Node.forgetBitsAll others)
    (name : String) : sibling? nodes name = sibling? others name := by
  rw [← sibling?_forgetBits nodes, same, sibling?_forgetBits others]

theorem Field.Settled.of_forgotten {field : Field} {node : Node} (settled : field.Settled others node)
    (same : Node.forgetBitsAll nodes = Node.forgetBitsAll others) : field.Settled nodes node := by
  cases field with
  | scalar => trivial
  | composite => trivial
  | group name fields repetition condition =>
    have verdict : verdict? condition nodes = verdict? condition others := by
      cases condition with
      | none => rfl
      | some condition => simp [verdict?, sibling?_of_forgotten same]
    refine ⟨settled.transfer verdict, ?_⟩
    rw [verdict]
    intro holds countField zeroBased counted
    rw [siblingInteger?, sibling?_of_forgotten same]
    exact settled.counted holds countField zeroBased counted

end Forgotten

section Width

variable {fields : List Field} {items : List Node} {index start stop : Nat}

theorem ItemsLaid.width_le {level : Nat → List Node → Nat → Prop} {width : Nat}
    (wide : ∀ start children stop, level start children stop → start + width ≤ stop)
    (laid : ItemsLaid level index start items stop) : start + items.length * width ≤ stop := by
  induction items generalizing index start with
  | nil =>
    obtain rfl : stop = start := laid
    simp
  | cons item items ih =>
    obtain ⟨length, children, rfl, level, follow⟩ := laid
    have head := wide _ _ _ level
    have tail := ih follow
    rw [List.length_cons, Nat.succ_mul]
    omega

mutual
/-- A settled field takes up at least its fewest bytes. -/
theorem minWidth_le :
    (field : Field) → (start : Nat) → (node : Node) → field.Laid Settled start node →
      (siblings : List Node) → field.Settled siblings node → field.minWidth ≤ node.length
  | .scalar _ type, _, _, ⟨held, same, _⟩, _, _ => by
    subst same
    exact type.minWidth_le_encodedLength held.value
  | .composite _ fields, start, _, ⟨length, children, same, settled, laid⟩, _, _ => by
    subst same
    exact Nat.le_of_add_le_add_left (minWidths_le fields start children _ laid [] settled)
  | .group _ fields repetition (some condition), _, _, _, _, _ => Nat.zero_le _
  | .group _ fields (.fixed count) none, start, _, ⟨length, items, same, laid⟩, _, settled => by
    subst same
    obtain ⟨last, laid, ends⟩ := itemsLaid_of_present laid nofun
    have wide := laid.width_le fun start children stop ⟨settled, laid⟩ =>
      minWidths_le fields start children stop laid [] settled
    have sized : items.length = count := settled.fixed rfl count rfl
    rw [sized] at wide
    simp only [Repetition.ending, reduceCtorEq, if_false, List.length_nil] at ends
    simp only [Field.minWidth, Node.length_branch]
    omega
  | .group _ _ (.counted ..) none, _, _, _, _, _ => Nat.zero_le _
  | .group _ _ .untilEnd none, _, _, _, _, _ => Nat.zero_le _
  | .group _ _ .zeroTerminated none, _, _, _, _, settled => settled.terminated rfl rfl

theorem minWidths_le :
    (fields : List Field) → (start : Nat) → (nodes : List Node) → (stop : Nat) →
      Field.LaidAll Settled fields start nodes stop → (before : List Node) →
      (∀ pair ∈ fields.zip nodes, pair.1.Settled (before ++ nodes) pair.2) →
      start + Field.minWidths fields ≤ stop
  | [], _, _, _, ⟨_, ends⟩, _, _ => Nat.le_of_eq ends.symm
  | field :: fields, start, _, stop, ⟨node, rest, same, first, follow⟩, before, settled => by
    subst same
    rw [List.zip_cons_cons, List.forall_mem_cons] at settled
    have head := minWidth_le field start node first _ settled.1
    have tail := minWidths_le fields node.stop rest stop follow (before ++ [node])
      (by simpa using settled.2)
    rw [first.stop_eq] at tail
    rw [Field.minWidths]
    omega
end

theorem bytesAll_pos {children : List Node}
    (level : Field.LevelLaid Settled fields start children stop)
    (wide : 0 < Field.minWidths fields) : 0 < (Field.bytesAll fields children).length := by
  have sized := Field.LaidAll.length_bytes fields start children stop level.2
  have least := minWidths_le fields start children stop level.2 [] level.1
  omega

end Width

def ItemDecoder.Rereads (item : ItemDecoder) (fields : List Field) : Prop :=
  ∀ index start children stop rest, Field.LevelLaid Settled fields start children stop →
    Field.zeroItems? fields children = none →
    ∃ again, item index ⟨start, Field.bytesAll fields children ++ rest⟩ =
        .ok (.branch (toString index) ⟨start, stop - start⟩ .item again, ⟨stop, rest⟩) ∧
      Node.forgetBitsAll again = Node.forgetBitsAll children

theorem atEnd_append {first : Bytes} (offset : Nat) (rest : Bytes) (some_bytes : 0 < first.length) :
    Input.atEnd ⟨offset, first ++ rest⟩ = false := by
  cases first with
  | nil => nomatch some_bytes
  | cons => rfl

section Items

variable {fields : List Field} {item : ItemDecoder} (rereads : item.Rereads fields)
  {items : List Node} {index start stop : Nat}
  (laid : ItemsLaid (Field.LevelLaid Settled fields) index start items stop)
  (clean : ∀ item ∈ items, Field.zeroItems? fields item.children = none)
include rereads laid clean

theorem decodeTimes_rereads (rest : Bytes) :
    ∃ again, decodeTimes item items.length index
        ⟨start, items.flatMap (fun item => Field.bytesAll fields item.children) ++ rest⟩ =
        .ok (again, ⟨stop, rest⟩) ∧
      Node.forgetBitsAll again = Node.forgetBitsAll items := by
  induction items generalizing index start with
  | nil =>
    obtain rfl : stop = start := laid
    exact ⟨[], rfl, rfl⟩
  | cons node items ih =>
    obtain ⟨length, children, rfl, level, follow⟩ := laid
    obtain ⟨head, others⟩ := List.forall_mem_cons.mp clean
    obtain ⟨first, read, same⟩ := rereads index start children (start + length)
      (items.flatMap (fun item => Field.bytesAll fields item.children) ++ rest) level head
    obtain ⟨again, tail, rests⟩ := ih follow others
    refine ⟨.branch (toString index) ⟨start, length⟩ .item first :: again, ?_, ?_⟩
    · rw [List.flatMap_cons, List.append_assoc, List.length_cons, decodeTimes, Node.children_branch,
        read, ok_bind, Nat.add_sub_cancel_left]
      dsimp only
      rw [tail]
      rfl
    · simp only [Node.forgetBitsAll, Node.forgetBits, same, rests]

variable (wide : 0 < Field.minWidths fields)
include wide

/-- Items that take up bytes are read until none are left. -/
theorem decodeToEnd_rereads (path : Path) :
    ∃ again, decodeToEnd item path index
        ⟨start, items.flatMap (fun item => Field.bytesAll fields item.children)⟩ =
        .ok (again, ⟨stop, []⟩) ∧
      Node.forgetBitsAll again = Node.forgetBitsAll items := by
  induction items generalizing index start with
  | nil =>
    obtain rfl : stop = start := laid
    refine ⟨[], ?_, rfl⟩
    rw [decodeToEnd]
    rfl
  | cons node items ih =>
    obtain ⟨length, children, rfl, level, follow⟩ := laid
    obtain ⟨head, others⟩ := List.forall_mem_cons.mp clean
    obtain ⟨first, read, same⟩ := rereads index start children (start + length)
      (items.flatMap fun item => Field.bytesAll fields item.children) level head
    obtain ⟨again, tail, rests⟩ := ih follow others
    have taken := bytesAll_pos level wide
    refine ⟨.branch (toString index) ⟨start, length⟩ .item first :: again, ?_, ?_⟩
    · have more := atEnd_append start
        (items.flatMap fun item => Field.bytesAll fields item.children) taken
      rw [List.flatMap_cons, Node.children_branch, decodeToEnd, more, if_neg Bool.false_ne_true, read,
        ok_bind, Nat.add_sub_cancel_left]
      dsimp only
      rw [dif_pos (by simp only [Input.remaining, List.length_append]; omega), tail]
      rfl
    · simp only [Node.forgetBitsAll, Node.forgetBits, same, rests]

/-- No item is taken for the end of its list, and so the end is found behind the last item. -/
theorem decodeToZero_rereads (path : Path) (rest : Bytes)
    (apart : ∀ item ∈ items, (Field.bytesAll fields item.children).head? ≠ some 0) :
    ∃ again, decodeToZero item path index
        ⟨start, items.flatMap (fun item => Field.bytesAll fields item.children) ++ 0 :: rest⟩ =
        .ok (again, ⟨stop + 1, rest⟩) ∧
      Node.forgetBitsAll again = Node.forgetBitsAll items := by
  induction items generalizing index start with
  | nil =>
    obtain rfl : stop = start := laid
    refine ⟨[], ?_, rfl⟩
    rw [decodeToZero]
    rfl
  | cons node items ih =>
    obtain ⟨length, children, rfl, level, follow⟩ := laid
    obtain ⟨head, others⟩ := List.forall_mem_cons.mp clean
    obtain ⟨nonzero, apart⟩ := List.forall_mem_cons.mp apart
    obtain ⟨first, read, same⟩ := rereads index start children (start + length)
      (items.flatMap (fun item => Field.bytesAll fields item.children) ++ 0 :: rest) level head
    obtain ⟨again, tail, rests⟩ := ih follow others apart
    have taken := bytesAll_pos level wide
    refine ⟨.branch (toString index) ⟨start, length⟩ .item first :: again, ?_, ?_⟩
    · rw [Node.children_branch] at nonzero
      rw [List.flatMap_cons, List.append_assoc, Node.children_branch, decodeToZero]
      split
      · next none =>
        have short := congrArg List.length none
        simp only [List.length_append, List.length_nil] at short
        omega
      · next zero =>
        cases whole : Field.bytesAll fields children with
        | nil => simp [whole] at taken
        | cons byte bytes =>
          simp only [whole, List.cons_append, List.cons.injEq] at zero
          simp [whole, zero.1] at nonzero
      · rw [read, ok_bind, Nat.add_sub_cancel_left]
        dsimp only
        rw [dif_pos (by simp only [Input.remaining, List.length_append]; omega), tail]
        rfl
    · simp only [Node.forgetBitsAll, Node.forgetBits, same, rests]

end Items

section Groups

variable {fields : List Field} {item : ItemDecoder} {items : List Node} {start last : Nat}

/-- The items of a group that is present are read again, with its end. -/
theorem decodeItems_rereads (rereads : item.Rereads fields)
    (laid : ItemsLaid (Field.LevelLaid Settled fields) 0 start items last)
    (clean : ∀ item ∈ items, Field.zeroItems? fields item.children = none)
    (wide : 0 < Field.minWidths fields) {repetition : Repetition} {siblings : List Node}
    (apart : repetition = .zeroTerminated →
      ∀ item ∈ items, (Field.bytesAll fields item.children).head? ≠ some 0)
    (fixed : ∀ count, repetition = .fixed count → items.length = count)
    (counted : ∀ countField zeroBased, repetition = .counted countField zeroBased →
      siblingInteger? siblings countField = some (countValue zeroBased items.length))
    (path : Path) (rest : Bytes) (ended : repetition = .untilEnd → rest = []) :
    ∃ again, decodeItems .fitting (Field.minWidths fields) repetition siblings item path
        ⟨start, items.flatMap (fun item => Field.bytesAll fields item.children) ++
          repetition.ending ++ rest⟩ = .ok (again, ⟨last + repetition.ending.length, rest⟩) ∧
      Node.forgetBitsAll again = Node.forgetBitsAll items := by
  have fitting : CountBound.fitting (Field.minWidths fields) items.length
      (Input.remaining ⟨start, items.flatMap (fun item => Field.bytesAll fields item.children) ++ rest⟩)
      = true := by
    have sized := laid.stop_eq
    have least := laid.width_le fun start children stop level =>
      minWidths_le fields start children stop level.2 [] level.1
    simp only [CountBound.fitting, Input.remaining, List.length_append, Bool.and_eq_true,
      decide_eq_true_eq]
    refine ⟨Int.natCast_nonneg _, ?_⟩
    rw [Nat.max_eq_left wide]
    exact_mod_cast (by omega : items.length * Field.minWidths fields ≤ _)
  obtain ⟨again, read, same⟩ := decodeTimes_rereads rereads laid clean rest
  cases repetition with
  | fixed count =>
    obtain rfl := fixed count rfl
    refine ⟨again, ?_, same⟩
    simpa [decodeItems, decodeCount, fitting, Repetition.ending] using read
  | counted countField zeroBased =>
    have stored : storedCount siblings countField zeroBased path start = .ok (items.length : Int) := by
      refine storedCount_eq_ok.mpr ⟨_, counted countField zeroBased rfl, ?_⟩
      cases zeroBased <;> simp [countValue]
    refine ⟨again, ?_, same⟩
    simpa [decodeItems, stored, ok_bind, decodeCount, fitting, Repetition.ending] using read
  | untilEnd =>
    obtain rfl := ended rfl
    obtain ⟨again, read, same⟩ := decodeToEnd_rereads rereads laid clean wide path
    refine ⟨again, ?_, same⟩
    simpa [decodeItems, Repetition.ending] using read
  | zeroTerminated =>
    obtain ⟨again, read, same⟩ := decodeToZero_rereads rereads laid clean wide path rest (apart rfl)
    refine ⟨again, ?_, same⟩
    simpa [decodeItems, Repetition.ending] using read

end Groups

structure Template.Rereadable (template : Template) : Prop where
  checked : template.check = .ok ()
  items : template.ItemsTakeBytes
  leaves : template.LeavesRest

/-- Only the last field takes all bytes that are left, and then these bytes are none. -/
structure Template.EndsWith (fields : List Field) (rest : Bytes) : Prop where
  front : ∀ field ∈ fields.dropLast, ¬ field.TakesRest
  last : ∀ field ∈ fields.getLast?, field.TakesRest → rest = []

namespace Template

variable {field : Field} {fields : List Field} {rest : Bytes}

theorem LeavesRest.endsWith (leaves : LeavesRest fields) (rest : Bytes) : EndsWith fields rest :=
  ⟨fun field member => leaves field (List.dropLast_subset fields member),
    fun field last takes => absurd takes (leaves field (List.mem_of_getLast? last))⟩

theorem EndsWith.head (ends : EndsWith (field :: fields) rest) (takes : field.TakesRest) :
    fields = [] ∧ rest = [] := by
  cases fields with
  | nil => exact ⟨rfl, ends.last field rfl takes⟩
  | cons next fields => exact absurd takes (ends.front field List.mem_cons_self)

theorem EndsWith.tail (ends : EndsWith (field :: fields) rest) : EndsWith fields rest := by
  cases fields with
  | nil => exact ⟨nofun, nofun⟩
  | cons next fields =>
    exact ⟨fun other member => ends.front other (List.mem_cons_of_mem field member),
      fun other last => ends.last other (by simpa using last)⟩

end Template

theorem checkStart_eq {field : Field} {node : Node} (written : field.minWidth ≤ node.length)
    (sized : node.length = (field.bytes node).length) (path : Path) (start : Nat) (rest : Bytes) :
    checkStart field path ⟨start, field.bytes node ++ rest⟩ = .ok () := by
  by_cases needed : 0 < field.minWidth
  · have more := atEnd_append start rest (by omega : 0 < (field.bytes node).length)
    simp [checkStart, more, pure, Except.pure]
  · simp [checkStart, needed, pure, Except.pure]

theorem spanTo_add (start length : Nat) (bytes rest : Bytes) :
    Input.spanTo ⟨start, bytes⟩ ⟨start + length, rest⟩ = ⟨start, length⟩ := by
  rw [Input.spanTo, Nat.add_sub_cancel_left]

mutual
theorem decodeField_rereads :
    (field : Field) → field.Nested Template.Rereadable → field.ItemsTakeBytes → (start : Nat) →
      (node : Node) → field.Laid Settled start node → field.zeroItem? node = none →
      (earlier : List Node) → field.Settled earlier node → (path : Path) → (rest : Bytes) →
      (field.TakesRest → rest = []) →
      ∃ again, decodeField .fitting field earlier path ⟨start, field.bytes node ++ rest⟩ =
          .ok (again, ⟨node.stop, rest⟩) ∧ again.forgetBits = node.forgetBits
  | .scalar name type, _, _, start, node, laid, _, earlier, settled, path, rest, _ => by
    have begins := checkStart_eq (minWidth_le _ start node laid earlier settled)
      (Field.Laid.length_bytes _ start node laid) path start rest
    obtain ⟨held, rfl, holds⟩ := laid
    obtain ⟨again, read, same⟩ := ScalarType.decodeScalar_stored holds path start rest
    refine ⟨.scalar name ⟨start, type.encodedLength held.value⟩ again, ?_, ?_⟩
    · exact decodeField_scalar.mpr ⟨begins, again, read,
        congrArg (Node.scalar name · again) (spanTo_add ..).symm⟩
    · rw [Node.forgetBits, Node.forgetBits, same]
  | .composite name fields, ⟨readable, nested⟩, _, start, node, laid, clean, earlier, settled, path,
      rest, _ => by
    have begins := checkStart_eq (minWidth_le _ start node laid earlier settled)
      (Field.Laid.length_bytes _ start node laid) path start rest
    obtain ⟨length, children, rfl, kept, laid⟩ := laid
    obtain ⟨again, read, same⟩ := decodeFields_rereads fields nested readable.items [] readable.checked
      start [] start ⟨rfl, rfl⟩ children _ laid clean kept [] rfl path rest (readable.leaves.endsWith rest)
    refine ⟨.branch name ⟨start, length⟩ .composite again, ?_, ?_⟩
    · exact decodeField_composite.mpr ⟨begins, again, read,
        congrArg (Node.branch name · .composite again) (spanTo_add ..).symm⟩
    · rw [Node.forgetBits, Node.forgetBits, same]
  | .group name fields repetition condition, ⟨readable, nested⟩, wide, start, node, laid, clean,
      earlier, settled, path, rest, ended => by
    have begins := checkStart_eq (minWidth_le _ start node laid earlier settled)
      (Field.Laid.length_bytes _ start node laid) path start rest
    obtain ⟨length, items, rfl, laid⟩ := laid
    obtain ⟨present, verdict⟩ := settled.decided
    cases present with
    | false =>
      obtain ⟨rfl, rfl⟩ : items = [] ∧ length = 0 := settled.absent verdict
      exact ⟨_, decodeField_group.mpr ⟨begins, .inl ⟨verdict, rfl, rfl⟩⟩, rfl⟩
    | true =>
      have terminated := settled.terminated verdict
      obtain ⟨last, laid, ends⟩ := itemsLaid_of_present laid terminated
      rw [Field.zeroItem?, firstZero_eq_none, Node.children_branch] at clean
      have rereads : (decodeItem .fitting fields path).Rereads fields := by
        intro index start children stop rest level clean
        obtain ⟨again, read, same⟩ := decodeFields_rereads fields nested readable.items []
          readable.checked start [] start ⟨rfl, rfl⟩ children stop level.2 clean level.1 [] rfl
          (path.index index) rest (readable.leaves.endsWith rest)
        exact ⟨again, decodeItem_eq_ok.mpr ⟨again, read, rfl⟩, same⟩
      obtain ⟨again, read, same⟩ := decodeItems_rereads rereads laid
        (fun item member => (clean item member).1) wide
        (fun zero item member head => by simpa [zero, head] using (clean item member).2)
        (settled.fixed verdict) (settled.counted verdict) path rest (fun same => ended (by subst same; trivial))
      have bytes : (Field.group name fields repetition condition).bytes
          (.branch name ⟨start, length⟩ .group items) =
            items.flatMap (fun item => Field.bytesAll fields item.children) ++ repetition.ending := by
        rw [Field.bytes, Node.children_branch, Repetition.closing_eq_ending terminated]
      rw [← bytes, ← ends] at read
      refine ⟨.branch name ⟨start, length⟩ .group again, ?_, ?_⟩
      · exact decodeField_group.mpr ⟨begins, .inr ⟨verdict, again, read,
          congrArg (Node.branch name · .group again) (spanTo_add ..).symm⟩⟩
      · rw [Node.forgetBits, Node.forgetBits, same]

theorem decodeFields_rereads :
    (fields : List Field) → Field.AllNested Template.Rereadable fields →
      Template.ItemsTakeBytes fields → (before : List Field) →
      Template.checkFrom before fields = .ok () → (origin : Nat) → (old : List Node) →
      (start : Nat) → Field.LaidAll Settled before origin old start → (nodes : List Node) →
      (stop : Nat) → Field.LaidAll Settled fields start nodes stop →
      Field.zeroItems? fields nodes = none →
      (∀ pair ∈ fields.zip nodes, pair.1.Settled (old ++ nodes) pair.2) → (earlier : List Node) →
      Node.forgetBitsAll earlier = Node.forgetBitsAll old → (parent : Path) → (rest : Bytes) →
      Template.EndsWith fields rest →
      ∃ again, decodeFields .fitting fields earlier parent
          ⟨start, Field.bytesAll fields nodes ++ rest⟩ = .ok (again, ⟨stop, rest⟩) ∧
        Node.forgetBitsAll again = Node.forgetBitsAll nodes
  | [], _, _, _, _, _, _, _, _, _, _, ⟨empty, ends⟩, _, _, _, _, _, _, _ => by
    subst empty ends
    exact ⟨[], rfl, rfl⟩
  | field :: fields, ⟨formed, nested⟩, wide, before, checked, origin, old, start, already, _, stop,
      ⟨node, nodes, same, first, follow⟩, clean, settled, earlier, forgotten, parent, rest, ends => by
    subst same
    obtain ⟨follows, checked⟩ := Template.checkFrom_cons.mp checked
    rw [List.zip_cons_cons, List.forall_mem_cons] at settled
    rw [Field.zeroItems?, Option.or_eq_none_iff, Option.map_eq_none_iff] at clean
    obtain ⟨head, wide⟩ := List.forall_mem_cons.mp wide
    have early : field.Settled old node := .of_append follows already settled.1
    have ending : field.TakesRest → Field.bytesAll fields nodes ++ rest = [] := by
      intro takes
      obtain ⟨rfl, rfl⟩ := ends.head takes
      rfl
    obtain ⟨first_again, read, same⟩ := decodeField_rereads field formed head start node first clean.1
      earlier (early.of_forgotten forgotten) (parent.child field.name) _ ending
    obtain ⟨again, tail, rests⟩ := decodeFields_rereads fields nested wide (before ++ [field]) checked
      origin (old ++ [node]) node.stop (already.append first) nodes stop follow clean.2
      (by simpa using settled.2) (earlier ++ [first_again])
      (by simp only [Node.forgetBitsAll_append, Node.forgetBitsAll, forgotten, same]) parent rest ends.tail
    refine ⟨first_again :: again, ?_, ?_⟩
    · rw [Field.bytesAll, List.append_assoc]
      exact decodeFields_cons.mpr ⟨first_again, _, again, read, tail, rfl⟩
    · simp only [Node.forgetBitsAll, same, rests]
end

end ResourceTemplate
