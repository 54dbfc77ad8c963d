import ResourceTemplate.Proofs.FieldOrder
import ResourceTemplate.Proofs.TreeLayout

/-! Encoding a laid out and settled tree writes the bytes that the tree stands for, whatever the
template, with one exception: an item of a zero-terminated list that would look like its end. -/
namespace ResourceTemplate

/-- The outcome of encoding at `path`, with the way from there to the item that is refused. -/
def written (path : Path) (zero : Option Path) (bytes : Bytes) : Except CodecError Bytes :=
  match zero with
  | none => return bytes
  | some rest => throw (.refused (path ++ rest) .zeroItem)

theorem written_eq_ok {path : Path} {zero : Option Path} {bytes result : Bytes} :
    written path zero bytes = .ok result ↔ zero = none ∧ bytes = result := by
  cases zero <;> simp [written]

theorem encodeItems_eq {item : ItemEncoder} {path : Path} {within : Node → Option Path}
    {body : Node → Bytes} {items : List Node} (repetition : Repetition)
    (each : ∀ node ∈ items, ∀ index start,
      item index node start = written (path.index index) (within node) (body node))
    (index start : Nat) :
    encodeItems item repetition path items index start =
      written path
        (firstZero within
          (fun node => repetition = .zeroTerminated ∧ (body node).head? = some 0) index items)
        (items.flatMap body ++ repetition.ending) := by
  induction items generalizing index start with
  | nil => simp only [encodeItems, firstZero, written, List.flatMap_nil, List.nil_append,
      Repetition.ending]
  | cons node items ih =>
    have follow := ih fun node member => each node (by simp [member])
    rw [encodeItems, each node (by simp), firstZero]
    cases within node with
    | some rest => simp [written, Path.index, throw_bind]
    | none =>
      simp only [written, pure_bind, Option.map_none, Option.none_or]
      by_cases zero : repetition = .zeroTerminated ∧ (body node).head? = some 0
      · simp [zero, Path.index, throw_bind]
      · simp only [zero, if_false, decide_false, Bool.false_eq_true, follow, List.flatMap_cons,
          List.append_assoc, written]
        split <;> rfl

section Level

variable {fields : List Field} {nodes : List Node} {start stop : Nat}

/-- Where groups call for counts, their count fields hold them. -/
theorem Settled.lookup_calledFor (checked : Template.check fields = .ok ())
    (settled : Settled fields nodes) (laid : Field.LaidAll Settled fields start nodes stop) :
    ∀ pair ∈ fields.zip nodes, ∀ n,
      (calledFor fields nodes nodes).lookup pair.1.name = some n →
        pair.2.value?.bind Value.integer? = some n := by
  rintro ⟨field, node⟩ member n found
  have distinct : (nodes.map Node.name).Nodup := laid.names ▸ Template.names_nodup checked
  obtain ⟨before, after, split, _⟩ := List.lookup_eq_some_iff.mp found
  obtain ⟨group, inner, zeroBased, condition, counted, paired, holds, rfl⟩ :=
    mem_calledFor.mp (split ▸ List.mem_append_right before List.mem_cons_self)
  have stored := (settled _ paired).counted holds field.name zeroBased rfl
  obtain ⟨_, bears⟩ := laid.pair member
  rw [siblingInteger?, ← bears.name,
    sibling?_member distinct (List.of_mem_zip member).2] at stored
  exact stored

theorem encodeLevel_of_fields (checked : Template.check fields = .ok ())
    (settled : Settled fields nodes) (laid : Field.LaidAll Settled fields start nodes stop)
    {parent : Path} {place : Nat} {result : Except CodecError Bytes}
    (encoded : ∀ counts : List (String × Int),
      (∀ pair ∈ fields.zip nodes, ∀ n, counts.lookup pair.1.name = some n →
        pair.2.value?.bind Value.integer? = some n) →
      encodeFields fields nodes nodes counts parent place = result) :
    encodeLevel fields nodes parent place = result := by
  rw [encodeLevel, checkShape_eq_ok.mpr laid.names, ok_bind, derivedCounts_eq settled.decided,
    ok_bind]
  exact encoded _ (settled.lookup_calledFor checked laid)

end Level

mutual
theorem encodeField_eq :
    (field : Field) → (start : Nat) → (node : Node) → field.Nested (·.check = .ok ()) →
      field.Laid Settled start node → (siblings : List Node) → field.Settled siblings node →
      (count : Option Int) →
      (∀ n, count = some n → node.value?.bind Value.integer? = some n) →
      (path : Path) → (place : Nat) →
      encodeField field node siblings count path place =
        written path (field.zeroItem? node) (field.bytes node)
  | .scalar name type, start, node, _, ⟨held, same, holds⟩, siblings, _, count, agrees, path,
      place => by
    subst same
    rw [encodeField, if_pos holds.tag, ScalarType.encodeScalar_eq holds agrees]
    rfl
  | .composite name fields, start, node, ⟨checked, nested⟩,
      ⟨length, children, same, settled, laid⟩, siblings, _, count, _, path, place => by
    subst same
    apply encodeLevel_of_fields checked settled laid
    intro counts agree
    exact encodeFields_eq fields start children _ nested laid children settled counts agree path place
  | .group name fields repetition condition, start, node, ⟨checked, nested⟩,
      ⟨length, items, same, laid⟩, siblings, settled, count, _, path, place => by
    subst same
    obtain ⟨present, verdict⟩ := settled.decided
    rw [encodeField, if_neg (by simp), isPresent_eq_ok.mpr verdict, ok_bind]
    cases present with
    | false =>
      obtain ⟨rfl, rfl⟩ : items = [] ∧ length = 0 := settled.absent verdict
      rfl
    | true =>
      have counted : checkItemCount repetition items path start = .ok () := by
        cases repetition with
        | fixed count => exact if_pos (settled.fixed verdict count rfl)
        | counted | untilEnd | zeroTerminated => rfl
      have each : ∀ node ∈ items, ∀ index start,
          encodeLevel fields node.children (path.index index) start =
            written (path.index index) (Field.zeroItems? fields node.children)
              (Field.bytesAll fields node.children) := by
        intro node member index place
        rcases laid with ⟨rfl, _⟩ | ⟨last, laid, _⟩
        · simp at member
        · obtain ⟨_, start, length, children, rfl, settled, laid⟩ := laid.member member
          apply encodeLevel_of_fields checked settled laid
          intro counts agree
          exact encodeFields_eq fields start children _ nested laid children settled counts agree
            (path.index index) place
      have closing : repetition.closing length = repetition.ending :=
        Repetition.closing_eq_ending (settled.terminated verdict)
      rw [if_pos rfl]
      dsimp only [Node.children_branch, Node.offset_branch]
      rw [counted, ok_bind, Field.zeroItem?, Field.bytes, Node.length_branch, closing]
      exact encodeItems_eq repetition each 0 place

theorem encodeFields_eq :
    (fields : List Field) → (start : Nat) → (nodes : List Node) → (stop : Nat) →
      Field.AllNested (·.check = .ok ()) fields → Field.LaidAll Settled fields start nodes stop →
      (siblings : List Node) → (∀ pair ∈ fields.zip nodes, pair.1.Settled siblings pair.2) →
      (counts : List (String × Int)) →
      (∀ pair ∈ fields.zip nodes, ∀ n, counts.lookup pair.1.name = some n →
        pair.2.value?.bind Value.integer? = some n) →
      (parent : Path) → (place : Nat) →
      encodeFields fields nodes siblings counts parent place =
        written parent (Field.zeroItems? fields nodes) (Field.bytesAll fields nodes)
  | [], _, nodes, _, _, ⟨empty, _⟩, _, _, _, _, _, _ => by
    subst empty
    rfl
  | field :: fields, start, nodes, stop, ⟨formed, nested⟩, ⟨node, rest, same, first, follow⟩,
      siblings, settled, counts, agree, parent, place => by
    subst same
    rw [List.zip_cons_cons, List.forall_mem_cons] at settled agree
    rw [encodeFields, encodeField_eq field start node formed first siblings settled.1 _ agree.1,
      Field.zeroItems?, Field.bytesAll]
    have tail := encodeFields_eq fields node.stop rest stop nested follow siblings settled.2 counts
      agree.2 parent (place + (field.bytes node).length)
    cases field.zeroItem? node with
    | some way => simp [written, Path.child, throw_bind]
    | none =>
      simp only [written, pure_bind, tail, Option.map_none, Option.none_or]
      split <;> rfl
end

/-- Encoding a laid out level writes the bytes that it stands for. -/
theorem encodeLevel_eq {fields : List Field} {nodes : List Node} {start stop : Nat}
    (checked : Template.check fields = .ok ()) (nested : Field.AllNested (·.check = .ok ()) fields)
    (level : Field.LevelLaid Settled fields start nodes stop) (parent : Path) (place : Nat) :
    encodeLevel fields nodes parent place =
      written parent (Field.zeroItems? fields nodes) (Field.bytesAll fields nodes) := by
  apply encodeLevel_of_fields checked level.1 level.2
  intro counts agree
  exact encodeFields_eq fields start nodes stop nested level.2 nodes level.1 counts agree parent place

end ResourceTemplate
