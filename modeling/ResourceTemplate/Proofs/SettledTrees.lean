import ResourceTemplate.Proofs.CountFields
import ResourceTemplate.Proofs.EarlierSiblings
import ResourceTemplate.Proofs.FieldSteps
import ResourceTemplate.Proofs.TreeShape

/-! Settling. A tree of the right shape comes out laid out, and settled apart from the groups
whose condition tests a count, since counts are set last. A settled tree comes out as it is. -/
namespace ResourceTemplate

section Level

variable {settle : List Node → Except CodecError (List Node × Nat)} {fields : List Field}
  {nodes result : List Node} {parent : Path} {start stop : Nat}

/-- Once the fields of a level are settled and its groups decided, the counts are left to be set. -/
theorem settleWith_eq {middle : List Node} (names : nodes.map Node.name = fields.map Field.name)
    (first : settle nodes = .ok (middle, stop)) (decided : Decided fields middle) :
    settleWith settle fields nodes parent start = (do
      let again ← syncCounts fields parent middle (calledFor fields middle middle)
      return (again, stop)) := by
  rw [settleWith, checkShape_eq_ok.mpr names, ok_bind, first, ok_bind]
  dsimp only
  rw [derivedCounts_eq decided, ok_bind]

theorem settleWith_eq_ok
    (decides : ∀ middle stop, settle nodes = .ok (middle, stop) → Decided fields middle) :
    settleWith settle fields nodes parent start = .ok (result, stop) ↔
      nodes.map Node.name = fields.map Field.name ∧ ∃ middle, settle nodes = .ok (middle, stop) ∧
        syncCounts fields parent middle (calledFor fields middle middle) = .ok result := by
  constructor
  · intro settled
    obtain ⟨_, named, rest⟩ := bind_eq_ok.mp settled
    obtain ⟨⟨middle, last⟩, first, _⟩ := bind_eq_ok.mp rest
    have names := checkShape_eq_ok.mp named
    rw [settleWith_eq names first (decides middle last first)] at settled
    obtain ⟨again, synced, made⟩ := bind_eq_ok.mp settled
    obtain ⟨rfl, rfl⟩ := Prod.mk.inj (pure_eq_ok.mp made)
    exact ⟨names, middle, first, synced⟩
  · rintro ⟨names, middle, first, synced⟩
    rw [settleWith_eq names first (decides middle stop first), synced]
    rfl

/-- The fields of a level are settled first, and then those counts that its groups call for and that
are not held. -/
theorem settleWith_recounts (checked : Template.check fields = .ok ())
    (fills : ∀ middle stop, settle nodes = .ok (middle, stop) →
      Field.LaidAll SettledApart fields start middle stop ∧
        ∀ pair ∈ fields.zip middle, pair.1.Filled middle pair.2)
    (settled : settleWith settle fields nodes parent start = .ok (result, stop)) :
    ∃ middle, settle nodes = .ok (middle, stop) ∧
      Recounted (missed (calledFor fields middle middle) middle) fields middle result ∧
      ∀ entry ∈ calledFor fields middle middle, siblingInteger? result entry.1 = some entry.2 := by
  obtain ⟨_, middle, first, synced⟩ := (settleWith_eq_ok fun middle stop first =>
    decided_of_filled (fills middle stop first).2).mp settled
  obtain ⟨laid, _⟩ := fills middle stop first
  have distinct := (Template.counters_nodup checked).sublist (calledFor_names fields middle middle)
  exact ⟨middle, first, syncCounts_ok distinct laid synced⟩

/-- What was filled is settled once the counts are held, if its verdict is still the same. -/
theorem settled_of_filled {field : Field} {node : Node} {middle : List Node}
    (member : (field, node) ∈ fields.zip middle) (filled : field.Filled middle node)
    (same : verdict? field.condition? result = verdict? field.condition? middle)
    (held : ∀ entry ∈ calledFor fields middle middle, siblingInteger? result entry.1 = some entry.2) :
    field.Settled result node := by
  cases field with
  | scalar => trivial
  | composite => trivial
  | group name inner repetition condition =>
    refine ⟨GroupFilled.transfer filled same, ?_⟩
    rw [show verdict? condition result = verdict? condition middle from same]
    rintro holds countField zeroBased rfl
    exact held (countField, _)
      (mem_calledFor.mpr ⟨name, inner, zeroBased, condition, node, member, holds, rfl⟩)

/-- Setting the counts of a level settles the groups whose conditions it leaves as they are. -/
theorem settleWith_lays (checked : Template.check fields = .ok ())
    (fills : ∀ middle stop, settle nodes = .ok (middle, stop) →
      Field.LaidAll SettledApart fields start middle stop ∧
        ∀ pair ∈ fields.zip middle, pair.1.Filled middle pair.2)
    (settled : settleWith settle fields nodes parent start = .ok (result, stop)) :
    Field.LevelLaid SettledApart fields start result stop := by
  obtain ⟨middle, first, recounted, held⟩ := settleWith_recounts checked fills settled
  obtain ⟨laid, filled⟩ := fills middle stop first
  refine ⟨?_, recounted.laid laid⟩
  rintro ⟨field, node⟩ member apart
  cases field with
  | scalar => trivial
  | composite => trivial
  | group name inner repetition condition =>
    have branch : node.scalar? = none := by
      obtain ⟨_, _, _, rfl, _⟩ := (recounted.laid laid).pair member
      rfl
    have original := recounted.branch member branch
    have same : verdict? condition result = verdict? condition middle := by
      cases condition with
      | none => rfl
      | some condition =>
        have free : condition.field ∉
            (missed (calledFor fields middle middle) middle).map Prod.fst := fun called =>
          apart ⟨condition, rfl, (calledFor_names fields middle middle).subset
            ((missed_names _ _).subset called)⟩
        simp [verdict?, recounted.sibling? free]
    exact settled_of_filled original (filled _ original) same held

/-- The counts of a settled level are held already. -/
theorem Settled.held (settled : Settled fields nodes) :
    ∀ entry ∈ calledFor fields nodes nodes, siblingInteger? nodes entry.1 = some entry.2 := by
  rintro ⟨name, n⟩ called
  obtain ⟨group, inner, zeroBased, condition, node, member, holds, rfl⟩ := mem_calledFor.mp called
  exact (settled _ member).counted holds name zeroBased rfl

theorem settleWith_settled {middle : List Node} (settled : Settled fields middle)
    (names : nodes.map Node.name = fields.map Field.name)
    (others : middle.map Node.name = fields.map Field.name) (kept : settle nodes = .ok (middle, stop)) :
    settleWith settle fields nodes parent start = .ok (middle, stop) := by
  rw [settleWith_eq names kept settled.decided, syncCounts_eq others settled.held]
  rfl

end Level

section Items

variable {fields : List Field} {path : Path} {nodes items : List Node} {index start stop : Nat}

theorem settleItems_length {item : ItemSettler}
    (settled : settleItems item nodes index start = .ok (items, stop)) :
    items.length = nodes.length := by
  induction nodes generalizing index start items with
  | nil =>
    obtain ⟨rfl, _⟩ := Prod.mk.inj (pure_eq_ok.mp settled)
    rfl
  | cons node nodes ih =>
    obtain ⟨again, rest, _, follow, rfl⟩ := settleItems_cons.mp settled
    exact congrArg (· + 1) (ih follow)

theorem settleItems_lays {rule : LevelRule} (kinds : ∀ node ∈ nodes, node.tag = .branch .item)
    (lays : ∀ node ∈ nodes, ∀ parent start inner stop,
      settleLevel fields node.children parent start = .ok (inner, stop) →
      Field.LevelLaid rule fields start inner stop)
    (settled : settleItems (settleItem fields path) nodes index start = .ok (items, stop)) :
    ItemsLaid (Field.LevelLaid rule fields) index start items stop := by
  induction nodes generalizing index start items with
  | nil =>
    obtain ⟨rfl, rfl⟩ := Prod.mk.inj (pure_eq_ok.mp settled)
    exact rfl
  | cons node nodes ih =>
    obtain ⟨again, rest, first, follow, rfl⟩ := settleItems_cons.mp settled
    obtain ⟨kind, kinds⟩ := List.forall_mem_cons.mp kinds
    obtain ⟨head, others⟩ := List.forall_mem_cons.mp lays
    obtain ⟨inner, middle, inside, rfl⟩ := (settleItem_eq_ok kind).mp first
    have level := head (path.index index) start inner middle inside
    refine .cons level (ih kinds others ?_)
    rwa [Node.stop, Node.offset_branch, Node.length_branch, Nat.add_sub_cancel' level.2.le] at follow

theorem settleItems_settled {rule : LevelRule}
    (keeps : ∀ start children stop, Field.LevelLaid rule fields start children stop →
      ∀ parent, settleLevel fields children parent start = .ok (children, stop))
    (laid : ItemsLaid (Field.LevelLaid rule fields) index start items stop) :
    settleItems (settleItem fields path) items index start = .ok (items, stop) := by
  induction items generalizing index start with
  | nil =>
    obtain rfl : stop = start := laid
    rfl
  | cons node items ih =>
    obtain ⟨length, children, rfl, level, follow⟩ := laid
    have first : settleItem fields path index (.branch (toString index) ⟨start, length⟩ .item children)
        start = .ok (.branch (toString index) ⟨start, length⟩ .item children) :=
      (settleItem_eq_ok rfl).mpr ⟨children, start + length,
        keeps start children _ level (path.index index), by rw [Nat.add_sub_cancel_left]⟩
    exact settleItems_cons.mpr ⟨_, items, first, ih follow, rfl⟩

end Items

mutual
theorem settleField_lays :
    (field : Field) → field.Nested (·.check = .ok ()) → (node : Node) → field.Shaped node →
      (before : List Node) → (path : Path) → (start : Nat) → (again : Node) →
      settleField field node before path start = .ok again →
      field.Laid SettledApart start again ∧ field.Filled before again
  | .scalar name type, _, _, ⟨span, held, same, holds⟩, before, path, start, again, settled => by
    subst same
    obtain rfl := pure_eq_ok.mp settled
    exact ⟨⟨held, rfl, holds⟩, trivial⟩
  | .composite name fields, ⟨checked, nested⟩, _, ⟨span, children, same, shaped⟩, before, path,
      start, again, settled => by
    subst same
    obtain ⟨inner, stop, level, rfl⟩ := settleField_composite.mp settled
    exact ⟨(settleWith_lays checked (settleFields_lays fields nested _ shaped [] path start)
      level).composite, trivial⟩
  | .group name fields repetition condition, ⟨checked, nested⟩, _, ⟨span, items, same, shaped⟩,
      before, path, start, again, settled => by
    subst same
    rcases settleField_group.mp settled with ⟨verdict, rfl⟩ | ⟨verdict, items, last, several, rfl⟩
    · exact ⟨Field.laid_absent, (GroupSettled.of_absent verdict rfl rfl).toGroupFilled⟩
    · have laid : ItemsLaid (Field.LevelLaid SettledApart fields) 0 start items last := by
        have shaped := shaped_fillItems repetition shaped
        refine settleItems_lays (fun node member => (shaped node member).1) ?_ several
        intro node member path start inner stop level
        exact settleWith_lays checked
          (settleFields_lays fields nested _ (shaped node member).2 [] path start) level
      refine ⟨laid.group, .of_present verdict ?_ ?_⟩
      · rintro count rfl
        rw [Node.children_branch, settleItems_length several, length_fillItems]
      · rintro rfl
        have after := laid.le
        simp only [Node.length_branch, Repetition.ending, if_true, List.length_singleton]
        omega

theorem settleFields_lays :
    (fields : List Field) → Field.AllNested (·.check = .ok ()) fields → (nodes : List Node) →
      Field.ShapedAll fields nodes → (before : List Node) → (parent : Path) → (start : Nat) →
      (result : List Node) → (stop : Nat) →
      settleFields fields nodes before parent start = .ok (result, stop) →
      Field.LaidAll SettledApart fields start result stop ∧
        ∀ pair ∈ fields.zip result, pair.1.Filled (before ++ result) pair.2
  | [], _, _, empty, before, parent, start, result, stop, settled => by
    cases empty
    obtain ⟨rfl, rfl⟩ := Prod.mk.inj (pure_eq_ok.mp settled)
    exact ⟨⟨rfl, rfl⟩, by simp⟩
  | field :: fields, ⟨formed, nested⟩, _, ⟨node, rest, same, first, follow⟩, before, parent,
      start, result, stop, settled => by
    subst same
    obtain ⟨again, result, head, tail, rfl⟩ := settleFields_cons.mp settled
    obtain ⟨laid, filled⟩ := settleField_lays field formed node first before _ start again head
    obtain ⟨follow, others⟩ := settleFields_lays fields nested rest follow (before ++ [again]) parent
      again.stop result _ tail
    refine ⟨⟨again, result, rfl, laid, follow⟩, ?_⟩
    rw [List.zip_cons_cons, List.forall_mem_cons]
    exact ⟨filled.append, by simpa using others⟩
end

mutual
/-- A settled group is as its earlier siblings ask, so that settling leaves it as it is. -/
theorem settleField_settled :
    (field : Field) → field.Nested (·.check = .ok ()) → (start : Nat) → (node : Node) →
      field.Laid Settled start node → (before : List Node) → field.Settled before node →
      (path : Path) → settleField field node before path start = .ok node
  | .scalar name type, _, start, _, ⟨held, same, _⟩, _, _, _ => by
    subst same
    rfl
  | .composite name fields, ⟨checked, nested⟩, start, _, ⟨length, children, same, kept, laid⟩, _, _,
      path => by
    subst same
    have level : settleLevel fields children path start = .ok (children, start + length) :=
      settleWith_settled kept laid.names laid.names (settleFields_settled fields nested [] checked
        start [] start ⟨rfl, rfl⟩ children _ laid kept path)
    exact settleField_composite.mpr ⟨children, _, level, by rw [Nat.add_sub_cancel_left]⟩
  | .group name fields repetition condition, ⟨checked, nested⟩, start, _,
      ⟨length, items, same, laid⟩, before, settled, path => by
    subst same
    apply settleField_group.mpr
    obtain ⟨present, verdict⟩ := settled.decided
    cases present with
    | false =>
      obtain ⟨rfl, rfl⟩ : items = [] ∧ length = 0 := settled.absent verdict
      exact .inl ⟨verdict, rfl⟩
    | true =>
      obtain ⟨last, laid, ends⟩ := itemsLaid_of_present laid (settled.terminated verdict)
      have kept : settleItems (settleItem fields path) items 0 start = .ok (items, last) := by
        refine settleItems_settled ?_ laid
        intro start children stop ⟨kept, laid⟩ path
        exact settleWith_settled kept laid.names laid.names (settleFields_settled fields nested []
          checked start [] start ⟨rfl, rfl⟩ children _ laid kept path)
      have filled : fillItems fields repetition items = items := fillItems_eq (settled.fixed verdict)
      refine .inr ⟨verdict, items, last, by rw [filled, kept], ?_⟩
      rw [← ends, Nat.add_sub_cancel_left]

theorem settleFields_settled :
    (fields : List Field) → Field.AllNested (·.check = .ok ()) fields → (earlier : List Field) →
      Template.checkFrom earlier fields = .ok () → (origin : Nat) → (before : List Node) →
      (start : Nat) → Field.LaidAll Settled earlier origin before start → (nodes : List Node) →
      (stop : Nat) → Field.LaidAll Settled fields start nodes stop →
      (∀ pair ∈ fields.zip nodes, pair.1.Settled (before ++ nodes) pair.2) → (parent : Path) →
      settleFields fields nodes before parent start = .ok (nodes, stop)
  | [], _, _, _, _, _, _, _, _, _, ⟨empty, ends⟩, _, _ => by
    subst empty ends
    rfl
  | field :: fields, ⟨formed, nested⟩, earlier, checked, origin, before, start, already, _, stop,
      ⟨node, rest, same, first, follow⟩, settled, parent => by
    subst same
    obtain ⟨follows, checked⟩ := Template.checkFrom_cons.mp checked
    rw [List.zip_cons_cons, List.forall_mem_cons] at settled
    have early : field.Settled before node := .of_append follows already settled.1
    have tail := settleFields_settled fields nested (earlier ++ [field]) checked origin
      (before ++ [node]) node.stop (already.append first) rest stop follow
      (by simpa using settled.2) parent
    exact settleFields_cons.mpr ⟨node, rest,
      settleField_settled field formed start node first before early _, tail, rfl⟩
end

end ResourceTemplate
