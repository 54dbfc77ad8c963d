import ResourceTemplate.Proofs.Outcomes
import ResourceTemplate.Proofs.Runs

/-! How encoding and editing fail on a tree that its template describes. All checks of the tree
itself pass: names and kinds are right, and every reference finds its field. What is left are the
errors about a path, a value or a count that somebody asked for. -/
namespace ResourceTemplate

/-- The errors of an edit, which blame the path, the value or the count, and not the tree. -/
inductive CodecError.OfEdit : CodecError → Prop where
  | invalidCount (path : Path) (offset : Nat) (count : Int) : OfEdit (.invalidCount path offset count)
  | tooLong (path : Path) (length limit : Nat) : OfEdit (.tooLong path length limit)
  | refused (path : Path) (reason : Refusal) : OfEdit (.refused path reason)
  | unknownPath (path : Path) : OfEdit (.unknownPath path)

/-- The errors of settling, which blame a number of items that a count field cannot hold. -/
inductive CodecError.OfCount : CodecError → Prop where
  | invalidCount (group : Path) (offset : Nat) (count : Int) :
    OfCount (.invalidCount group offset count)

theorem CodecError.OfCount.ofEdit {error : CodecError} (counts : error.OfCount) : error.OfEdit := by
  obtain ⟨group, offset, count⟩ := counts
  exact .invalidCount group offset count

open CodecError

section Scalars

theorem checkLength_fails (bytes : Bytes) (limit : Nat) (path : Path) :
    FailsWith OfEdit (checkLength bytes limit path) := by
  unfold checkLength
  split
  · exact .throw (.tooLong ..)
  · exact .ok ()

theorem checkRange_fails (type : IntType) (n : Int) (path : Path) :
    FailsWith OfEdit (checkRange type n path) := by
  unfold checkRange
  split
  · exact .ok ()
  · exact .throw (.refused ..)

theorem textOf_fails (value : Value) (path : Path) : FailsWith OfEdit (textOf value path) := by
  unfold textOf
  split
  · exact .ok _
  · exact .throw (.refused ..)

theorem storedInteger_fails (type : ScalarType) (format : IntType) (value : Value)
    (count : Option Int) (path : Path) (offset : Nat) :
    FailsWith OfEdit (storedInteger type format value count path offset) := by
  unfold storedInteger
  split
  · split
    · exact .ok _
    · exact .throw (.invalidCount ..)
  · split
    · exact (checkRange_fails ..).bind fun _ _ => .ok _
    · exact .throw (.refused ..)

theorem encodeScalar_fails (type : ScalarType) (held : Scalar) (count : Option Int) (path : Path)
    (offset : Nat) : FailsWith OfEdit (encodeScalar type held count path offset) := by
  cases type with
  | int format | enumeration format _ =>
    exact (storedInteger_fails ..).bind fun _ _ => .ok _
  | fixedString length | pascalString =>
    exact (textOf_fails ..).bind fun _ _ => (checkLength_fails ..).bind fun _ _ => .ok _
  | boolean wide =>
    unfold encodeScalar
    dsimp only
    split
    · exact .ok _
    · exact .throw (.refused ..)

theorem accept_fails (type : ScalarType) (value : Value) (path : Path) :
    FailsWith OfEdit (type.accept value path) := by
  cases type with
  | int format | enumeration format _ =>
    unfold ScalarType.accept
    dsimp only
    split
    · exact (checkRange_fails ..).bind fun _ _ => .ok _
    · exact .throw (.refused ..)
  | fixedString length =>
    cases value with
    | text bytes => exact (checkLength_fails ..).bind fun _ _ => .ok _
    | _ => exact .throw (.refused ..)
  | pascalString =>
    cases value with
    | text bytes => exact (checkLength_fails ..).bind fun _ _ => .ok _
    | _ => exact .throw (.refused ..)
  | boolean wide =>
    cases value with
    | bool b => exact .ok _
    | _ => exact .throw (.refused ..)

end Scalars

section Encode

variable {rule : LevelRule} {fields earlier : List Field} {nodes before : List Node}
  {origin start stop : Nat}

/-- In a laid out level every group finds the field that its condition tests. -/
theorem decided_of_laid (checked : Template.checkFrom earlier fields = .ok ())
    (already : Field.LaidAll rule earlier origin before start)
    (laid : Field.LaidAll rule fields start nodes stop) :
    ∀ pair ∈ fields.zip nodes,
      ∃ present, verdict? pair.1.condition? (before ++ nodes) = some present := by
  induction fields generalizing earlier before start nodes with
  | nil => simp
  | cons field fields ih =>
    obtain ⟨node, rest, rfl, first, follow⟩ := laid
    obtain ⟨follows, checked⟩ := Template.checkFrom_cons.mp checked
    obtain ⟨present, verdict⟩ := follows.verdict? already
    have others := ih checked (already.append first) follow
    rw [List.zip_cons_cons, List.forall_mem_cons]
    exact ⟨⟨present, verdict?_append verdict⟩, by simpa using others⟩

theorem decided_of_level (checked : Template.check fields = .ok ())
    (laid : Field.LaidAll rule fields start nodes stop) : Decided fields nodes := by
  have already : Field.LaidAll rule [] start [] start := ⟨rfl, rfl⟩
  exact decided_of_laid checked already laid

theorem encodeItems_fails {item : ItemEncoder} {repetition : Repetition} {path : Path}
    {items : List Node}
    (each : ∀ node ∈ items, ∀ index start, FailsWith OfEdit (item index node start))
    (index start : Nat) : FailsWith OfEdit (encodeItems item repetition path items index start) := by
  induction items generalizing index start with
  | nil => exact .ok _
  | cons node items ih =>
    obtain ⟨head, tail⟩ := List.forall_mem_cons.mp each
    refine (head index start).bind fun bytes _ => ?_
    split
    · exact .throw (.refused ..)
    · exact (ih tail ..).bind fun _ _ => .ok _

theorem encodeLevel_fails (checked : Template.check fields = .ok ())
    (laid : Field.LaidAll rule fields start nodes stop) {parent : Path} {place : Nat}
    (encoded : ∀ counts, FailsWith OfEdit (encodeFields fields nodes nodes counts parent place)) :
    FailsWith OfEdit (encodeLevel fields nodes parent place) := by
  rw [encodeLevel, checkShape_eq_ok.mpr laid.names, ok_bind,
    derivedCounts_eq (decided_of_level checked laid), ok_bind]
  exact encoded _

end Encode

mutual
theorem encodeField_fails {rule : LevelRule} :
    (field : Field) → field.Nested (·.check = .ok ()) → (start : Nat) → (node : Node) →
      field.Laid rule start node → (siblings : List Node) →
      (∃ present, verdict? field.condition? siblings = some present) → (count : Option Int) →
      (path : Path) → (place : Nat) →
      FailsWith OfEdit (encodeField field node siblings count path place)
  | .scalar name type, _, start, node, ⟨held, same, holds⟩, siblings, _, count, path, place => by
    subst same
    rw [encodeField, if_pos holds.tag]
    exact encodeScalar_fails ..
  | .composite name fields, ⟨checked, nested⟩, start, node, ⟨length, children, same, _, laid⟩,
      siblings, _, count, path, place => by
    subst same
    exact encodeLevel_fails checked laid fun counts => encodeFields_fails fields nested start children
      _ laid children (decided_of_level checked laid) counts path place
  | .group name fields repetition condition, ⟨checked, nested⟩, start, node,
      ⟨length, items, same, laid⟩, siblings, ⟨present, verdict⟩, count, path, place => by
    subst same
    have verdict : verdict? condition siblings = some present := verdict
    rw [encodeField, if_neg (by simp), isPresent_eq_ok.mpr verdict, ok_bind]
    cases present with
    | false => exact .ok []
    | true =>
      have counted : FailsWith OfEdit (checkItemCount repetition items path start) := by
        unfold checkItemCount
        split
        · split
          · exact .ok ()
          · exact .throw (.invalidCount ..)
        · exact .ok ()
      refine counted.bind fun _ _ => encodeItems_fails ?_ 0 place
      intro node member index place
      rcases laid with ⟨rfl, _⟩ | ⟨last, laid, _⟩
      · nomatch member
      · obtain ⟨_, start, length, children, rfl, _, laid⟩ := laid.member member
        exact encodeLevel_fails checked laid fun counts => encodeFields_fails fields nested start
          children _ laid children (decided_of_level checked laid) counts (path.index index) place

theorem encodeFields_fails {rule : LevelRule} :
    (fields : List Field) → Field.AllNested (·.check = .ok ()) fields → (start : Nat) →
      (nodes : List Node) → (stop : Nat) → Field.LaidAll rule fields start nodes stop →
      (siblings : List Node) →
      (∀ pair ∈ fields.zip nodes, ∃ present, verdict? pair.1.condition? siblings = some present) →
      (counts : List (String × Int)) → (parent : Path) → (place : Nat) →
      FailsWith OfEdit (encodeFields fields nodes siblings counts parent place)
  | [], _, _, _, _, _, _, _, _, _, _ => .ok []
  | field :: fields, ⟨formed, nested⟩, start, nodes, stop, ⟨node, rest, same, first, follow⟩, siblings,
      decided, counts, parent, place => by
    subst same
    rw [List.zip_cons_cons, List.forall_mem_cons] at decided
    rw [encodeFields]
    refine (encodeField_fails field formed start node first siblings decided.1 _ _ place).bind ?_
    intro bytes _
    refine (encodeFields_fails fields nested node.stop rest stop follow siblings decided.2 counts parent
      (place + bytes.length)).bind ?_
    intro others _
    exact .ok _
end

section Settle

variable {rule : LevelRule} {fields : List Field} {nodes : List Node} {start stop : Nat} {parent : Path}

theorem syncCount_fails (laid : Field.LaidAll rule fields start nodes stop) {name : String}
    (named : name ∈ fields.map Field.name) (count : Int) :
    FailsWith OfCount (syncCount fields parent nodes (name, count)) := by
  obtain ⟨position, node, found, there⟩ := node_of_declared laid.names named
  unfold syncCount
  dsimp only
  rw [found]
  dsimp only
  rw [there]
  dsimp only
  split
  · exact .ok _
  · split
    · split
      · exact .ok _
      · exact .throw (.invalidCount ..)
    · exact .throw (.invalidCount ..)

theorem syncCounts_fails (laid : Field.LaidAll rule fields start nodes stop)
    {counts : List (String × Int)} (named : ∀ entry ∈ counts, entry.1 ∈ fields.map Field.name) :
    FailsWith OfCount (syncCounts fields parent nodes counts) := by
  induction counts generalizing nodes with
  | nil => exact .ok nodes
  | cons entry counts ih =>
    obtain ⟨head, tail⟩ := List.forall_mem_cons.mp named
    rw [syncCounts, List.foldlM_cons]
    exact (syncCount_fails laid head entry.2).bind fun again synced =>
      ih ((syncCount_ok laid synced).1.laid laid) tail

theorem settleBranch_fails {declared tag : BranchTag} {name other : String} {span : Span}
    {settle : List Node → Except CodecError (List Node × Nat)}
    (inside : FailsWith OfCount (settle nodes)) :
    FailsWith OfCount (settleBranch declared settle (.branch other span tag nodes) name parent start) :=
  inside.bind fun _ _ => .ok _

theorem settleItems_fails {item : ItemSettler}
    (each : ∀ node ∈ nodes, ∀ index start, FailsWith OfCount (item index node start))
    (index start : Nat) : FailsWith OfCount (settleItems item nodes index start) := by
  induction nodes generalizing index start with
  | nil => exact .ok _
  | cons node nodes ih =>
    obtain ⟨head, tail⟩ := List.forall_mem_cons.mp each
    exact (head index start).bind fun again _ => (ih tail ..).bind fun _ _ => .ok _

/-- Once the fields of a level are settled, its groups are decided and its count fields are there. -/
theorem settleLevel_fails (checked : Template.check fields = .ok ())
    (nested : Field.AllNested (·.check = .ok ()) fields) (shaped : Field.ShapedAll fields nodes)
    (first : FailsWith OfCount (settleFields fields nodes [] parent start)) :
    FailsWith OfCount (settleLevel fields nodes parent start) := by
  rw [settleLevel, settleWith, checkShape_eq_ok.mpr shaped.names, ok_bind]
  refine first.bind ?_
  rintro ⟨middle, stop⟩ settled
  obtain ⟨laid, filled⟩ :=
    settleFields_lays fields nested nodes shaped [] parent start middle stop settled
  dsimp only
  rw [derivedCounts_eq (decided_of_filled filled), ok_bind]
  refine (syncCounts_fails laid ?_).bind fun _ _ => .ok _
  intro entry called
  exact Template.counter_declared checked
    ((calledFor_names _ _ _).subset (List.mem_map_of_mem called))

end Settle

mutual
theorem settleField_fails :
    (field : Field) → field.Nested (·.check = .ok ()) → (node : Node) → field.Shaped node →
      (before : List Node) → (∃ present, verdict? field.condition? before = some present) →
      (path : Path) → (start : Nat) → FailsWith OfCount (settleField field node before path start)
  | .scalar name type, _, _, ⟨span, held, same, _⟩, _, _, _, _ => by
    subst same
    exact .ok _
  | .composite name fields, ⟨checked, nested⟩, _, ⟨span, children, same, shaped⟩, _, _, path, start => by
    subst same
    have fields := settleFields_fails fields nested [] checked start [] start ⟨rfl, rfl⟩
      children shaped path
    rw [settleField]
    exact settleBranch_fails (settleLevel_fails checked nested shaped fields)
  | .group name fields repetition condition, ⟨checked, nested⟩, _, ⟨span, items, same, shaped⟩, before,
      ⟨present, verdict⟩, path, start => by
    subst same
    have verdict : verdict? condition before = some present := verdict
    rw [settleField, isPresent_eq_ok.mpr verdict, ok_bind]
    apply settleBranch_fails
    cases present with
    | false => exact .ok _
    | true =>
      refine (settleItems_fails ?_ 0 start).bind fun _ _ => .ok _
      intro item member index start
      obtain ⟨kind, shaped⟩ := shaped_fillItems repetition shaped item member
      obtain ⟨_, _, children, rfl⟩ := Node.eq_branch_of_tag kind
      have fields := settleFields_fails fields nested [] checked start [] start ⟨rfl, rfl⟩
        children shaped (path.index index)
      exact settleBranch_fails (settleLevel_fails checked nested shaped fields)

theorem settleFields_fails :
    (fields : List Field) → Field.AllNested (·.check = .ok ()) fields → (earlier : List Field) →
      Template.checkFrom earlier fields = .ok () → (origin : Nat) → (before : List Node) →
      (start : Nat) → Field.LaidAll SettledApart earlier origin before start → (nodes : List Node) →
      Field.ShapedAll fields nodes → (parent : Path) →
      FailsWith OfCount (settleFields fields nodes before parent start)
  | [], _, _, _, _, _, _, _, _, _, _ => .ok _
  | field :: fields, ⟨formed, nested⟩, earlier, checked, origin, before, start, already, _,
      ⟨node, rest, same, first, follow⟩, parent => by
    subst same
    obtain ⟨follows, checked⟩ := Template.checkFrom_cons.mp checked
    rw [settleFields]
    -- A condition tests an earlier field, and those have been laid out again by now.
    refine (settleField_fails field formed node first before (follows.verdict? already) _ start).bind ?_
    intro again settled
    obtain ⟨laid, _⟩ := settleField_lays field formed node first before _ start again settled
    have tail := settleFields_fails fields nested (earlier ++ [field]) checked origin
      (before ++ [again]) again.stop (already.append laid) rest follow parent
    exact tail.bind fun _ _ => .ok _
end

/-- The parent of the node at the end of a route is a level of the field list that declares the
node's field. -/
theorem Leads.parent {rule : LevelRule} {fields owner : List Field} {nodes : List Node} {path : Path}
    {route : List Nat} {field : Field} {node : Node}
    (leads : Leads fields nodes path route owner field node) (checked : Template.check fields = .ok ())
    (nested : Field.AllNested (·.check = .ok ()) fields) {start stop : Nat}
    (laid : Field.LaidAll rule fields start nodes stop) (top : Node) (below : top.children = nodes) :
    ∃ parent, nodeAt? top route.dropLast = some parent ∧ (field, node) ∈ owner.zip parent.children ∧
      Decided owner parent.children := by
  induction leads generalizing top start stop with
  | here _ declared there =>
    subst below
    have member := mem_zip_of_getElem? declared there
    exact ⟨top, rfl, member, decided_of_level checked laid⟩
  | composite _ declared there leads ih =>
    subst below
    have member := mem_zip_of_getElem? declared there
    obtain ⟨checked, nested⟩ := nested.member (List.of_mem_zip member).1
    obtain ⟨place, laid⟩ := laid.pair member
    obtain ⟨parent, found, rest⟩ := ih checked nested laid.level.2 _ rfl
    refine ⟨parent, ?_, rest⟩
    rw [List.dropLast_cons_of_ne_nil leads.route_ne_nil, nodeAt?, there]
    exact found
  | item _ declared there counted leads ih =>
    subst below
    have member := mem_zip_of_getElem? declared there
    obtain ⟨checked, nested⟩ := nested.member (List.of_mem_zip member).1
    obtain ⟨place, laid⟩ := laid.pair member
    rcases laid.items with ⟨empty, _⟩ | ⟨last, items, _⟩
    · simp [empty] at counted
    · obtain ⟨_, start, length, children, same, _, laid⟩ := items.member (List.mem_of_getElem? counted)
      obtain ⟨parent, found, rest⟩ := ih checked nested (by rw [same]; exact laid) _ rfl
      refine ⟨parent, ?_, rest⟩
      rw [List.dropLast_cons_of_ne_nil (by simp), List.dropLast_cons_of_ne_nil leads.route_ne_nil, nodeAt?,
        there, Option.bind_eq_bind, Option.bind_some, nodeAt?, counted]
      exact found

namespace Record

variable {record : Record} {rule : LevelRule}

theorem locate_fails (record : Record) (path : Path) : FailsWith OfEdit (record.locate path) := by
  unfold locate
  split
  · exact .ok _
  · exact .throw (.unknownPath path)

theorem scalarType_fails (place : Place) (path : Path) : FailsWith OfEdit (scalarType place path) := by
  unfold scalarType
  split
  · exact .ok _
  · exact .throw (.refused ..)

/-- A tree of the right shape is refused over a count alone. -/
theorem commit_fails (formed : record.template.WellFormed) {fields : List Node}
    (shaped : Field.ShapedAll record.template fields) : FailsWith OfCount (record.commit fields) := by
  have level := settleLevel_fails formed.1 formed.2 shaped
    (settleFields_fails record.template formed.2 [] formed.1 0 [] 0 ⟨rfl, rfl⟩ fields shaped Path.root)
  exact level.bind fun _ _ => .ok _

theorem adopt_fails (formed : record.template.WellFormed) {fields : List Node}
    (shaped : Field.ShapedAll record.template fields) (event : Event) :
    FailsWith OfEdit (do let result ← record.commit fields; return (event, result)) :=
  ((commit_fails formed shaped).imp fun _ => OfCount.ofEdit).bind fun _ _ => .ok _

/-- The field that a group's condition tests is found when the group is to be resized. -/
theorem resizableGroup_fails (formed : record.template.WellFormed) (laid : record.Laid rule)
    {path : Path} {place : Place} (located : record.locate path = .ok place) :
    FailsWith OfEdit (record.resizableGroup place path) := by
  unfold resizableGroup
  split
  · next name fields repetition condition declared =>
    have leads := leads_of_locate located declared
    obtain ⟨parent, found, member, decided⟩ := leads.parent formed.1 formed.2 laid.laid record.root rfl
    -- The group has been laid out, so its condition has been decided among these siblings.
    obtain ⟨present, verdict⟩ := decided _ member
    rw [found]
    cases repetition with
    | fixed count => exact .throw (.refused ..)
    | counted | untilEnd | zeroTerminated =>
      cases condition with
      | none => exact .ok fields
      | some condition =>
        obtain ⟨value, sibling, _⟩ := Option.map_eq_some_iff.mp verdict
        have finds : FailsWith OfEdit (siblingValue parent.children condition.field path 0) := by
          rw [siblingValue_eq_ok.mpr sibling]
          exact .ok value
        refine finds.bind fun value _ => ?_
        split
        · exact (FailsWith.throw (.refused ..)).bind fun _ _ => .ok fields
        · exact .ok fields
  · exact .throw (.refused ..)

theorem setValue_fails (formed : record.template.WellFormed) (laid : record.Laid rule) (path : Path)
    (value : Value) : FailsWith OfEdit (record.setValue path value) := by
  refine (record.locate_fails path).bind fun place located => ?_
  refine (scalarType_fails place path).bind ?_
  rintro ⟨name, type⟩ typed
  dsimp only
  split
  · exact ⟨(FailsWith.throw (.refused ..)).among⟩
  · refine (accept_fails type value path).bind fun accepted accept => ?_
    split
    · have shaped := shaped_put laid.shaped located (scalarType_eq_ok.mp typed) accept
      exact adopt_fails formed shaped _
    · exact .throw (.unknownPath path)

/-- What is accepted in place of a held value is refused over a count alone. -/
theorem setValue_accepted_fails (formed : record.template.WellFormed) (laid : record.Laid rule)
    {path : Path} {place : Place} {name : String} {type : ScalarType} {held : Scalar}
    {value accepted : Value} (located : record.locate path = .ok place)
    (declared : place.field = some (.scalar name type)) (holder : place.node.scalar? = some held)
    (free : Template.groupCountedBy? place.owner name = none)
    (accept : type.accept value path = .ok accepted) :
    FailsWith OfCount (record.setValue path value) := by
  have shaped := shaped_put laid.shaped located declared accept
  rw [setValue, located, ok_bind, scalarType_eq_ok.mpr declared, ok_bind]
  dsimp only
  rw [free]
  dsimp only
  rw [accept, ok_bind, holder]
  exact (commit_fails formed shaped).bind fun _ _ => .ok _

theorem setText_fails (formed : record.template.WellFormed) (laid : record.Laid rule)
    (settings : Settings) (path : Path) (text : String) :
    FailsWith OfEdit (record.setText settings path text) := by
  refine (record.locate_fails path).bind fun place _ => ?_
  refine (scalarType_fails place path).bind ?_
  rintro ⟨name, type⟩ _
  dsimp only
  split
  · exact setValue_fails formed laid path _
  · exact .throw (.refused ..)

theorem insertItem_fails (formed : record.template.WellFormed) (laid : record.Laid rule) (path : Path)
    (index : Nat) : FailsWith OfEdit (record.insertItem path index) := by
  refine (record.locate_fails path).bind fun place located => ?_
  refine (resizableGroup_fails formed laid located).bind fun fields resizable => ?_
  split
  · exact ⟨(FailsWith.throw (.unknownPath _)).among⟩
  · next inside =>
    have shaped := shaped_insert laid.shaped located resizable (Nat.le_of_not_lt inside)
    exact adopt_fails formed shaped _

theorem removeItem_fails (formed : record.template.WellFormed) (laid : record.Laid rule) (path : Path)
    (index : Nat) : FailsWith OfEdit (record.removeItem path index) := by
  refine (record.locate_fails path).bind fun place located => ?_
  refine (resizableGroup_fails formed laid located).bind fun fields resizable => ?_
  split
  · exact ⟨(FailsWith.throw (.unknownPath _)).among⟩
  · have shaped := shaped_erase laid.shaped located resizable index
    exact adopt_fails formed shaped _

/-- An edit of a laid out record finds no fault with its tree. -/
theorem apply_fails (formed : record.template.WellFormed) (laid : record.Laid rule)
    (settings : Settings) (edit : Edit) : FailsWith OfEdit (record.apply settings edit) := by
  cases edit with
  | setValue path value => exact setValue_fails formed laid path value
  | setText path text => exact setText_fails formed laid settings path text
  | insertItem path index => exact insertItem_fails formed laid path index
  | removeItem path index => exact removeItem_fails formed laid path index

/-- Encoding a laid out record finds no fault with its tree. -/
theorem encode_fails (formed : record.template.WellFormed) (laid : record.Laid rule) :
    FailsWith OfEdit record.encode := by
  have level := encodeLevel_fails formed.1 laid.laid fun counts =>
    encodeFields_fails record.template formed.2 0 record.fields record.laidOut laid.laid record.fields
      (decided_of_level formed.1 laid.laid) counts Path.root 0
  exact level.bind fun _ _ => .ok _

end Record
end ResourceTemplate
