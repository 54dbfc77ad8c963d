import ResourceTemplate.Proofs.MovedTrees

/-! Values that are set independently of each other. Where no condition tests two scalars, the order
in which they are given values does not matter, neither for what comes of the two edits nor for the
record in the end. -/
namespace ResourceTemplate

section Routes

variable {fields owner last : List Field} {nodes others : List Node} {path other : Path}
  {route away : List Nat} {field final : Field} {node again : Node}

/-- One step down a route changes the node there, or something below it. -/
theorem updateAt_step (f : Node → Node) (position : Nat) (route : List Nat) (nodes : List Node) :
    updateAt f (position :: route) nodes =
      nodes.modify position (if route = [] then f else Node.mapChildren (updateAt f route)) := by
  cases route <;> rfl

theorem Node.bareAll_modify {f g : Node → Node} (same : ∀ node, (f node).bare = g node.bare)
    (position : Nat) (nodes : List Node) :
    Node.bareAll (nodes.modify position f) = (Node.bareAll nodes).modify position g := by
  induction nodes generalizing position with
  | nil => cases position <;> rfl
  | cons node nodes ih =>
    cases position with
    | zero => exact congrArg (· :: Node.bareAll nodes) (same node)
    | succ position => exact congrArg (node.bare :: ·) (ih position)

/-- A change of a scalar is seen in the bare tree. -/
theorem bareAll_updateAt (f : Scalar → Scalar) (route : List Nat) (nodes : List Node) :
    Node.bareAll (updateAt (Node.mapScalar f) route nodes) =
      updateAt (Node.mapScalar f) route (Node.bareAll nodes) := by
  induction route generalizing nodes with
  | nil => rfl
  | cons position route ih =>
    rw [updateAt_step, updateAt_step]
    refine Node.bareAll_modify (fun node => ?_) position nodes
    split
    · cases node <;> rfl
    · cases node with
      | scalar => rfl
      | branch => exact congrArg (Node.branch _ _ _) (ih _)

/-- Changes of scalars at two places do not depend on their order. -/
theorem updateAt_comm (f g : Scalar → Scalar) (apart : route ≠ away) (nodes : List Node) :
    updateAt (Node.mapScalar f) route (updateAt (Node.mapScalar g) away nodes) =
      updateAt (Node.mapScalar g) away (updateAt (Node.mapScalar f) route nodes) := by
  induction route generalizing away nodes with
  | nil => rfl
  | cons position route ih =>
    cases away with
    | nil => rfl
    | cons place away =>
      simp only [updateAt_step]
      by_cases here : position = place
      · subst here
        rw [List.modify_modify_eq, List.modify_modify_eq]
        congr 1
        funext node
        have below : route ≠ away := fun same => apart (same ▸ rfl)
        by_cases first : route = [] <;> by_cases second : away = []
        · exact absurd (first.trans second.symm) below
        all_goals cases node <;> simp [first, second, Node.mapScalar, Node.mapChildren, ih below]
      · rw [List.modify_modify_ne _ _ _ (Ne.symm here)]

/-- Where a path leads is for the fields alone to say. -/
theorem Leads.unique (leads : Leads fields nodes path route owner field node)
    (second : Leads fields others path away last final again) :
    away = route ∧ last = owner ∧ final = field := by
  induction leads generalizing others away with
  | here named declared =>
    cases second with
    | here again same =>
      obtain rfl := Option.some.inj (named.symm.trans again)
      exact ⟨rfl, rfl, Option.some.inj (same.symm.trans declared)⟩
    | composite _ _ _ below => nomatch below
  | composite named declared _ leads ih =>
    cases second with
    | here => nomatch leads
    | composite again same _ below =>
      obtain rfl := Option.some.inj (named.symm.trans again)
      obtain ⟨_, rfl⟩ := Field.composite.inj (Option.some.inj (declared.symm.trans same))
      obtain ⟨rfl, rfl, rfl⟩ := ih below
      exact ⟨rfl, rfl, rfl⟩
    | item again same =>
      obtain rfl := Option.some.inj (named.symm.trans again)
      nomatch declared.symm.trans same
  | item named declared _ _ _ ih =>
    cases second with
    | composite again same =>
      obtain rfl := Option.some.inj (named.symm.trans again)
      nomatch declared.symm.trans same
    | item again same _ _ below =>
      obtain rfl := Option.some.inj (named.symm.trans again)
      obtain ⟨_, rfl, _⟩ := Field.group.inj (Option.some.inj (declared.symm.trans same))
      obtain ⟨rfl, rfl, rfl⟩ := ih below
      exact ⟨rfl, rfl, rfl⟩

/-- No two paths lead to one place. -/
theorem Leads.path_inj (leads : Leads fields nodes path route owner field node)
    (second : Leads fields others other route last final again) : other = path := by
  induction leads generalizing others other with
  | here named =>
    cases second with
    | here again => rw [position?_inj named again]
    | composite _ _ _ below => exact absurd rfl below.route_ne_nil
  | composite named declared _ leads ih =>
    cases second with
    | here => exact absurd rfl leads.route_ne_nil
    | composite again same _ below =>
      obtain rfl := position?_inj named again
      obtain ⟨_, rfl⟩ := Field.composite.inj (Option.some.inj (declared.symm.trans same))
      rw [ih below]
    | item _ same => nomatch declared.symm.trans same
  | item named declared _ _ _ ih =>
    cases second with
    | composite _ same => nomatch declared.symm.trans same
    | item again same _ _ below =>
      obtain rfl := position?_inj named again
      obtain ⟨_, rfl, _⟩ := Field.group.inj (Option.some.inj (declared.symm.trans same))
      rw [ih below]

end Routes

namespace Record

/-- The path leads to a scalar that no condition tests. -/
def Untested (record : Record) (path : Path) : Prop :=
  ∃ route node name type owner,
    record.locate path = .ok ⟨route, node, some (.scalar name type), owner⟩ ∧
      ∀ group ∈ owner, ¬ group.Tests name

/-- A scalar that no condition tests, with all that decides what becomes of a value for it. -/
structure Free (record : Record) (path : Path) (route : List Nat) (owner : List Field) (name : String)
    (type : ScalarType) (held : Scalar) : Prop where
  leads : ∃ span, Leads record.template record.fields path route owner (.scalar name type)
    (.scalar name span held)
  untested : ∀ group ∈ owner, ¬ group.Tests name

def taken (path : Path) (owner : List Field) (name : String) (type : ScalarType) (value : Value) :
    Except CodecError Value :=
  match Template.groupCountedBy? owner name with
  | some group => throw (.refused path (.derivedCount group.name))
  | none => type.accept value path

def effect (path : Path) (route : List Nat) (owner : List Field) (name : String) (type : ScalarType)
    (value : Value) : List Node → List Node :=
  match taken path owner name type value with
  | .ok value => updateAt (Node.mapScalar (Scalar.put · value (type.label? value))) route
  | .error _ => id

section Free

variable {record : Record} {path other : Path} {route away : List Nat} {owner last : List Field}
  {name second : String} {type sort : ScalarType} {held shown : Scalar}

theorem Untested.free {rule : LevelRule} (untested : record.Untested path) (laid : record.Laid rule) :
    ∃ route owner name type held, record.Free path route owner name type held := by
  obtain ⟨route, node, name, type, owner, located, untested⟩ := untested
  have leads := leads_of_locate located rfl
  obtain ⟨span, held, rfl, _⟩ := leads.shaped (Field.LaidAll.shaped _ _ _ _ laid.laid)
  exact ⟨route, owner, name, type, held, ⟨span, leads⟩, untested⟩

variable (free : record.Free path route owner name type held)
include free

theorem Free.setValue_eq (value : Value) :
    record.setValue path value = (do
      let accepted ← taken path owner name type value
      let result ← record.commit (updateAt
        (Node.mapScalar (Scalar.put · accepted (type.label? accepted))) route record.fields)
      return (⟨path, .value held.value accepted⟩, result)) := by
  obtain ⟨⟨span, leads⟩, _⟩ := free
  simp only [setValue, locate_of_leads leads, ok_bind, scalarType, pure_bind, taken]
  cases Template.groupCountedBy? owner name with
  | some group => rfl
  | none => rfl

/-- Another value is adopted, and the tree differs in nothing else. -/
theorem Free.commit_put (formed : record.template.WellFormed) (laid : record.LaidOut)
    (uncounted : Template.groupCountedBy? owner name = none) {f : Scalar → Scalar}
    (holds : ∀ held, type.Holds held → type.Holds (f held)) :
    ∃ result, record.commit (updateAt (Node.mapScalar f) route record.fields) = .ok result ∧
      result.template = record.template ∧ result.trailing = record.trailing ∧ result.LaidOut ∧
      Node.bareAll result.fields = updateAt (Node.mapScalar f) route (Node.bareAll record.fields) := by
  obtain ⟨⟨span, leads⟩, untested⟩ := free
  obtain ⟨fields, stop, level, bare⟩ := leads.relaid holds untested uncounted ⟨laid.kept, laid.laid⟩
  have shaped := leads.shaped_updateAt (f := Node.mapScalar f)
    (fun ⟨_, held, same, sound⟩ => ⟨_, f held, congrArg (Node.mapScalar f) same, holds held sound⟩)
    laid.shaped
  have alike := settlesAlike_of_bare shaped (Field.LaidAll.shaped _ _ _ _ level.2)
    ((bareAll_updateAt f route record.fields).trans bare.symm)
  have again : Record.LaidOut { record with fields := fields, laidOut := stop } :=
    ⟨level.1, level.2⟩
  have settled := again.commit_eq (by exact formed)
  exact ⟨_, (commit_congr alike).trans settled, rfl, rfl, again, bare⟩

omit free in
theorem taken_eq_ok {value accepted : Value} :
    taken path owner name type value = .ok accepted ↔
      Template.groupCountedBy? owner name = none ∧ type.accept value path = .ok accepted := by
  unfold taken
  cases Template.groupCountedBy? owner name with
  | some group => exact iff_of_false nofun nofun
  | none => simp

variable (formed : record.template.WellFormed) (laid : record.LaidOut)
include formed laid

theorem Free.setValue_ok {value accepted : Value}
    (accept : taken path owner name type value = .ok accepted) :
    ∃ result, record.setValue path value = .ok (⟨path, .value held.value accepted⟩, result) ∧
      result.template = record.template ∧ result.trailing = record.trailing ∧ result.LaidOut ∧
      Node.bareAll result.fields = effect path route owner name type value
        (Node.bareAll record.fields) := by
  obtain ⟨uncounted, admitted⟩ := taken_eq_ok.mp accept
  obtain ⟨result, committed, made⟩ := free.commit_put formed laid uncounted fun held holds =>
    ScalarType.holds_put holds (ScalarType.admits_of_accept admitted)
  refine ⟨result, ?_, ?_⟩
  · rw [free.setValue_eq, accept, ok_bind, committed]
    rfl
  · rwa [effect, accept]

/-- What comes of a value depends on the place and on what is held there. -/
theorem Free.outcome (value : Value) :
    (record.setValue path value).map Prod.fst =
      (taken path owner name type value).map fun accepted => ⟨path, .value held.value accepted⟩ := by
  cases accept : taken path owner name type value with
  | error error =>
    rw [free.setValue_eq, accept]
    rfl
  | ok accepted =>
    obtain ⟨result, done, _⟩ := free.setValue_ok formed laid accept
    rw [done]
    rfl

/-- The record after a value was tried, which stays as it was if the value is refused. -/
theorem Free.attempt_eq (asked : Settings) (value : Value) {result : Record}
    (tried : record.attempt asked (.setValue path value) = result) :
    result.template = record.template ∧ result.trailing = record.trailing ∧ result.LaidOut ∧
      Node.bareAll result.fields = effect path route owner name type value
        (Node.bareAll record.fields) := by
  subst tried
  unfold attempt apply
  dsimp only
  cases accept : taken path owner name type value with
  | error error =>
    rw [free.setValue_eq, accept, effect, accept]
    exact ⟨rfl, rfl, laid, rfl⟩
  | ok accepted =>
    obtain ⟨result, done, made⟩ := free.setValue_ok formed laid accept
    rwa [done]

/-- A value for one such scalar leaves the others as they are. -/
theorem Free.kept (asked : Settings) (value : Value) (apart : other ≠ path)
    (others : record.Free other away last second sort shown) :
    (record.attempt asked (.setValue path value)).Free other away last second sort shown := by
  obtain ⟨same, _, again, _⟩ := free.attempt_eq formed laid asked value rfl
  unfold attempt apply at same again ⊢
  dsimp only at same again ⊢
  cases outcome : record.setValue path value with
  | error error =>
    exact others
  | ok done =>
    obtain ⟨event, result⟩ := done
    rw [outcome] at same again
    dsimp only at same again ⊢
    obtain ⟨⟨span, leads⟩, untested⟩ := free
    obtain ⟨⟨place, there⟩, unread⟩ := others
    obtain ⟨parent, _, _, _, _, _, _, _, _, _, _, _, rfl, located, _, _, reached, revalued⟩ :=
      reaches_of_setValue formed laid again outcome
    cases (locate_of_leads leads).symm.trans located
    have elsewhere := reached.elsewhere revalued apart (by
      rintro ⟨group, among, _, ⟨condition, conditional, tests, _⟩, _⟩
      exact untested group among ⟨condition, conditional, tests⟩)
    have held := (held?_eq_some laid formed).mpr ⟨_, _, _, _, there, rfl⟩
    rw [← elsewhere, held?_eq_some again (same ▸ formed), same] at held
    obtain ⟨_, _, _, node, found, holder⟩ := held
    obtain ⟨rfl, rfl, rfl⟩ := there.unique found
    have shaped := again.shaped
    rw [same] at shaped
    obtain ⟨final, _, rfl, _⟩ := found.shaped shaped
    obtain rfl := Option.some.inj holder
    exact ⟨⟨final, same.symm ▸ found⟩, unread⟩

end Free

/-- Effects on two places do not depend on their order. -/
theorem effect_comm {path other : Path} {route away : List Nat} {owner last : List Field}
    {name second : String} {type sort : ScalarType} (apart : route ≠ away) (value new : Value)
    (nodes : List Node) :
    effect path route owner name type value (effect other away last second sort new nodes) =
      effect other away last second sort new (effect path route owner name type value nodes) := by
  unfold effect
  cases taken path owner name type value with
  | error => rfl
  | ok =>
    cases taken other last second sort new with
    | error => rfl
    | ok => exact updateAt_comm _ _ apart nodes

/-- Values of two scalars that no condition tests can be set in either order, as long as no condition
tests a count: each of the two edits does what it does alone, or is refused as it is alone, and the
records in the end are equal. -/
theorem setValue_comm {template : Template} (formed : template.WellFormed)
    (untested : template.Everywhere Template.CountsUntested) {settings : Settings} {record : Record}
    (reachable : Reachable template settings record) {path other : Path} (apart : path ≠ other)
    (first : record.Untested path) (second : record.Untested other) (asked : Settings)
    (value new : Value) :
    ((record.attempt asked (.setValue other new)).setValue path value).map Prod.fst =
      (record.setValue path value).map Prod.fst ∧
    ((record.attempt asked (.setValue path value)).setValue other new).map Prod.fst =
      (record.setValue other new).map Prod.fst ∧
    (record.attempt asked (.setValue path value)).attempt asked (.setValue other new) =
      (record.attempt asked (.setValue other new)).attempt asked (.setValue path value) := by
  obtain ⟨rfl, laid⟩ := reachable.laid formed
  have laid := laid.laidOut untested
  obtain ⟨route, owner, name, type, held, first⟩ := first.free laid
  obtain ⟨away, last, another, sort, kept, second⟩ := second.free laid
  have routes : route ≠ away := by
    rintro rfl
    obtain ⟨⟨_, leads⟩, _⟩ := first
    obtain ⟨⟨_, there⟩, _⟩ := second
    exact apart (leads.path_inj there).symm
  -- Each scalar is still free after the other one was given its value.
  have later := second.kept formed laid asked new apart first
  have earlier := first.kept formed laid asked value apart.symm second
  obtain ⟨one, front, again, bare⟩ := first.attempt_eq formed laid asked value rfl
  obtain ⟨two, back, settled, stripped⟩ := second.attempt_eq formed laid asked new rfl
  obtain ⟨both, rest, final, ends⟩ := earlier.attempt_eq (one ▸ formed) again asked new rfl
  obtain ⟨swapped, left, last, closes⟩ := later.attempt_eq (two ▸ formed) settled asked value rfl
  refine ⟨?_, ?_, ?_⟩
  · rw [later.outcome (two ▸ formed) settled, first.outcome formed laid]
  · rw [earlier.outcome (one ▸ formed) again, second.outcome formed laid]
  · refine Laid.eq_of_bare (swapped.trans two ▸ formed) last final ?_ ?_ ?_
    · rw [both, one, swapped, two]
    · rw [rest, front, left, back]
    · rw [ends, bare, closes, stripped, effect_comm routes]

/-- A longer name moves the byte behind it, which can be set before or after. -/
theorem setValue_comm_sample : ∃ record : Record,
    decode Template.sample {} [1, 0, 0, 1, 0, 2, 0, 3, 97, 98, 1, 65, 0, 7, 8] = .ok record ∧
      record.Untested [.name "names", .index 0, .name "text"] ∧
      record.Untested [.name "rest", .index 1, .name "byte"] ∧
      ((record.attempt {} (.setValue [.name "rest", .index 1, .name "byte"] (.uint 9))).setValue
          [.name "names", .index 0, .name "text"] (.text [66, 67, 68])).map Prod.fst =
        (record.setValue [.name "names", .index 0, .name "text"] (.text [66, 67, 68])).map Prod.fst ∧
      (record.attempt {} (.setValue [.name "names", .index 0, .name "text"]
          (.text [66, 67, 68]))).attempt {}
            (.setValue [.name "rest", .index 1, .name "byte"] (.uint 9)) =
        (record.attempt {} (.setValue [.name "rest", .index 1, .name "byte"] (.uint 9))).attempt {}
          (.setValue [.name "names", .index 0, .name "text"] (.text [66, 67, 68])) ∧
      ((record.attempt {} (.setValue [.name "names", .index 0, .name "text"]
          (.text [66, 67, 68]))).attempt {}
            (.setValue [.name "rest", .index 1, .name "byte"] (.uint 9))).encode =
        .ok [1, 0, 0, 1, 0, 2, 0, 3, 97, 98, 3, 66, 67, 68, 0, 7, 9] := by
  have unread (type : ScalarType) (name other : String) :
      ∀ group ∈ [Field.scalar name type], ¬ group.Tests other := by
    rintro group member ⟨condition, conditional, _⟩
    obtain rfl := List.mem_singleton.mp member
    contradiction
  obtain ⟨record, decoded, first, second, written⟩ : ∃ record,
      decode Template.sample {} [1, 0, 0, 1, 0, 2, 0, 3, 97, 98, 1, 65, 0, 7, 8] = .ok record ∧
        record.Untested [.name "names", .index 0, .name "text"] ∧
        record.Untested [.name "rest", .index 1, .name "byte"] ∧
        ((record.attempt {} (.setValue [.name "names", .index 0, .name "text"]
            (.text [66, 67, 68]))).attempt {}
              (.setValue [.name "rest", .index 1, .name "byte"] (.uint 9))).encode =
          .ok [1, 0, 0, 1, 0, 2, 0, 3, 97, 98, 3, 66, 67, 68, 0, 7, 9] :=
    ⟨_, by cbv, ⟨_, _, _, _, _, by cbv, unread _ _ _⟩, ⟨_, _, _, _, _, by cbv, unread _ _ _⟩, by cbv⟩
  obtain ⟨outcome, _, same⟩ := setValue_comm Template.sample_wellFormed (by decide +kernel)
    (.decoded decoded) (by decide) first second {} (.text [66, 67, 68]) (.uint 9)
  exact ⟨record, decoded, first, second, outcome, same, written⟩

end Record
end ResourceTemplate
