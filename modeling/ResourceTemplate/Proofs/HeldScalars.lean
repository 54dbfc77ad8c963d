import ResourceTemplate.Proofs.ListedFields

/-! The scalars that paths lead to. A path leads to a scalar only where a scalar field is declared,
and the value that is held there can be set without any change, unless it is a count. -/
namespace ResourceTemplate

section Leads

variable {fields owner : List Field} {nodes : List Node} {path : Path} {route : List Nat}
  {field : Field} {node : Node}

/-- The node at the end of a path is what its field describes. -/
theorem Leads.shaped (leads : Leads fields nodes path route owner field node)
    (shaped : Field.ShapedAll fields nodes) : field.Shaped node := by
  induction leads with
  | here _ declared there => exact shaped.getElem? declared there
  | composite _ declared there _ ih =>
    obtain ⟨_, _, rfl, inner⟩ := shaped.getElem? declared there
    exact ih inner
  | item _ declared there counted _ ih =>
    obtain ⟨_, _, rfl, inner⟩ := shaped.getElem? declared there
    exact ih (inner _ (List.mem_of_getElem? counted)).2

/-- A change that leaves the node at the end of a route as it is leaves the tree as it is. -/
theorem Leads.updateAt_eq_self (leads : Leads fields nodes path route owner field node)
    {f : Node → Node} (same : f node = node) : updateAt f route nodes = nodes := by
  induction leads with
  | here _ _ there =>
    rw [updateAt, modify_eq_set there, same]
    exact set_of_getElem? there
  | composite _ _ there leads ih =>
    exact ResourceTemplate.updateAt_eq_self there leads.route_ne_nil (ih same)
  | item _ _ there counted leads ih =>
    exact ResourceTemplate.updateAt_eq_self there (by simp)
      (ResourceTemplate.updateAt_eq_self counted leads.route_ne_nil (ih same))

end Leads

/-- Where no field is declared, at the root and at the items of groups, there is no scalar. -/
theorem branch_of_follow? {place final : Place} {scope : Scope} {path : Path}
    (followed : place.follow? scope path = some final) (describes : scope.Describes place.node)
    (branch : place.field = none → place.node.scalar? = none) :
    final.field = none → final.node.scalar? = none := by
  induction path generalizing place scope with
  | nil =>
    obtain rfl := Option.some.inj followed
    exact branch
  | cons segment rest ih =>
    obtain ⟨next, inner, step, follow⟩ := follow?_cons.mp followed
    cases scope with
    | fields fields =>
      cases segment with
      | index => nomatch step
      | name name =>
        obtain ⟨position, field, child, _, declared, there, rfl, rfl⟩ := step?_name.mp step
        obtain ⟨formed, conforms⟩ := describes
        obtain ⟨other, same, conforms⟩ := conforms.getElem? there
        obtain rfl := Option.some.inj (declared.symm.trans same)
        exact ih follow (conforms.scope (formed.2.member (List.mem_of_getElem? declared))) nofun
    | items fields =>
      cases segment with
      | name => nomatch step
      | index index =>
        obtain ⟨item, there, rfl, rfl⟩ := step?_index.mp step
        obtain ⟨formed, items⟩ := describes
        obtain ⟨tagged, conforms⟩ := items index item there
        refine ih follow ⟨formed, conforms⟩ fun _ => ?_
        cases item with
        | scalar => nomatch tagged
        | branch => rfl
    | leaf => nomatch step

theorem Scalar.put_self {type : ScalarType} {held : Scalar} (holds : type.Holds held) :
    held.put held.value (type.label? held.value) = held := by
  simp [put, ← holds.label]

namespace Record

/-- The group whose number of items is held by the scalar that a path leads to. -/
def countedBy? (record : Record) (path : Path) : Option Field :=
  match record.locate path with
  | .ok ⟨_, _, some (.scalar name _), owner⟩ => Template.groupCountedBy? owner name
  | _ => none

variable {record : Record} {path : Path}

/-- A path that leads to a scalar leads to a field that declares it. -/
theorem Laid.scalar_of_locate {rule : LevelRule} {place : Place} {held : Scalar}
    (laid : record.Laid rule) (formed : record.template.WellFormed)
    (located : record.locate path = .ok place) (holder : place.node.scalar? = some held) :
    ∃ name type, place.field = some (.scalar name type) ∧ type.Holds held := by
  cases declared : place.field with
  | none =>
    have conforms := Field.LaidAll.conforms _ _ _ _ laid.laid
    have branch :=
      branch_of_follow? (locate_eq_ok.mp located) ⟨formed, conforms⟩ (fun _ => rfl) declared
    nomatch holder.symm.trans branch
  | some field =>
    have shaped := (leads_of_locate located declared).shaped laid.shaped
    cases field with
    | scalar name type =>
      obtain ⟨span, other, same, holds⟩ := shaped
      rw [same] at holder
      exact ⟨name, type, rfl, Option.some.inj holder ▸ holds⟩
    | composite =>
      obtain ⟨_, _, same, _⟩ := shaped
      nomatch same ▸ holder
    | group =>
      obtain ⟨_, _, same, _⟩ := shaped
      nomatch same ▸ holder

theorem countedBy?_scalar {place : Place} {name : String} {type : ScalarType}
    (located : record.locate path = .ok place) (declared : place.field = some (.scalar name type)) :
    record.countedBy? path = Template.groupCountedBy? place.owner name := by
  obtain ⟨route, node, field, owner⟩ := place
  obtain rfl : field = some (.scalar name type) := declared
  rw [countedBy?, located]

theorem value_eq_ok {value : Value} :
    record.value path = .ok value ↔
      ∃ place held, record.locate path = .ok place ∧ place.node.scalar? = some held ∧
        held.value = value := by
  unfold Record.value get
  cases record.locate path with
  | error => simp [bind, Except.bind]
  | ok place =>
    simp only [ok_bind, pure_bind, Node.value?, Except.ok.injEq, exists_and_left, exists_eq_left']
    cases place.node.scalar? <;> simp

/-- Putting what a scalar holds where it is leaves the record as it is, in whatever form it was given. -/
theorem LaidOut.setValue_self (laid : record.LaidOut) (formed : record.template.WellFormed)
    {place : Place} {name : String} {type : ScalarType} {held : Scalar} {value : Value}
    (located : record.locate path = .ok place) (declared : place.field = some (.scalar name type))
    (holder : place.node.scalar? = some held) (free : record.countedBy? path = none)
    (accepted : type.accept value path = .ok held.value) :
    record.setValue path value = .ok (⟨path, .value held.value held.value⟩, record) := by
  have leads := leads_of_locate located declared
  have same : Node.mapScalar (Scalar.put · held.value (type.label? held.value)) place.node =
      place.node := by
    obtain ⟨span, other, node, holds⟩ := leads.shaped laid.shaped
    rw [node] at holder ⊢
    obtain rfl := Option.some.inj holder
    exact congrArg (Node.scalar name span) (Scalar.put_self holds)
  refine setValue_eq_ok.mpr ⟨place, name, type, held.value, held, located, declared,
    countedBy?_scalar located declared ▸ free, accepted, holder, ?_, rfl⟩
  rw [leads.updateAt_eq_self same]
  exact laid.commit_eq formed

/-- Decoding and settling agree on every place, label and count, whatever the conditions test: in a
record as it was decoded each value that is held can be set again, and then nothing at all changes.
Counts alone are refused. -/
theorem setValue_held {template : Template} (formed : template.WellFormed) {settings : Settings}
    {bytes : Bytes} (decoded : decode template settings bytes = .ok record) {value : Value}
    (held : record.value path = .ok value) :
    record.setValue path value = .ok (⟨path, .value value value⟩, record) ↔
      record.countedBy? path = none := by
  have laid := laidOut_of_decode decoded
  obtain ⟨rfl, _⟩ := decode_reads decoded
  constructor
  · intro done
    obtain ⟨place, name, type, _, _, located, declared, free, _⟩ := setValue_eq_ok.mp done
    rw [countedBy?_scalar located declared, free]
  · intro free
    obtain ⟨place, scalar, located, holder, rfl⟩ := value_eq_ok.mp held
    obtain ⟨name, type, declared, holds⟩ := laid.scalar_of_locate formed located holder
    exact laid.setValue_self formed located declared holder free
      (ScalarType.accept_of_admits holds.value path)

/-- A boolean keeps its odd bits, and so does a group whose condition tests a count its items. -/
theorem setValue_held_sample : ∃ record counted,
    decode Template.sample {} [1, 0, 0, 1, 0, 2, 0, 3, 97, 98, 1, 65, 0, 7, 8] = .ok record ∧
      record.value [.name "pen", .name "wide"] = .ok (.bool true) ∧
      record.setValue [.name "pen", .name "wide"] (.bool true) =
        .ok (⟨[.name "pen", .name "wide"], .value (.bool true) (.bool true)⟩, record) ∧
      decode Template.counting {} [1, 5, 9] = .ok counted ∧
      counted.value [.name "extra", .index 0, .name "y"] = .ok (.uint 9) ∧
      counted.setValue [.name "extra", .index 0, .name "y"] (.uint 9) =
        .ok (⟨[.name "extra", .index 0, .name "y"], .value (.uint 9) (.uint 9)⟩, counted) := by
  obtain ⟨record, decoded, wide, free⟩ : ∃ record,
      decode Template.sample {} [1, 0, 0, 1, 0, 2, 0, 3, 97, 98, 1, 65, 0, 7, 8] = .ok record ∧
        record.value [.name "pen", .name "wide"] = .ok (.bool true) ∧
        record.countedBy? [.name "pen", .name "wide"] = none :=
    ⟨_, by cbv, by cbv, by cbv⟩
  obtain ⟨counted, opened, extra, apart⟩ : ∃ record,
      decode Template.counting {} [1, 5, 9] = .ok record ∧
        record.value [.name "extra", .index 0, .name "y"] = .ok (.uint 9) ∧
        record.countedBy? [.name "extra", .index 0, .name "y"] = none :=
    ⟨_, by cbv, by cbv, by cbv⟩
  exact ⟨record, counted, decoded, wide,
    (setValue_held Template.sample_wellFormed decoded wide).mpr free, opened, extra,
    (setValue_held (by decide +kernel) opened extra).mpr apart⟩

end Record
end ResourceTemplate
