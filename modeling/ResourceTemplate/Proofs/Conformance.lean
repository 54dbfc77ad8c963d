import ResourceTemplate.Proofs.Failures

/-! Trees that conform to their template: one node for each field, in order and under its name, items
under their numbers, and scalars that hold a value of their type with its label. Every record of a
run has such a tree, so that no edit and no encoding of it finds the tree at fault. -/
namespace ResourceTemplate

mutual
def Field.Conforms : Field → Node → Prop
  | .scalar name type, node => ∃ span held, node = .scalar name span held ∧ type.Holds held
  | .composite name fields, node =>
    ∃ span children, node = .branch name span .composite children ∧ ConformsAll fields children
  | .group name fields _ _, node =>
    ∃ span items, node = .branch name span .group items ∧
      ∀ (index : Nat) (item : Node), items[index]? = some item →
        ∃ span children, item = .branch (toString index) span .item children ∧
          ConformsAll fields children

def Field.ConformsAll : List Field → List Node → Prop
  | [], nodes => nodes = []
  | field :: fields, nodes =>
    ∃ node rest, nodes = node :: rest ∧ field.Conforms node ∧ ConformsAll fields rest
end

/-- Items are named by their position in the list. -/
theorem ItemsLaid.numbered {level : Nat → List Node → Nat → Prop} {index start stop position : Nat}
    {items : List Node} {item : Node} (laid : ItemsLaid level index start items stop)
    (there : items[position]? = some item) :
    ∃ (start length : Nat) (children : List Node),
      item = .branch (toString (index + position)) ⟨start, length⟩ .item children ∧
        level start children (start + length) := by
  induction items generalizing index start position with
  | nil => simp at there
  | cons head items ih =>
    obtain ⟨length, children, rfl, first, follow⟩ := laid
    cases position with
    | zero =>
      obtain rfl := Option.some.inj there
      exact ⟨start, length, children, rfl, first⟩
    | succ position =>
      have later := ih follow there
      rwa [Nat.add_right_comm] at later

mutual
theorem Field.Laid.conforms {rule : LevelRule} :
    (field : Field) → (start : Nat) → (node : Node) → field.Laid rule start node →
      field.Conforms node
  | .scalar .., _, _, ⟨held, same, holds⟩ => ⟨_, held, same, holds⟩
  | .composite _ fields, start, _, ⟨length, children, same, _, laid⟩ =>
    ⟨_, children, same, Field.LaidAll.conforms fields start children (start + length) laid⟩
  | .group _ fields _ _, _, _, ⟨length, items, same, laid⟩ => by
    refine ⟨_, items, same, fun index item there => ?_⟩
    rcases laid with ⟨rfl, _⟩ | ⟨last, laid, _⟩
    · simp at there
    · obtain ⟨start, length, children, rfl, _, laid⟩ := laid.numbered there
      rw [Nat.zero_add]
      exact ⟨_, children, rfl,
        Field.LaidAll.conforms fields start children (start + length) laid⟩

theorem Field.LaidAll.conforms {rule : LevelRule} :
    (fields : List Field) → (start : Nat) → (nodes : List Node) → (stop : Nat) →
      Field.LaidAll rule fields start nodes stop → Field.ConformsAll fields nodes
  | [], _, _, _, ⟨empty, _⟩ => empty
  | field :: fields, start, _, stop, ⟨node, rest, same, first, follow⟩ =>
    ⟨node, rest, same, Field.Laid.conforms field start node first,
      Field.LaidAll.conforms fields node.stop rest stop follow⟩
end

namespace Record

/-- The tree of a record conforms to its template after any edits. It is written without fault found
with it, and an edit fails only over the path, the value or the count that it is given. -/
theorem conforms_of_reachable {template : Template} (formed : template.WellFormed)
    {settings : Settings} {record : Record} (reachable : Reachable template settings record) :
    record.template = template ∧ Field.ConformsAll template record.fields ∧
      (∀ path offset reason, record.encode ≠ .error (.mismatch path offset reason)) ∧
      ∀ asked edit error, record.apply asked edit = .error error → error.OfEdit := by
  obtain ⟨rfl, laid⟩ := reachable.laid formed
  have conforms := Field.LaidAll.conforms record.template 0 record.fields record.laidOut laid.laid
  refine ⟨rfl, conforms, ?_, fun asked edit => (apply_fails formed laid asked edit).among⟩
  intro path offset reason failed
  nomatch (encode_fails formed laid).among _ failed

theorem conforms_of_reachable_sample : ∃ record error, Reachable Template.sample {} record ∧
    Field.ConformsAll Template.sample record.fields ∧
      record.apply {} (.insertItem [.name "bounds"] 0) = .error error ∧ error.OfEdit := by
  obtain ⟨first, error, decoded, failed⟩ : ∃ record error,
      decode Template.sample {} [1, 0, 0, 1, 0, 2, 0, 3, 97, 98, 1, 65, 0, 7, 8] = .ok record ∧
        (record.attempt {} (.setText [.name "kind"] "path")).apply {} (.insertItem [.name "bounds"] 0) =
          .error error :=
    ⟨_, _, by cbv, by cbv⟩
  have reachable := Reachable.edited {} (.setText [.name "kind"] "path") (.decoded decoded)
  obtain ⟨_, conforms, _, edits⟩ := conforms_of_reachable Template.sample_wellFormed reachable
  exact ⟨_, error, reachable, conforms, failed, edits {} _ error failed⟩

end Record
end ResourceTemplate
