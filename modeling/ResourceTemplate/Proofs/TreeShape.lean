import ResourceTemplate.Proofs.TreeLayout

/-! Trees that have the shape of their template, wherever their nodes lie and however many items
their groups hold. This is what an edit keeps before the tree is settled again. -/
namespace ResourceTemplate

mutual
/-- `node` has the name, the kind and the contents that the field describes. -/
def Field.Shaped : Field → Node → Prop
  | .scalar name type, node => ∃ span held, node = .scalar name span held ∧ type.Holds held
  | .composite name fields, node =>
    ∃ span children, node = .branch name span .composite children ∧ ShapedAll fields children
  | .group name fields _ _, node =>
    ∃ span items, node = .branch name span .group items ∧
      ∀ item ∈ items, item.tag = .branch .item ∧ ShapedAll fields item.children

def Field.ShapedAll : List Field → List Node → Prop
  | [], nodes => nodes = []
  | field :: fields, nodes =>
    ∃ node rest, nodes = node :: rest ∧ field.Shaped node ∧ ShapedAll fields rest
end

def Field.ItemShaped (fields : List Field) (item : Node) : Prop :=
  item.tag = .branch .item ∧ ShapedAll fields item.children

section Shaped

variable {field : Field} {fields : List Field} {node : Node} {nodes : List Node}

theorem Field.Shaped.name (shaped : field.Shaped node) : node.name = field.name := by
  cases field with
  | scalar => obtain ⟨span, held, rfl, _⟩ := shaped; rfl
  | composite => obtain ⟨span, children, rfl, _⟩ := shaped; rfl
  | group => obtain ⟨span, items, rfl, _⟩ := shaped; rfl

theorem Field.ShapedAll.names (shaped : Field.ShapedAll fields nodes) :
    nodes.map Node.name = fields.map Field.name := by
  induction fields generalizing nodes with
  | nil => rw [shaped]; rfl
  | cons field fields ih =>
    obtain ⟨node, rest, rfl, first, follow⟩ := shaped
    rw [List.map_cons, List.map_cons, first.name, ih follow]

theorem Field.ShapedAll.length_eq (shaped : Field.ShapedAll fields nodes) :
    nodes.length = fields.length := by
  simpa using congrArg List.length shaped.names

theorem Field.ShapedAll.getElem? (shaped : Field.ShapedAll fields nodes) {position : Nat}
    (declared : fields[position]? = some field) (there : nodes[position]? = some node) :
    field.Shaped node := by
  induction fields generalizing nodes position with
  | nil => simp at declared
  | cons first fields ih =>
    obtain ⟨head, rest, rfl, laid, follow⟩ := shaped
    cases position with
    | zero =>
      obtain ⟨rfl, rfl⟩ : first = field ∧ head = node := by simpa using And.intro declared there
      exact laid
    | succ position => exact ih follow (by simpa using declared) (by simpa using there)

/-- One node of a tree may be exchanged for another that its field describes. -/
theorem Field.ShapedAll.set (shaped : Field.ShapedAll fields nodes) {position : Nat}
    (declared : fields[position]? = some field) (kept : field.Shaped node) :
    Field.ShapedAll fields (nodes.set position node) := by
  induction fields generalizing nodes position with
  | nil => simp at declared
  | cons first fields ih =>
    obtain ⟨head, rest, rfl, laid, follow⟩ := shaped
    cases position with
    | zero =>
      obtain rfl : first = field := by simpa using declared
      exact ⟨node, rest, rfl, kept, follow⟩
    | succ position =>
      exact ⟨head, rest.set position node, rfl, laid, ih follow (by simpa using declared)⟩

end Shaped

mutual
/-- A layout forgets to a shape. -/
theorem Field.Laid.shaped {rule : LevelRule} :
    (field : Field) → (start : Nat) → (node : Node) → field.Laid rule start node →
      field.Shaped node
  | .scalar .., _, _, ⟨held, same, holds⟩ => ⟨_, held, same, holds⟩
  | .composite _ fields, start, _, ⟨length, children, same, _, laid⟩ =>
    ⟨_, children, same, Field.LaidAll.shaped fields start children (start + length) laid⟩
  | .group _ fields _ _, _, _, ⟨length, items, same, laid⟩ => by
    refine ⟨_, items, same, fun item member => ?_⟩
    rcases laid with ⟨rfl, _⟩ | ⟨last, laid, _⟩
    · simp at member
    · obtain ⟨_, start, length, children, rfl, _, laid⟩ := laid.member member
      exact ⟨rfl, Field.LaidAll.shaped fields start children (start + length) laid⟩

theorem Field.LaidAll.shaped {rule : LevelRule} :
    (fields : List Field) → (start : Nat) → (nodes : List Node) → (stop : Nat) →
      Field.LaidAll rule fields start nodes stop → Field.ShapedAll fields nodes
  | [], _, _, _, ⟨empty, _⟩ => empty
  | field :: fields, start, _, stop, ⟨node, rest, same, first, follow⟩ =>
    ⟨node, rest, same, Field.Laid.shaped field start node first,
      Field.LaidAll.shaped fields node.stop rest stop follow⟩
end

mutual
theorem Field.shaped_default : (field : Field) → field.Shaped field.default
  | .scalar _ type => ⟨_, _, rfl, type.holds_default⟩
  | .composite _ fields => ⟨_, _, rfl, Field.shapedAll_defaults fields⟩
  | .group .. => ⟨_, [], rfl, by simp⟩

theorem Field.shapedAll_defaults :
    (fields : List Field) → Field.ShapedAll fields (Field.defaults fields)
  | [] => rfl
  | field :: fields =>
    ⟨_, _, rfl, Field.shaped_default field, Field.shapedAll_defaults fields⟩
end

/-- The items of a group keep the shape of its fields when some are made or cut off. -/
theorem shaped_fillItems {fields : List Field} {items : List Node} (repetition : Repetition)
    (shaped : ∀ item ∈ items, Field.ItemShaped fields item) :
    ∀ item ∈ fillItems fields repetition items, Field.ItemShaped fields item := by
  cases repetition with
  | fixed count =>
    intro item member
    rcases List.mem_append.mp member with kept | made
    · exact shaped item (List.mem_of_mem_take kept)
    · obtain ⟨index, _, rfl⟩ := List.mem_map.mp made
      exact ⟨rfl, Field.shapedAll_defaults fields⟩
  | counted | untilEnd | zeroTerminated => exact shaped

theorem length_fillItems {fields : List Field} {count : Nat} {items : List Node} :
    (fillItems fields (.fixed count) items).length = count := by
  simp only [fillItems, List.length_append, List.length_take, List.length_map, List.length_range']
  omega

/-- An empty group is filled up with default items. -/
theorem of_mem_fillItems {fields : List Field} {repetition : Repetition} {item : Node}
    (member : item ∈ fillItems fields repetition []) : ∃ number, defaultItem fields number = item := by
  cases repetition with
  | fixed count =>
    obtain ⟨number, _, made⟩ : ∃ number < count, defaultItem fields number = item := by
      simpa [fillItems] using member
    exact ⟨number, made⟩
  | counted | untilEnd | zeroTerminated => contradiction

/-- A group that has its number of items keeps them. -/
theorem fillItems_eq {fields : List Field} {repetition : Repetition} {items : List Node}
    (filled : ∀ count, repetition = .fixed count → items.length = count) :
    fillItems fields repetition items = items := by
  cases repetition with
  | fixed count =>
    obtain rfl : items.length = count := filled count rfl
    simp [fillItems]
  | counted | untilEnd | zeroTerminated => rfl

end ResourceTemplate
