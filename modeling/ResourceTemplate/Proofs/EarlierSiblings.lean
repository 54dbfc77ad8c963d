import ResourceTemplate.Proofs.FieldOrder
import ResourceTemplate.Proofs.TreeShape

/-! The fields that a checked group refers to come before it, so a tree that is laid out up to
the group already holds the values that decide on it. -/
namespace ResourceTemplate

variable {rule : LevelRule} {earlier : List Field} {before later : List Node} {field : Field}
  {node : Node} {start stop : Nat}

theorem Field.LaidAll.append (laid : Field.LaidAll rule earlier start before stop)
    (next : field.Laid rule stop node) :
    Field.LaidAll rule (earlier ++ [field]) start (before ++ [node]) node.stop := by
  induction earlier generalizing start before with
  | nil =>
    obtain ⟨rfl, rfl⟩ := laid
    exact ⟨node, [], rfl, next, rfl, rfl⟩
  | cons first earlier ih =>
    obtain ⟨head, rest, rfl, laid, follow⟩ := laid
    exact ⟨head, rest ++ [node], rfl, laid, ih follow⟩

/-- Under the name of a scalar field its value is found. -/
theorem Field.ShapedAll.sibling? (shaped : Field.ShapedAll earlier before) {name other : String}
    {type : ScalarType} (found : Template.find? earlier name = some (.scalar other type)) :
    ∃ held, ResourceTemplate.sibling? before name = some held.value ∧ type.Holds held := by
  induction earlier generalizing before with
  | nil => simp [Template.find?] at found
  | cons first earlier ih =>
    obtain ⟨head, rest, rfl, described, follow⟩ := shaped
    have named := described.name
    by_cases here : first.name = name
    · obtain rfl : first = .scalar other type := by simpa [Template.find?, here] using found
      obtain ⟨span, held, rfl, holds⟩ := described
      have here : other = name := here
      exact ⟨held, by simp [ResourceTemplate.sibling?, here], holds⟩
    · obtain ⟨held, value, holds⟩ := ih follow (by simpa [Template.find?, here] using found)
      exact ⟨held, by simpa [ResourceTemplate.sibling?, named, here] using value, holds⟩

/-- A group's condition is decided by the nodes before it, wherever they lie. -/
theorem Template.Follows.decided (follows : Template.Follows earlier field)
    (shaped : Field.ShapedAll earlier before) :
    ∃ present, ResourceTemplate.verdict? field.condition? before = some present := by
  cases conditional : field.condition? with
  | none => exact ⟨true, rfl⟩
  | some condition =>
    obtain ⟨tested, found, testable⟩ := follows.tested condition conditional
    cases tested with
    | scalar name type =>
      obtain ⟨held, value, _⟩ := shaped.sibling? found
      exact ⟨condition.holds held.value.number, by simp [ResourceTemplate.verdict?, value]⟩
    | composite | group => contradiction

theorem Template.Follows.verdict? (follows : Template.Follows earlier field)
    (laid : Field.LaidAll rule earlier start before stop) :
    ∃ present, ResourceTemplate.verdict? field.condition? before = some present :=
  follows.decided (Field.LaidAll.shaped _ _ _ _ laid)

/-- A group's number of items is stored before it. -/
theorem Template.Follows.siblingInteger? (follows : Template.Follows earlier field)
    (laid : Field.LaidAll rule earlier start before stop) {reference : String}
    (counted : field.countField? = some reference) :
    ∃ n, ResourceTemplate.siblingInteger? before reference = some n := by
  obtain ⟨counter, found, integral⟩ := follows.counter reference counted
  cases counter with
  | scalar name type =>
    obtain ⟨held, value, holds⟩ := (Field.LaidAll.shaped _ _ _ _ laid).sibling? found
    obtain ⟨n, integer⟩ := holds.integer? integral
    exact ⟨n, by simp [ResourceTemplate.siblingInteger?, value, integer]⟩
  | composite | group => contradiction

/-- Later siblings have no say in whether a group is settled. -/
theorem Field.Settled.of_append (follows : Template.Follows earlier field)
    (laid : Field.LaidAll rule earlier start before stop)
    (settled : field.Settled (before ++ later) node) : field.Settled before node := by
  cases field with
  | scalar => trivial
  | composite => trivial
  | group name fields repetition condition =>
    obtain ⟨filled, counted⟩ := settled
    obtain ⟨present, verdict⟩ := follows.verdict? laid
    have same : ResourceTemplate.verdict? condition before =
        ResourceTemplate.verdict? condition (before ++ later) :=
      verdict.trans (verdict?_append verdict).symm
    refine ⟨filled.transfer same, ?_⟩
    rw [same]
    intro holds countField zeroBased repeated
    subst repeated
    obtain ⟨n, stored⟩ := follows.siblingInteger? laid rfl
    rw [stored, ← counted holds countField zeroBased rfl, siblingInteger?_append stored]

end ResourceTemplate
