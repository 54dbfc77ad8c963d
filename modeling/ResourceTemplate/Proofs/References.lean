import ResourceTemplate.Record.Reference

/-! References between siblings, apart from the errors that a missing one raises. A verdict is
the outcome of a group's condition; earlier siblings settle it once and for all. -/
namespace ResourceTemplate

section Outcome

variable {ε α β : Type}

theorem bind_eq_ok {x : Except ε α} {f : α → Except ε β} {b : β} :
    (x >>= f) = .ok b ↔ ∃ a, x = .ok a ∧ f a = .ok b := by
  cases x <;> simp [bind, Except.bind]

theorem unit_bind_eq_ok {x : Except ε Unit} {f : Unit → Except ε β} {b : β} :
    (x >>= f) = .ok b ↔ x = .ok () ∧ f () = .ok b := by
  cases x <;> simp [bind, Except.bind]

@[simp] theorem pure_eq_ok {a b : α} : (pure a : Except ε α) = .ok b ↔ a = b := by
  simp [pure, Except.pure]

@[simp] theorem throw_ne_ok {error : ε} {a : α} : (throw error : Except ε α) ≠ .ok a := nofun

theorem throw_bind (error : ε) (f : α → Except ε β) : ((throw error : Except ε α) >>= f) = throw error :=
  rfl

theorem ok_bind (a : α) (f : α → Except ε β) : (Except.ok a >>= f) = f a := rfl

/-- Whether an outcome is this success can be seen from what has come of it. -/
instance decidableEqOk [DecidableEq α] (outcome : Except ε α) (a : α) : Decidable (outcome = .ok a) :=
  match outcome with
  | .ok b => decidable_of_iff (b = a) (by simp)
  | .error _ => isFalse nofun

theorem mapM_eq_ok {f : α → Except ε β} {g : α → β} {xs : List α}
    (each : ∀ x ∈ xs, f x = .ok (g x)) : xs.mapM f = .ok (xs.map g) := by
  induction xs with
  | nil => rfl
  | cons x xs ih =>
    rw [List.mapM_cons, each x (by simp), ih fun y member => each y (by simp [member])]
    rfl

end Outcome

def sibling? (nodes : List Node) (name : String) : Option Value :=
  (nodes.find? (·.name == name)).bind Node.value?

def siblingInteger? (nodes : List Node) (name : String) : Option Int :=
  (sibling? nodes name).bind Value.integer?

/-- Whether a group with this condition is present, if the field to be tested is there. -/
def verdict? (condition : Option Condition) (nodes : List Node) : Option Bool :=
  match condition with
  | none => some true
  | some condition => (sibling? nodes condition.field).map fun value => condition.holds value.number

@[simp] theorem verdict?_none (nodes : List Node) : verdict? none nodes = some true := rfl

theorem siblingValue_eq_ok {nodes : List Node} {name : String} {path : Path} {offset : Nat}
    {value : Value} :
    siblingValue nodes name path offset = .ok value ↔ sibling? nodes name = some value := by
  unfold siblingValue sibling?
  cases (nodes.find? (·.name == name)).bind Node.value? <;> simp

theorem isPresent_eq_ok {condition : Option Condition} {nodes : List Node} {path : Path}
    {offset : Nat} {present : Bool} :
    isPresent condition nodes path offset = .ok present ↔
      verdict? condition nodes = some present := by
  cases condition with
  | none => simp [isPresent]
  | some condition =>
    simp only [isPresent, verdict?, bind_eq_ok, siblingValue_eq_ok, pure_eq_ok,
      Option.map_eq_some_iff]

theorem storedCount_eq_ok {nodes : List Node} {countField : String} {zeroBased : Bool}
    {path : Path} {offset : Nat} {count : Int} :
    storedCount nodes countField zeroBased path offset = .ok count ↔
      ∃ stored, siblingInteger? nodes countField = some stored ∧
        (if zeroBased then stored + 1 else stored) = count := by
  simp only [storedCount, bind_eq_ok, siblingValue_eq_ok, siblingInteger?,
    Option.bind_eq_some_iff]
  constructor
  · rintro ⟨value, found, counted⟩
    cases integer : value.integer? with
    | none => simp [integer] at counted
    | some stored => exact ⟨stored, ⟨value, found, integer⟩, by simpa [integer] using counted⟩
  · rintro ⟨stored, ⟨value, found, integer⟩, counted⟩
    exact ⟨value, found, by simpa [integer] using counted⟩

theorem sibling?_append {earlier later : List Node} {name : String} {value : Value}
    (found : sibling? earlier name = some value) :
    sibling? (earlier ++ later) name = some value := by
  obtain ⟨node, first, held⟩ := Option.bind_eq_some_iff.mp found
  simp [sibling?, first, held]

theorem siblingInteger?_append {earlier later : List Node} {name : String} {n : Int}
    (found : siblingInteger? earlier name = some n) :
    siblingInteger? (earlier ++ later) name = some n := by
  obtain ⟨value, first, integer⟩ := Option.bind_eq_some_iff.mp found
  simp [siblingInteger?, sibling?_append first, integer]

theorem verdict?_append {condition : Option Condition} {earlier later : List Node}
    {present : Bool} (decided : verdict? condition earlier = some present) :
    verdict? condition (earlier ++ later) = some present := by
  cases condition with
  | none => exact decided
  | some condition =>
    obtain ⟨value, found, holds⟩ := Option.map_eq_some_iff.mp decided
    simp [verdict?, sibling?_append found, holds]

/-- The counts that the present groups of a field list call for. -/
def calledFor (fields : List Field) (nodes siblings : List Node) : List (String × Int) :=
  (fields.zip nodes).flatMap fun (field, node) =>
    match field with
    | .group _ _ (.counted countField zeroBased) condition =>
      if verdict? condition siblings = some true then
        [(countField, countValue zeroBased node.children.length)]
      else []
    | _ => []

def Decided (fields : List Field) (nodes : List Node) : Prop :=
  ∀ pair ∈ fields.zip nodes, ∃ present, verdict? pair.1.condition? nodes = some present

theorem derivedCounts_eq {fields : List Field} {nodes : List Node} {parent : Path} {offset : Nat}
    (decided : Decided fields nodes) :
    derivedCounts fields nodes parent offset = .ok (calledFor fields nodes nodes) := by
  unfold derivedCounts
  rw [mapM_eq_ok]
  · exact congrArg Except.ok List.flatMap_def.symm
  · rintro ⟨field, node⟩ member
    obtain ⟨present, verdict⟩ := decided (field, node) member
    match field with
    | .group name _ (.counted countField zeroBased) condition =>
      have known : isPresent condition nodes (parent.child name) offset = .ok present :=
        isPresent_eq_ok.mpr verdict
      have same : verdict? condition nodes = some present := verdict
      cases present <;> simp [known, same, ok_bind, pure, Except.pure]
    | .scalar .. | .composite .. => rfl
    | .group _ _ (.fixed _) _ | .group _ _ .untilEnd _ | .group _ _ .zeroTerminated _ => rfl

theorem mem_calledFor {fields : List Field} {nodes siblings : List Node} {name : String}
    {n : Int} :
    (name, n) ∈ calledFor fields nodes siblings ↔
      ∃ group inner zeroBased condition node,
        (Field.group group inner (.counted name zeroBased) condition, node) ∈ fields.zip nodes ∧
        verdict? condition siblings = some true ∧
        countValue zeroBased node.children.length = n := by
  simp only [calledFor, List.mem_flatMap, Prod.exists]
  constructor
  · rintro ⟨field, node, member, called⟩
    match field with
    | .group group inner (.counted countField zeroBased) condition =>
      dsimp only at called
      split at called
      · next holds =>
        obtain ⟨rfl, rfl⟩ : name = countField ∧ n = countValue zeroBased node.children.length := by
          simpa using called
        exact ⟨group, inner, zeroBased, condition, node, member, holds, rfl⟩
      · simp at called
    | .scalar .. | .composite .. => simp at called
    | .group _ _ (.fixed _) _ | .group _ _ .untilEnd _ | .group _ _ .zeroTerminated _ =>
      simp at called
  · rintro ⟨group, inner, zeroBased, condition, node, member, holds, rfl⟩
    exact ⟨_, node, member, by simp [holds]⟩

/-- Only the names of a tree's nodes and their order are checked against the fields. -/
theorem checkShape_eq_ok {fields : List Field} {nodes : List Node} {parent : Path}
    {offset : Nat} :
    checkShape fields nodes parent offset = .ok () ↔
      nodes.map Node.name = fields.map Field.name := by
  have matching : (nodes.length = fields.length ∧
      (fields.zip nodes).find? (fun pair => pair.1.name != pair.2.name) = none) ↔
        nodes.map Node.name = fields.map Field.name := by
    induction fields generalizing nodes with
    | nil => cases nodes <;> simp
    | cons field fields ih =>
      cases nodes with
      | nil => simp
      | cons node nodes =>
        by_cases same : field.name = node.name
        · simpa [same] using @ih nodes
        · simp [same, Ne.symm same]
  rw [← matching]
  unfold checkShape
  by_cases sized : nodes.length = fields.length
  · simp only [sized, ne_eq, not_true_eq_false, if_false, true_and]
    cases (fields.zip nodes).find? (fun pair => pair.1.name != pair.2.name) with
    | none => exact iff_of_true rfl rfl
    | some wrong => exact iff_of_false nofun nofun
  · simp only [sized, ne_eq, not_false_eq_true, if_true, false_and, iff_false]
    exact nofun

section Names

variable {nodes : List Node} {fields : List Field}

/-- Under distinct names a name refers to the node that bears it. -/
theorem find?_node (distinct : (nodes.map Node.name).Nodup) {node : Node}
    (member : node ∈ nodes) : nodes.find? (·.name == node.name) = some node := by
  induction nodes with
  | nil => simp at member
  | cons first nodes ih =>
    obtain ⟨fresh, distinct⟩ := List.nodup_cons.mp distinct
    rcases List.mem_cons.mp member with rfl | member
    · simp
    · have other : first.name ≠ node.name := fun same =>
        fresh (same ▸ List.mem_map_of_mem member)
      simpa [other] using ih distinct member

theorem sibling?_member (distinct : (nodes.map Node.name).Nodup) {node : Node}
    (member : node ∈ nodes) : sibling? nodes node.name = node.value? := by
  simp [sibling?, find?_node distinct member]

end Names
end ResourceTemplate
