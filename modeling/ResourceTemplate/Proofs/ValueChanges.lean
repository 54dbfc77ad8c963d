import ResourceTemplate.Proofs.ChangedBytes
import ResourceTemplate.Proofs.HeldScalars

/-! What a new value changes. Apart from the scalar itself, it adds and drops the groups whose
condition tests it, and sets the counts of those that it adds. -/
namespace ResourceTemplate

def Field.Tests (group : Field) (name : String) : Prop :=
  ∃ condition, group.condition? = some condition ∧ condition.field = name

/-- A group whose condition tests the field under this name is present or absent with the new value,
and was not so with the old one. -/
def Field.Turns (group : Field) (name : String) (old new : Value) (present : Bool) : Prop :=
  ∃ condition, group.condition? = some condition ∧ condition.field = name ∧
    condition.holds old.number = !present ∧ condition.holds new.number = present

/-- The value that siblings find under a name is held by the scalar field of this name. -/
theorem scalar_of_sibling {rule : LevelRule} {fields : List Field} {nodes : List Node} {start stop : Nat}
    (checked : Template.check fields = .ok ()) (laid : Field.LaidAll rule fields start nodes stop)
    {name : String} {value : Value} (found : sibling? nodes name = some value) :
    ∃ position type span held, Template.position? fields name = some position ∧
      fields[position]? = some (.scalar name type) ∧
      nodes[position]? = some (.scalar name span held) ∧ type.Holds held ∧ held.value = value := by
  obtain ⟨node, bears, holder⟩ := Option.bind_eq_some_iff.mp found
  obtain ⟨held, scalar, same⟩ := Option.map_eq_some_iff.mp holder
  obtain rfl : node.name = name := by simpa using List.find?_some bears
  obtain ⟨position, there⟩ := List.mem_iff_getElem?.mp (List.mem_of_find?_eq_some bears)
  obtain ⟨field, declared⟩ : ∃ field, fields[position]? = some field :=
    ⟨_, List.getElem?_eq_getElem (laid.length_eq ▸ (List.getElem?_eq_some_iff.mp there).1)⟩
  have named := Template.position?_eq_some (Template.names_nodup checked) declared
  obtain ⟨_, described⟩ := laid.pair (mem_zip_of_getElem? declared there)
  cases field with
  | scalar name type =>
    obtain ⟨other, rfl, holds⟩ := described
    obtain rfl := Option.some.inj scalar
    exact ⟨position, type, _, other, named, declared, there, holds, same⟩
  | composite =>
    obtain ⟨_, _, rfl, _⟩ := described
    nomatch scalar
  | group =>
    obtain ⟨_, _, rfl, _⟩ := described
    nomatch scalar

/-- The node of a scalar field of a settled level is given a new value, and the level is settled
again. -/
structure Revalued (owner : List Field) (before : List Node) (position : Nat) (name : String)
    (type : ScalarType) (span : Span) (old new : Scalar) (after : List Node) : Prop where
  declared : owner[position]? = some (.scalar name type)
  there : before[position]? = some (.scalar name span old)
  free : Template.groupCountedBy? owner name = none
  resettled : Resettled owner before position (.scalar name span new) after
  level : ∃ start stop, Field.LevelLaid Settled owner start after stop

section Siblings

variable {nodes : List Node} {position : Nat} {node : Node}

theorem sibling?_position {fields : List Field} {name : String}
    (names : nodes.map Node.name = fields.map Field.name)
    (found : Template.position? fields name = some position) (there : nodes[position]? = some node) :
    sibling? nodes name = node.value? := by
  rw [sibling?, find?_of_position names found there]
  rfl

theorem sibling?_set_ne (there : nodes[position]? = some node) (new : Node)
    (named : new.name = node.name) {name : String} (apart : name ≠ node.name) :
    sibling? (nodes.set position new) name = sibling? nodes name := by
  induction nodes generalizing position with
  | nil => simp at there
  | cons first nodes ih =>
    cases position with
    | zero =>
      obtain rfl : first = node := by simpa using there
      simp [sibling?, named, apart.symm]
    | succ position =>
      have rest := ih (by simpa using there)
      by_cases here : first.name = name
      · simp [sibling?, here]
      · simpa [sibling?, here] using rest

/-- A node that is no count has no part in the counts. -/
theorem siblingInteger?_set {owner : List Field} {new : Node} (there : nodes[position]? = some node)
    (named : new.name = node.name) (free : Template.groupCountedBy? owner node.name = none) :
    ∀ countField ∈ owner.filterMap Field.countField?,
      siblingInteger? (nodes.set position new) countField = siblingInteger? nodes countField := by
  intro countField counted
  have apart : countField ≠ node.name := fun same =>
    Template.groupCountedBy?_eq_none.mp free (same ▸ counted)
  rw [siblingInteger?, sibling?_set_ne there new named apart, siblingInteger?]

end Siblings

theorem Field.Turns.old_verdict {group : Field} {name : String} {old new : Value} {present : Bool}
    {nodes : List Node} (turns : group.Turns name old new present)
    (holds : sibling? nodes name = some old) : verdict? group.condition? nodes = some !present := by
  obtain ⟨condition, conditional, rfl, before, _⟩ := turns
  simp [conditional, verdict?, holds, before]

theorem Field.Turns.new_verdict {group : Field} {name : String} {old new : Value} {present : Bool}
    {nodes : List Node} (turns : group.Turns name old new present)
    (holds : sibling? nodes name = some new) : verdict? group.condition? nodes = some present := by
  obtain ⟨condition, conditional, rfl, _, after⟩ := turns
  simp [conditional, verdict?, holds, after]

structure Varied (name : String) (old new : Value) (nodes others : List Node) : Prop where
  before : sibling? nodes name = some old
  after : sibling? others name = some new
  apart : ∀ other, other ≠ name → sibling? others other = sibling? nodes other

section Varied

variable {name : String} {old new : Value} {nodes others : List Node} {field : Field}
  (varied : Varied name old new nodes others)
include varied

/-- Conditions are decided as before, apart from those that test the value and turn. -/
theorem Varied.verdict?_eq (steady : ∀ present, ¬ field.Turns name old new present) :
    verdict? field.condition? others = verdict? field.condition? nodes := by
  cases conditional : field.condition? with
  | none => rfl
  | some condition =>
    by_cases tested : condition.field = name
    · by_cases same : condition.holds old.number = condition.holds new.number
      · simp [verdict?, tested, varied.before, varied.after, same]
      · exact absurd ⟨condition, conditional, tested, Bool.eq_not.mpr same, rfl⟩ (steady _)
    · simp [verdict?, varied.apart _ tested]

/-- A group that has become present has turned. -/
theorem Varied.turns (absent : verdict? field.condition? nodes ≠ some true)
    (present : verdict? field.condition? others = some true) : field.Turns name old new true := by
  obtain ⟨held, turns⟩ : ∃ held, field.Turns name old new held := by
    by_contra steady
    exact absent ((varied.verdict?_eq (not_exists.mp steady)).symm.trans present)
  obtain rfl := Option.some.inj ((turns.new_verdict varied.after).symm.trans present)
  exact turns

end Varied

section Revalued

variable {owner : List Field} {before after : List Node} {position other : Nat} {name : String}
  {type : ScalarType} {span : Span} {old new : Scalar} {field : Field} {node : Node}
  (revalued : Revalued owner before position name type span old new after)
include revalued

theorem Revalued.named : Template.position? owner name = some position :=
  Template.position?_eq_some (Template.names_nodup revalued.resettled.checked) revalued.declared

theorem Revalued.old_value : sibling? before name = some old.value := by
  obtain ⟨_, _, _, laid⟩ := revalued.resettled.level
  rw [sibling?_position laid.names revalued.named revalued.there, Node.value?_scalar]

theorem Revalued.new_value :
    sibling? (before.set position (.scalar name span new)) name = some new.value := by
  have inside := (List.getElem?_eq_some_iff.mp revalued.there).1
  rw [sibling?_position revalued.resettled.shaped.names revalued.named (List.getElem?_set_self inside),
    Node.value?_scalar]

/-- The scalar holds the new value when the level is settled. -/
theorem Revalued.here : ∃ place, after[position]? = some (.scalar name place new) := by
  obtain ⟨again, _, _, place, found, alone, _⟩ := revalued.resettled.here revalued.declared
    revalued.there (fun _ _ same => by cases same; exact revalued.free)
  obtain rfl := pure_eq_ok.mp alone
  exact ⟨_, found⟩

theorem Revalued.settled_value : sibling? after name = some new.value := by
  obtain ⟨_, _, _, laid⟩ := revalued.level
  obtain ⟨_, here⟩ := revalued.here
  rw [sibling?_position laid.names revalued.named here, Node.value?_scalar]

theorem Revalued.varied : Varied name old.value new.value before
    (before.set position (.scalar name span new)) :=
  ⟨revalued.old_value, revalued.new_value,
    fun _ other => sibling?_set_ne revalued.there (.scalar name span new) rfl other⟩

/-- Away from the scalar, contents are kept but in the groups that turn and in the counts of those
that become present. -/
theorem Revalued.elsewhere (apart : other ≠ position) (declared : owner[other]? = some field)
    (there : before[other]? = some node)
    (steady : ∀ present, ¬ field.Turns name old.value new.value present) :
    ∃ again, after[other]? = some again ∧ (again.content = node.content ∨
      ∃ countField type, field = .scalar countField type ∧
        ∃ group ∈ owner, group.Turns name old.value new.value true ∧
          group.countField? = some countField) := by
  obtain ⟨again, found, alike | ⟨countField, type, scalar, calls⟩⟩ :=
    revalued.resettled.elsewhere apart declared there (revalued.varied.verdict?_eq steady)
  · exact ⟨again, found, .inl alike⟩
  · obtain ⟨caller, group, inner, zeroBased, condition, _, _, counted, _, _, present, changed⟩ := calls
    refine ⟨again, found, .inr ⟨countField, type, scalar, _, List.mem_of_getElem? counted,
      revalued.varied.turns (fun held => ?_) present, rfl⟩⟩
    -- The group is not at the position of the scalar.
    obtain ⟨rfl, _⟩ := changed held
    nomatch revalued.declared.symm.trans counted

/-- A node has the same contents if it is neither the scalar, nor a group that turns, nor the count
of a group that becomes present. -/
theorem Revalued.contents_getElem? (apart : other ≠ position) (declared : owner[other]? = some field)
    (steady : ∀ present, ¬ field.Turns name old.value new.value present)
    (uncounted : ∀ countField type, field = .scalar countField type → ∀ group ∈ owner,
      group.Turns name old.value new.value true → group.countField? ≠ some countField) :
    (Node.contents after)[other]? = (Node.contents before)[other]? := by
  obtain ⟨_, _, _, laid⟩ := revalued.resettled.level
  obtain ⟨node, there⟩ := laid.getElem? declared
  obtain ⟨again, found, alike | ⟨countField, type, scalar, group, member, turns, counted⟩⟩ :=
    revalued.elsewhere apart declared there steady
  · rw [Node.contents_eq, Node.contents_eq, List.getElem?_map, List.getElem?_map, there, found,
      Option.map_some, Option.map_some, alike]
  · exact absurd counted (uncounted countField type scalar group member turns)

/-- Where no condition tests the scalar, nothing but the scalar changes. -/
theorem Revalued.contents_eq (untested : ∀ group ∈ owner, ¬ group.Tests name) :
    ∃ place, after[position]? = some (.scalar name place new) ∧
      Node.contents after =
        (Node.contents before).set position (Node.scalar name place new).content := by
  obtain ⟨place, here⟩ := revalued.here
  refine ⟨place, here, revalued.resettled.contents_eq revalued.declared revalued.there ?_ here nofun⟩
  intro field member
  refine revalued.varied.verdict?_eq fun present turns => untested field member ?_
  obtain ⟨condition, conditional, tested, _⟩ := turns
  exact ⟨condition, conditional, tested⟩

end Revalued

/-- What becomes of a group of items with the fields `inner` when the field `name` is given another
value: if its condition turns, the group is emptied, or filled with the default items it asks for. -/
structure GroupTurned (group : Field) (inner : List Field) (repetition : Repetition) (name : String)
    (old new : Value) (node again : Node) : Prop where
  kept : (∀ present, ¬ group.Turns name old new present) →
    Node.contents again.children = Node.contents node.children
  emptied : group.Turns name old new false → again.children = []
  filled : group.Turns name old new true →
    (∀ count, repetition = .fixed count → again.children.length = count) ∧
      ((∀ count, repetition ≠ .fixed count) → again.children = []) ∧
      ∀ item ∈ again.children, Fresh inner item

section Groups

variable {owner inner : List Field} {before after : List Node} {position other : Nat}
  {name group : String} {type : ScalarType} {span : Span} {old new : Scalar} {repetition : Repetition}
  {condition : Option Condition}
  (revalued : Revalued owner before position name type span old new after)
  (declared : owner[other]? = some (.group group inner repetition condition))
include revalued declared

theorem Revalued.turned : ∃ node again, before[other]? = some node ∧ after[other]? = some again ∧
    GroupTurned (.group group inner repetition condition) inner repetition name old.value new.value
      node again := by
  have apart : other ≠ position := by
    rintro rfl
    nomatch declared.symm.trans revalued.declared
  obtain ⟨_, _, kept, laid⟩ := revalued.resettled.level
  obtain ⟨_, _, settled, final⟩ := revalued.level
  obtain ⟨node, there⟩ := laid.getElem? declared
  obtain ⟨again, found⟩ := final.getElem? declared
  have earlier := kept _ (mem_zip_of_getElem? declared there)
  have later := settled _ (mem_zip_of_getElem? declared found)
  refine ⟨node, again, there, found, fun steady => ?_, fun turns => ?_, fun turns => ?_⟩
  · obtain ⟨final, held, alike | ⟨_, _, scalar, _⟩⟩ := revalued.elsewhere apart declared there steady
    · obtain rfl := Option.some.inj (found.symm.trans held)
      exact Node.children_of_content alike
    · nomatch scalar
  · exact (later.absent (turns.new_verdict revalued.settled_value)).1
  · have empty := (earlier.absent (turns.old_verdict revalued.old_value)).1
    obtain ⟨final, held, fresh, free⟩ := revalued.resettled.filled declared
      (by rw [List.getElem?_set_ne apart.symm, there]) empty
    obtain rfl := Option.some.inj (found.symm.trans held)
    exact ⟨later.fixed (turns.new_verdict revalued.settled_value), free, fresh⟩

/-- The count field of a group that becomes present holds the count of no items. -/
theorem Revalued.count {countField : String} {zeroBased : Bool}
    (counted : repetition = .counted countField zeroBased)
    (turns : (Field.group group inner repetition condition).Turns name old.value new.value true) :
    siblingInteger? after countField = some (countValue zeroBased 0) := by
  obtain ⟨_, again, _, found, turned⟩ := revalued.turned declared
  obtain ⟨_, _, settled, _⟩ := revalued.level
  have later := settled _ (mem_zip_of_getElem? declared found)
  rw [later.counted (turns.new_verdict revalued.settled_value) countField zeroBased counted,
    (turned.filled turns).2.1 (by simp [counted])]
  rfl

end Groups

namespace Record

def held? (record : Record) (path : Path) : Option Scalar :=
  match record.get path with
  | .ok node => node.scalar?
  | .error _ => none

section Held

variable {rule : LevelRule} {record : Record} {path : Path} {held : Scalar}

theorem held?_eq_some (laid : record.Laid rule) (formed : record.template.WellFormed) :
    record.held? path = some held ↔ ∃ route owner field node,
      Leads record.template record.fields path route owner field node ∧ node.scalar? = some held := by
  constructor
  · intro found
    unfold held? at found
    split at found
    · next node got =>
      obtain ⟨place, located, made⟩ := bind_eq_ok.mp got
      obtain rfl := pure_eq_ok.mp made
      obtain ⟨name, type, declared, _⟩ := laid.scalar_of_locate formed located found
      exact ⟨_, _, _, _, leads_of_locate located declared, found⟩
    · nomatch found
  · rintro ⟨route, owner, field, node, leads, holder⟩
    rw [held?, get_of_leads leads]
    exact holder

end Held

/-- What lies in a group that turns, or is the count of one that becomes present. -/
def Affected (parent : Path) (owner : List Field) (name : String) (old new : Value) (path : Path) :
    Prop :=
  ∃ group ∈ owner, ∃ present, group.Turns name old new present ∧
    (parent.child group.name <+: path ∨
      present = true ∧ ∃ countField, group.countField? = some countField ∧
        path = parent.child countField)

/-- The field `name` at `parent`, which is one of the fields `owner`, holds `new` instead of `old`. -/
structure ValueSet (record result : Record) (path parent : Path) (owner : List Field) (name : String)
    (type : ScalarType) (old new : Scalar) : Prop where
  located : path = parent.child name ∧ ∃ route node, record.locate path =
    .ok ⟨route, node, some (.scalar name type), owner⟩
  before : record.held? path = some old
  after : result.held? path = some new
  elsewhere : ∀ other ≠ path, ¬ Affected parent owner name old.value new.value other →
    result.held? other = record.held? other
  groups : ∀ group inner repetition condition, .group group inner repetition condition ∈ owner →
    ∃ node again, record.get (parent.child group) = .ok node ∧
      result.get (parent.child group) = .ok again ∧
      GroupTurned (.group group inner repetition condition) inner repetition name old.value new.value
        node again
  counts : ∀ group inner countField zeroBased condition,
    .group group inner (.counted countField zeroBased) condition ∈ owner →
    (Field.group group inner (.counted countField zeroBased) condition).Turns name old.value new.value
      true →
    ∃ held, result.held? (parent.child countField) = some held ∧
      held.value.integer? = some (countValue zeroBased 0)
  encoded : (∀ group ∈ owner, ¬ group.Tests name) → ∀ bytes edited, record.encode = .ok bytes →
    result.encode = .ok edited → ∃ node part, record.get path = .ok node ∧
      encodeScalar type new none path node.offset = .ok part ∧
      edited = bytes.splice node.offset node.length part
  trailing : result.trailing = record.trailing

theorem Reaches.held?_result {record result : Record} {parent : Path} {owner : List Field}
    {before after : List Node} (reached : Reaches record result parent owner before after) {path : Path}
    {route : List Nat} {own : List Field} {field : Field} {node : Node}
    (leads : Leads owner after path route own field node) :
    result.held? (parent ++ path) = node.scalar? := by
  rw [held?, reached.get_result leads]

section Reaches

variable {record result : Record} {parent : Path} {owner : List Field} {before after : List Node}
  {position : Nat} {name : String} {type : ScalarType} {span : Span} {old new : Scalar}
  (reached : Reaches record result parent owner before after)
  (revalued : Revalued owner before position name type span old new after)
include reached revalued

theorem Reaches.elsewhere {path : Path} (apart : path ≠ parent.child name)
    (unaffected : ¬ Affected parent owner name old.value new.value path) :
    result.held? path = record.held? path := by
  have formed := reached.formed
  rw [← reached.same] at formed
  apply Option.ext
  intro held
  rw [held?_eq_some reached.again formed, held?_eq_some reached.laid reached.formed, reached.same]
  have shaped := reached.again.shaped
  rw [reached.same] at shaped
  refine reached.frame.scalar_iff reached.laid.shaped shaped ?_ held
  rintro first rest place rfl named
  obtain ⟨field, declared, rfl⟩ := field_of_position named
  by_cases here : place = position
  · subst here
    obtain rfl := Option.some.inj (declared.symm.trans revalued.declared)
    refine .inr ⟨?_, name, type, revalued.declared⟩
    rintro rfl
    exact apart rfl
  by_cases ended : rest ≠ [] ∧ ∃ other type, owner[place]? = some (.scalar other type)
  · exact .inr ended
  · have member := List.mem_of_getElem? declared
    refine .inl (revalued.contents_getElem? here declared (fun present turns => ?_) ?_)
    · exact unaffected ⟨field, member, present, turns, .inl (by simp [Path.child])⟩
    · rintro countField other rfl group among turns counted
      have last : rest = [] := by
        by_contra more
        exact ended ⟨more, countField, other, declared⟩
      subst last
      exact unaffected ⟨group, among, true, turns, .inr ⟨rfl, countField, counted, rfl⟩⟩

/-- The scalar is found where it was, with the new value. -/
theorem Reaches.held : record.held? (parent.child name) = some old ∧
    result.held? (parent.child name) = some new := by
  obtain ⟨place, here⟩ := revalued.here
  have named := revalued.named
  have declared := revalued.declared
  refine ⟨?_, reached.held?_result (.here named declared here)⟩
  rw [held?, Path.child, reached.get (.here named declared revalued.there)]
  rfl

theorem Reaches.groups {group : String} {inner : List Field} {repetition : Repetition}
    {condition : Option Condition} (member : .group group inner repetition condition ∈ owner) :
    ∃ node again, record.get (parent.child group) = .ok node ∧
      result.get (parent.child group) = .ok again ∧
      GroupTurned (.group group inner repetition condition) inner repetition name old.value new.value
        node again := by
  obtain ⟨other, declared⟩ := List.mem_iff_getElem?.mp member
  obtain ⟨node, again, there, found, turned⟩ := revalued.turned declared
  have named := Template.position?_eq_some
    (Template.names_nodup revalued.resettled.checked) declared
  exact ⟨node, again, reached.get (.here named declared there),
    reached.get_result (.here named declared found), turned⟩

theorem Reaches.counts {group : String} {inner : List Field} {countField : String} {zeroBased : Bool}
    {condition : Option Condition}
    (member : .group group inner (.counted countField zeroBased) condition ∈ owner)
    (turns : (Field.group group inner (.counted countField zeroBased) condition).Turns name old.value
      new.value true) :
    ∃ held, result.held? (parent.child countField) = some held ∧
      held.value.integer? = some (countValue zeroBased 0) := by
  obtain ⟨other, declared⟩ := List.mem_iff_getElem?.mp member
  have count := revalued.count declared rfl turns
  obtain ⟨_, _, _, laid⟩ := revalued.level
  obtain ⟨value, sibling, integer⟩ := Option.bind_eq_some_iff.mp count
  obtain ⟨_, _, _, held, named, declared, there, _, rfl⟩ :=
    scalar_of_sibling revalued.resettled.checked laid sibling
  exact ⟨held, reached.held?_result (.here named declared there), integer⟩

/-- Where no condition tests the scalar, its bytes alone are exchanged. -/
theorem Reaches.encoded (untested : ∀ group ∈ owner, ¬ group.Tests name) (holds : type.Holds new)
    {bytes edited : Bytes} (encoded : record.encode = .ok bytes) (again : result.encode = .ok edited) :
    ∃ node part, record.get (parent.child name) = .ok node ∧
      encodeScalar type new none (parent.child name) node.offset = .ok part ∧
      edited = bytes.splice node.offset node.length part := by
  obtain ⟨place, here, same⟩ := revalued.contents_eq untested
  obtain ⟨origin, _, _, first, final, outer⟩ := reached.swapped
  obtain ⟨_, inside⟩ := first.2.swapped final.2 revalued.declared revalued.there here same
  obtain ⟨_, below⟩ := first.2.pair (mem_zip_of_getElem? revalued.declared revalued.there)
  refine ⟨_, type.stored new, reached.get (.here revalued.named revalued.declared revalued.there),
    ?_, ?_⟩
  · apply ScalarType.encodeScalar_eq holds
    simp
  · rw [Field.Laid.length_bytes _ _ _ below]
    exact ((outer bytes edited encoded again).nest inside).splice

end Reaches

/-- A value that is set reaches the level of the scalar at the path. -/
theorem reaches_of_setValue {record result : Record} (formed : record.template.WellFormed)
    (laid : record.LaidOut) (again : result.LaidOut) {path : Path} {value : Value} {event : Event}
    (done : record.setValue path value = .ok (event, result)) :
    ∃ parent owner before position name type span old accepted after route node,
      path = parent.child name ∧
      record.locate path = .ok ⟨route, node, some (.scalar name type), owner⟩ ∧
      type.accept value path = .ok accepted ∧
      type.Holds (old.put accepted (type.label? accepted)) ∧
      Reaches record result parent owner before after ∧
      Revalued owner before position name type span old (old.put accepted (type.label? accepted))
        after := by
  obtain ⟨⟨route, node, field, owner⟩, name, type, accepted, held, located, declared, free, accept,
    holder, committed, _⟩ := setValue_eq_ok.mp done
  obtain rfl : field = some (.scalar name type) := declared
  have leads := leads_of_locate located rfl
  obtain ⟨span, old, scalar, holds⟩ := leads.shaped laid.shaped
  obtain rfl : node = .scalar name span old := scalar
  have valid := ScalarType.holds_put holds (ScalarType.admits_of_accept accept)
  obtain ⟨⟨nodes, stop⟩, settled, made⟩ := bind_eq_ok.mp committed
  obtain rfl := pure_eq_ok.mp made
  obtain ⟨way, other, position, before, after, same, frame, named, declared, there, resettled, _⟩ :=
    leads.frame (f := Node.mapScalar (Scalar.put · accepted (type.label? accepted)))
      (fun _ => ⟨span, _, rfl, valid⟩) (fun _ _ there => siblingInteger?_set there rfl free)
      formed.1 formed.2 ⟨laid.kept, laid.laid⟩ settled
  obtain ⟨_, same', rfl⟩ := field_of_position named
  obtain rfl := Option.some.inj (declared.symm.trans same')
  obtain ⟨_, stop, last, _, level, _⟩ :=
    frame.swapped ⟨laid.kept, laid.laid⟩ ⟨again.kept, again.laid⟩
  exact ⟨way, owner, before, position, name, type, span, old, accepted, after, route, _, same, located,
    accept, valid, ⟨formed, rfl, rfl, laid, again, frame⟩,
    ⟨declared, there, free, resettled, _, _, level⟩⟩

/-- Setting a value touches only what it must, as long as no condition tests a count. Every other
scalar keeps its value, label and bits, apart from those in the groups that the value adds or drops and
the counts of those it adds. Where no condition tests the scalar, the encoding changes in its bytes
alone. -/
theorem setValue_frame {template : Template} (formed : template.WellFormed)
    (untested : template.Everywhere Template.CountsUntested) {settings : Settings}
    {record result : Record} (reachable : Reachable template settings record) {path : Path}
    {value : Value} {event : Event} (done : record.setValue path value = .ok (event, result)) :
    ∃ parent owner name type old accepted, type.accept value path = .ok accepted ∧
      ValueSet record result path parent owner name type old
        (old.put accepted (type.label? accepted)) := by
  obtain ⟨rfl, laid⟩ := reachable.laid formed
  have edited : record.apply settings (.setValue path value) = .ok (event, result) := done
  obtain ⟨same, _, after⟩ := laid_of_apply formed laid edited
  have laid := laid.laidOut untested
  have after := after.laidOut (same ▸ untested)
  obtain ⟨parent, owner, _, _, name, type, _, old, accepted, _, route, node, rfl, located, accept,
    holds, reached, revalued⟩ := reaches_of_setValue formed laid after done
  obtain ⟨held, again⟩ := reached.held revalued
  exact ⟨parent, owner, name, type, old, accepted, accept, {
    located := ⟨rfl, route, node, located⟩
    before := held
    after := again
    elsewhere := fun other apart unaffected => reached.elsewhere revalued apart unaffected
    groups := fun _ _ _ _ member => reached.groups revalued member
    counts := fun _ _ _ _ _ member turns => reached.counts revalued member turns
    encoded := fun untested _ _ encoded again => reached.encoded revalued untested holds encoded again
    trailing := reached.trailing }⟩

/-- With another kind the bounds appear, and the points stay. -/
theorem setValue_frame_sample : ∃ record event result parent owner name type old new,
    decode Template.sample {} [1, 0, 0, 1, 0, 2, 0, 3, 97, 98, 1, 65, 0, 7, 8] = .ok record ∧
      record.setValue [.name "kind"] (.uint 2) = .ok (event, result) ∧
      ValueSet record result [.name "kind"] parent owner name type old new ∧
      (∃ node, record.get [.name "bounds"] = .ok node ∧ node.children.length = 0) ∧
      ∃ node, result.get [.name "bounds"] = .ok node ∧ node.children.length = 2 := by
  obtain ⟨record, event, result, decoded, done, before, after⟩ : ∃ record event result,
      decode Template.sample {} [1, 0, 0, 1, 0, 2, 0, 3, 97, 98, 1, 65, 0, 7, 8] = .ok record ∧
        record.setValue [.name "kind"] (.uint 2) = .ok (event, result) ∧
        (∃ node, record.get [.name "bounds"] = .ok node ∧ node.children.length = 0) ∧
        ∃ node, result.get [.name "bounds"] = .ok node ∧ node.children.length = 2 :=
    ⟨_, _, _, by cbv, by cbv, ⟨_, by cbv, by cbv⟩, _, by cbv, by cbv⟩
  obtain ⟨parent, owner, name, type, old, accepted, _, set⟩ :=
    setValue_frame Template.sample_wellFormed (by decide +kernel) (.decoded decoded) done
  exact ⟨record, event, result, parent, owner, name, type, old, _, decoded, done, set, before,
    after⟩

end Record
end ResourceTemplate
