import ResourceTemplate.Proofs.Failures
import ResourceTemplate.Proofs.StartingGroups

/-! Which values can be set. A value that a scalar accepts is refused only when a group that it adds cannot
start, and then over a count. Nothing outside of the level of the scalar has a say in this. -/
namespace ResourceTemplate

section Below

variable {fields : List Field} {nodes others front : List Node} {position start stop : Nat}
  {field : Field} {node again : Node} {parent path : Path} {place : Nat}
  (checked : Template.check fields = .ok ()) (nested : Field.AllNested (·.check = .ok ()) fields)
  (level : Field.LevelLaid Settled fields start nodes stop)
include checked nested level

/-- A node that is decided on as before can be settled again. -/
theorem settles_alone (shaped : Field.ShapedAll fields others)
    (declared : fields[position]? = some field) (there : nodes[position]? = some node)
    (faces : front.map Node.face = (others.take position).map Node.face)
    (verdicts : verdict? field.condition? others = verdict? field.condition? nodes) :
    ∃ final, settleField field node front path place = .ok final := by
  obtain ⟨present, decided, whole⟩ := verdict?_front checked shaped declared faces
  have paired := mem_zip_of_getElem? declared there
  obtain ⟨_, below⟩ := level.2.pair paired
  have filled : field.Filled front node := by
    have kept := (level.1 _ paired).filled
    cases field with
    | scalar => trivial
    | composite => trivial
    | group => exact GroupFilled.transfer kept (decided.trans (whole.symm.trans verdicts))
  obtain ⟨final, settled, _⟩ := settleField_kept field (nested.member (List.mem_of_getElem? declared)) _
    node below front filled path place
  exact ⟨final, settled⟩

/-- A level can be settled with another node that its siblings cannot tell from the one before when the
node can be settled. -/
theorem settleLevel_below_iff (declared : fields[position]? = some field)
    (there : nodes[position]? = some node) (same : again.face = node.face)
    (sized : field.countField?.isSome → again.children.length = node.children.length)
    (shaped : Field.ShapedAll fields (nodes.set position again)) {settles : Prop}
    (alone : ∀ front path place,
      verdict? field.condition? front = verdict? field.condition? nodes →
        ((∃ final, settleField field again front path place = .ok final) ↔ settles)) :
    (∃ result last, settleLevel fields (nodes.set position again) parent place = .ok (result, last)) ↔
      settles := by
  have faces := face_set there same
  have inside := (List.getElem?_eq_some_iff.mp there).1
  rw [settleLevel_ok_iff checked nested shaped,
    settleFields_ok_iff (fun other => other = position → settles) shaped.length_eq]
  · constructor
    · rintro ⟨each, _⟩
      exact each position (List.getElem?_eq_some_iff.mp declared).1 rfl
    · refine fun holds => ⟨fun _ _ _ => holds, ?_⟩
      -- The counts that are called for are those that are held.
      rintro ⟨countField, n⟩ called
      obtain ⟨group, inner, zeroBased, condition, child, member, present, rfl⟩ :=
        mem_calledFor.mp called
      obtain ⟨other, paired⟩ := List.mem_iff_getElem?.mp member
      obtain ⟨grouped, found⟩ := List.getElem?_zip_eq_some.mp paired
      obtain ⟨before, among⟩ := level.2.getElem? grouped
      have items : child.children.length = before.children.length := by
        by_cases here : other = position
        · subst here
          obtain rfl := Option.some.inj (there.symm.trans among)
          obtain rfl := Option.some.inj ((List.getElem?_set_self inside).symm.trans found)
          obtain rfl := Option.some.inj (declared.symm.trans grouped)
          exact sized rfl
        · rw [List.getElem?_set_ne (Ne.symm here), among] at found
          rw [Option.some.inj found]
      rw [items]
      exact fits_of_held checked level.2 ((level.1 _ (mem_zip_of_getElem? grouped among)).counted
        ((verdict?_congr faces condition).symm.trans present) countField zeroBased rfl)
  · intro other field' child declared' found front path place shown
    rw [List.nil_append] at shown
    by_cases here : other = position
    · subst here
      obtain rfl := Option.some.inj (declared.symm.trans declared')
      obtain rfl := Option.some.inj ((List.getElem?_set_self inside).symm.trans found)
      obtain ⟨_, decided, whole⟩ := verdict?_front checked shaped declared shown
      rw [alone front path place
        (decided.trans (whole.symm.trans (verdict?_congr faces _)))]
      exact ⟨fun holds _ => holds, fun holds => holds rfl⟩
    · rw [List.getElem?_set_ne (Ne.symm here)] at found
      exact iff_of_true
        (settles_alone checked nested level shaped declared' found shown (verdict?_congr faces _))
        fun same => absurd same here

end Below

section Revalued

variable {owner : List Field} {nodes : List Node} {position start stop : Nat} {name : String}
  {type : ScalarType} {span : Span} {old new : Scalar} {field : Field} {node : Node}

/-- A group that has yet to start has no items. -/
theorem empty_of_turns {old new : Value} (turns : field.Turns name old new true)
    (level : Field.LevelLaid Settled owner start nodes stop) (holds : sibling? nodes name = some old)
    {place : Nat} (declared : owner[place]? = some field) (there : nodes[place]? = some node) :
    ∃ group inner repetition condition span, field = .group group inner repetition condition ∧
      node = .branch group span .group [] := by
  have paired := mem_zip_of_getElem? declared there
  have kept := level.1 _ paired
  obtain ⟨_, laid⟩ := level.2.pair paired
  cases field with
  | scalar | composite =>
    obtain ⟨_, impossible, _⟩ := turns
    contradiction
  | group group inner repetition condition =>
    have empty := (kept.absent (turns.old_verdict holds)).1
    obtain ⟨_, items, rfl, _⟩ := laid
    obtain rfl : items = [] := empty
    exact ⟨group, inner, repetition, condition, _, rfl, rfl⟩

section Level

variable (checked : Template.check owner = .ok ())
  (nested : Field.AllNested (·.check = .ok ()) owner)
  (level : Field.LevelLaid Settled owner start nodes stop)
  (declared : owner[position]? = some (.scalar name type))
  (there : nodes[position]? = some (.scalar name span old)) (holds : type.Holds new)
include checked level declared there holds

theorem varied_of_set :
    Varied name old.value new.value nodes (nodes.set position (.scalar name span new)) := by
  have named : Template.position? owner name = some position :=
    Template.position?_eq_some (Template.names_nodup checked) declared
  have shaped := (Field.LaidAll.shaped _ _ _ _ level.2).set declared ⟨span, new, rfl, holds⟩
  refine ⟨?_, ?_, fun other apart => sibling?_set_ne there (.scalar name span new) rfl apart⟩
  · rw [sibling?_position level.2.names named there, Node.value?_scalar]
  · rw [sibling?_position shaped.names named
      (List.getElem?_set_self (List.getElem?_eq_some_iff.mp there).1), Node.value?_scalar]

/-- The new counts are those of the groups that start. -/
theorem counts_revalued_iff :
    (∀ entry ∈ calledFor owner (nodes.set position (.scalar name span new))
        (nodes.set position (.scalar name span new)), Template.Fits owner entry.1 entry.2) ↔
      ∀ group ∈ owner, group.Turns name old.value new.value true → group.CountOpens owner := by
  have varied := varied_of_set checked level declared there holds
  rw [calledFor_set declared]
  constructor
  · intro fits group member turns
    match group with
    | .group name inner (.counted countField zeroBased) condition =>
      obtain ⟨place, grouped⟩ := List.mem_iff_getElem?.mp member
      obtain ⟨node, found⟩ := level.2.getElem? grouped
      obtain ⟨_, _, _, _, _, _, rfl⟩ := empty_of_turns turns level varied.before grouped found
      exact fits (countField, countValue zeroBased 0) (mem_calledFor.mpr
        ⟨name, inner, zeroBased, condition, _, mem_zip_of_getElem? grouped found,
          turns.new_verdict varied.after, rfl⟩)
    | .scalar .. | .composite .. => trivial
    | .group _ _ (.fixed _) _ | .group _ _ .untilEnd _ | .group _ _ .zeroTerminated _ => trivial
  · rintro opens ⟨countField, n⟩ called
    obtain ⟨group, inner, zeroBased, condition, node, member, present, rfl⟩ := mem_calledFor.mp called
    by_cases before : verdict? condition nodes = some true
    · exact fits_of_held checked level.2 ((level.1 _ member).counted before countField zeroBased rfl)
    · have turns : (Field.group group inner (.counted countField zeroBased) condition).Turns name
          old.value new.value true := varied.turns before present
      obtain ⟨place, paired⟩ := List.mem_iff_getElem?.mp member
      obtain ⟨grouped, found⟩ := List.getElem?_zip_eq_some.mp paired
      obtain ⟨_, _, _, _, _, _, rfl⟩ := empty_of_turns turns level varied.before grouped found
      exact opens _ (List.mem_of_getElem? grouped) turns

include nested

/-- A settled level can be settled with another value when the groups that it adds can start. -/
theorem settleLevel_revalued_iff (parent : Path) (place : Nat) :
    (∃ result last, settleLevel owner (nodes.set position (.scalar name span new)) parent place =
        .ok (result, last)) ↔
      ∀ group ∈ owner, group.Turns name old.value new.value true → group.CanStart owner := by
  have varied := varied_of_set checked level declared there holds
  have shaped := (Field.LaidAll.shaped _ _ _ _ level.2).set declared ⟨span, new, rfl, holds⟩
  have inside := (List.getElem?_eq_some_iff.mp there).1
  rw [settleLevel_ok_iff checked nested shaped, counts_revalued_iff checked level declared there holds,
    settleFields_ok_iff (fun other => ∀ group, owner[other]? = some group →
      group.Turns name old.value new.value true → group.Opens) shaped.length_eq]
  · constructor
    · rintro ⟨each, counts⟩ group member turns
      obtain ⟨other, grouped⟩ := List.mem_iff_getElem?.mp member
      exact ⟨counts group member turns,
        each other (List.getElem?_eq_some_iff.mp grouped).1 group grouped turns⟩
    · intro starts
      exact ⟨fun other _ group grouped turns => (starts group (List.mem_of_getElem? grouped) turns).2,
        fun group member turns => (starts group member turns).1⟩
  · intro other field node grouped found front path place shown
    rw [List.nil_append] at shown
    have only {claim : Prop} (known : field.Turns name old.value new.value true → (claim ↔ field.Opens))
        (free : ¬ field.Turns name old.value new.value true → claim) :
        claim ↔ ∀ group, owner[other]? = some group →
          group.Turns name old.value new.value true → group.Opens := by
      constructor
      · intro claimed group same turns
        obtain rfl := Option.some.inj (grouped.symm.trans same)
        exact (known turns).mp claimed
      · intro opens
        by_cases turns : field.Turns name old.value new.value true
        · exact (known turns).mpr (opens field grouped turns)
        · exact free turns
    by_cases here : other = position
    · subst here
      obtain rfl := Option.some.inj (declared.symm.trans grouped)
      obtain rfl := Option.some.inj ((List.getElem?_set_self inside).symm.trans found)
      exact only (fun _ => iff_of_true ⟨_, rfl⟩ trivial) fun _ => ⟨_, rfl⟩
    rw [List.getElem?_set_ne (Ne.symm here)] at found
    obtain ⟨present, decided, whole⟩ := verdict?_front checked shaped grouped shown
    refine only (fun turns => ?_) fun steady => ?_
    · obtain ⟨group, inner, repetition, condition, _, rfl, rfl⟩ :=
        empty_of_turns turns level varied.before grouped found
      have formed := nested.member (List.mem_of_getElem? grouped)
      obtain rfl := Option.some.inj (whole.symm.trans (turns.new_verdict varied.after))
      exact settleField_empty_iff (settleLevel_default_iff formed.1 formed.2) decided
    · by_cases dropped : field.Turns name old.value new.value false
      · obtain rfl := Option.some.inj (whole.symm.trans (dropped.new_verdict varied.after))
        obtain ⟨_, laid⟩ := level.2.pair (mem_zip_of_getElem? grouped found)
        cases field with
        | scalar | composite =>
          obtain ⟨_, impossible, _⟩ := dropped
          contradiction
        | group =>
          obtain ⟨_, items, rfl, _⟩ := laid
          exact ⟨_, settleField_group.mpr (.inl ⟨decided, rfl⟩)⟩
      · refine settles_alone checked nested level shaped grouped found shown (varied.verdict?_eq ?_)
        intro present
        cases present with
        | false => exact dropped
        | true => exact steady

end Level

end Revalued

section Items

variable {fields inner : List Field} {items others : List Node} {name : String} {index start stop : Nat}
  {item : Node} {path : Path} {place : Nat}

/-- Settled items can be settled with another one among them when this one can. -/
theorem settleItems_below_iff (checked : Template.check inner = .ok ())
    (nested : Field.AllNested (·.check = .ok ()) inner)
    (laid : ItemsLaid (Field.LevelLaid Settled inner) index start items stop) {position : Nat}
    (inside : position < items.length) (kind : item.tag = .branch .item) {settles : Prop}
    (alone : ∀ parent place, (∃ result stop,
      settleLevel inner item.children parent place = .ok (result, stop)) ↔ settles) :
    (∃ result last, settleItems (settleItem inner path) (items.set position item) 0 place =
        .ok (result, last)) ↔ settles := by
  rw [settleItems_ok_iff (fun other => other = position → settles)]
  · constructor
    · intro each
      exact each position (by rwa [List.length_set]) rfl
    · intro holds _ _ _
      exact holds
  · intro other child found number place
    by_cases here : other = position
    · subst here
      rw [List.getElem?_set_self inside] at found
      obtain rfl := Option.some.inj found
      rw [settleItem_ok_iff kind, alone]
      exact ⟨fun holds _ => holds, fun holds => holds rfl⟩
    · rw [List.getElem?_set_ne (Ne.symm here)] at found
      obtain ⟨_, _, _, _, rfl, level⟩ := laid.member (List.mem_of_getElem? found)
      obtain ⟨result, last, settled, _⟩ :=
        settleLevel_kept checked nested _ _ _ level (path.index number) place
      rw [settleItem_ok_iff rfl]
      exact iff_of_true ⟨result, last, settled⟩ fun same => absurd same here

end Items

/-- A settled tree can be settled with another value in a scalar when the groups that the value adds can
start. -/
theorem Leads.settles_iff {fields owner : List Field} {nodes : List Node} {path : Path}
    {route : List Nat} {name : String} {type : ScalarType} {span : Span} {old : Scalar}
    (leads : Leads fields nodes path route owner (.scalar name type) (.scalar name span old))
    {f : Scalar → Scalar} (holds : ∀ held, type.Holds held → type.Holds (f held))
    (checked : Template.check fields = .ok ())
    (nested : Field.AllNested (·.check = .ok ()) fields) {start stop : Nat}
    (level : Field.LevelLaid Settled fields start nodes stop) (parent : Path) (place : Nat) :
    (∃ result last, settleLevel fields (updateAt (Node.mapScalar f) route nodes) parent place =
        .ok (result, last)) ↔
      ∀ group ∈ owner, group.Turns name old.value (f old).value true → group.CanStart owner := by
  have kept (node : Node) : (Field.scalar name type).Shaped node →
      (Field.scalar name type).Shaped (node.mapScalar f) := by
    rintro ⟨span, held, rfl, sound⟩
    exact ⟨span, f held, rfl, holds held sound⟩
  generalize scalar : Field.scalar name type = field at leads kept
  generalize holder : Node.scalar name span old = node at leads
  have shaped := leads.shaped_updateAt (kept node) (Field.LaidAll.shaped _ _ _ _ level.2)
  induction leads generalizing start stop parent place with
  | here _ declared there =>
    subst scalar holder
    rw [updateAt, modify_eq_set there]
    obtain ⟨_, held, same, sound⟩ := level.2.pair (mem_zip_of_getElem? declared there)
    obtain ⟨_, _, rfl⟩ := Node.scalar.inj same
    exact settleLevel_revalued_iff checked nested level declared there (holds old sound) parent place
  | @composite _ nodes _ _ _ inner _ _ _ _ _ _ _ declared there leads ih =>
    obtain ⟨checked', nested'⟩ := nested.member (List.mem_of_getElem? declared)
    obtain ⟨_, below⟩ := level.2.pair (mem_zip_of_getElem? declared there)
    have inside := leads.shaped_updateAt (kept _) (Field.LaidAll.shaped _ _ _ _ below.level.2)
    rw [updateAt_cons _ leads.route_ne_nil, modify_eq_set there] at shaped ⊢
    refine settleLevel_below_iff checked nested level declared there (Node.face_mapChildren _ _)
      (by rintro ⟨⟩) shaped fun front path place _ => ?_
    have settles := ih checked' nested' below.level path place scalar kept holder inside
    obtain ⟨_, _, rfl, _⟩ := below
    refine Iff.trans ?_ settles
    simp only [Node.mapChildren, settleField_composite]
    constructor
    · rintro ⟨_, result, last, settled, _⟩
      exact ⟨result, last, settled⟩
    · rintro ⟨result, last, settled⟩
      exact ⟨_, result, last, settled, rfl⟩
  | @item _ nodes _ _ _ index inner _ repetition condition _ item _ _ route _ _ declared there counted
      leads ih =>
    obtain ⟨checked', nested'⟩ := nested.member (List.mem_of_getElem? declared)
    have paired := mem_zip_of_getElem? declared there
    have group := level.1 _ paired
    have present : verdict? condition nodes = some true :=
      group.present (List.mem_of_getElem? counted)
    obtain ⟨_, below⟩ := level.2.pair paired
    obtain ⟨_, laid⟩ := below.items_of_mem (List.mem_of_getElem? counted)
    obtain ⟨_, _, _, _, made, under⟩ := laid.member (List.mem_of_getElem? counted)
    obtain ⟨_, items, rfl, _⟩ := below
    rw [Node.children_branch] at counted laid
    have under : Field.LevelLaid Settled inner item.offset item.children item.stop := by
      subst made
      exact under
    have inside := leads.shaped_updateAt (kept _) (Field.LaidAll.shaped _ _ _ _ under.2)
    rw [updateAt_cons _ (by simp), modify_eq_set there, Node.mapChildren,
      updateAt_cons _ leads.route_ne_nil, modify_eq_set counted] at shaped ⊢
    refine settleLevel_below_iff checked nested level declared there (by rfl)
      (by intro _; exact List.length_set) shaped fun front path place decided => ?_
    have decided : verdict? condition front = some true := decided.trans present
    have filled (new : Node) :
        fillItems inner repetition (items.set index new) = items.set index new :=
      fillItems_eq fun count same => List.length_set.trans (group.fixed present count same)
    rw [settleField_group_iff decided, filled]
    have kind : (item.mapChildren (updateAt (Node.mapScalar f) route)).tag = .branch .item := by
      rw [Node.tag_mapChildren, made]
      rfl
    refine settleItems_below_iff checked' nested' laid (List.getElem?_eq_some_iff.mp counted).1 kind
      fun parent place => ?_
    rw [children_updateAt]
    exact ih checked' nested' under parent place scalar kept holder inside

namespace Record

variable {record : Record} {path : Path}

/-- A value is set when it is accepted and the groups that it adds can start. Apart from the scalar at the
path, only its own level matters. -/
theorem LaidOut.setValue_iff (laid : record.LaidOut) (formed : record.template.WellFormed)
    {place : Place} {name : String} {type : ScalarType} {held : Scalar} {value : Value}
    (located : record.locate path = .ok place) (declared : place.field = some (.scalar name type))
    (holder : place.node.scalar? = some held)
    (free : Template.groupCountedBy? place.owner name = none) :
    (∃ event result, record.setValue path value = .ok (event, result)) ↔
      ∃ accepted, type.accept value path = .ok accepted ∧
        ∀ group ∈ place.owner, group.Turns name held.value accepted true →
          group.CanStart place.owner := by
  have leads := leads_of_locate located declared
  obtain ⟨span, old, same, _⟩ := leads.shaped laid.shaped
  rw [same] at leads holder
  obtain rfl := Option.some.inj holder
  have settles {accepted : Value} (accept : type.accept value path = .ok accepted) :
      (∃ result, record.commit (updateAt
          (Node.mapScalar (Scalar.put · accepted (type.label? accepted))) place.route record.fields) =
            .ok result) ↔
        ∀ group ∈ place.owner, group.Turns name old.value accepted true →
          group.CanStart place.owner := by
    have admits := ScalarType.admits_of_accept accept
    refine Iff.trans ?_ (leads.settles_iff (fun _ holds => ScalarType.holds_put holds admits) formed.1
      formed.2 ⟨laid.kept, laid.laid⟩ Path.root 0)
    constructor
    · rintro ⟨result, committed⟩
      obtain ⟨⟨nodes, stop⟩, settled, _⟩ := bind_eq_ok.mp committed
      exact ⟨nodes, stop, settled⟩
    · rintro ⟨nodes, stop, settled⟩
      exact ⟨_, bind_eq_ok.mpr ⟨_, settled, rfl⟩⟩
  constructor
  · rintro ⟨event, result, done⟩
    obtain ⟨place', name', type', accepted, _, located', declared', _, accept, _, committed, _⟩ :=
      setValue_eq_ok.mp done
    obtain rfl := Except.ok.inj (located.symm.trans located')
    obtain ⟨rfl, rfl⟩ := Field.scalar.inj (Option.some.inj (declared.symm.trans declared'))
    exact ⟨accepted, accept, (settles accept).mp ⟨result, committed⟩⟩
  · rintro ⟨accepted, accept, starts⟩
    obtain ⟨result, committed⟩ := (settles accept).mpr starts
    exact ⟨_, result, setValue_eq_ok.mpr ⟨place, name, type, accepted, old, located, declared, free,
      accept, same ▸ rfl, committed, rfl⟩⟩

/-- A value that is accepted, but adds a group that cannot start, is refused over a count. -/
theorem LaidOut.setValue_refused (laid : record.LaidOut) (formed : record.template.WellFormed)
    {place : Place} {name : String} {type : ScalarType} {held : Scalar} {value accepted : Value}
    (located : record.locate path = .ok place) (declared : place.field = some (.scalar name type))
    (holder : place.node.scalar? = some held)
    (free : Template.groupCountedBy? place.owner name = none)
    (accept : type.accept value path = .ok accepted)
    (stuck : ¬ ∀ group ∈ place.owner, group.Turns name held.value accepted true →
      group.CanStart place.owner) :
    ∃ error, record.setValue path value = .error error ∧ error.OfCount := by
  have fails := setValue_accepted_fails formed laid located declared holder free accept
  cases outcome : record.setValue path value with
  | error error => exact ⟨error, rfl, fails.among error outcome⟩
  | ok done =>
    obtain ⟨other, same, starts⟩ :=
      (laid.setValue_iff formed located declared holder free).mp ⟨done.1, done.2, outcome⟩
    obtain rfl := Except.ok.inj (accept.symm.trans same)
    exact absurd starts stuck

end Record

end ResourceTemplate
