import ResourceTemplate.Proofs.References
import ResourceTemplate.Template.WellFormed

/-! What the rules of one field list come to: distinct names, references that lead to earlier
fields only, and one group for each count field. -/
namespace ResourceTemplate

namespace Template

theorem find?_eq_none {fields : List Field} {name : String} :
    Template.find? fields name = none ↔ name ∉ fields.map Field.name := by
  simp only [Template.find?, List.find?_eq_none, List.mem_map, beq_iff_eq]
  constructor
  · rintro none ⟨field, member, same⟩
    exact none field member same
  · intro fresh field member same
    exact fresh ⟨field, member, same⟩

theorem groupCountedBy?_eq_none {fields : List Field} {name : String} :
    groupCountedBy? fields name = none ↔ name ∉ fields.filterMap Field.countField? := by
  simp only [groupCountedBy?, List.find?_eq_none, List.mem_filterMap, beq_iff_eq]
  constructor
  · rintro none ⟨field, member, same⟩
    exact none field member same
  · intro fresh field member same
    exact fresh ⟨field, member, same⟩

/-- Names have a character, none that paths reserve, and are no index. -/
theorem checkName_eq_ok {name : String} :
    checkName name = .ok () ↔
      name ≠ "" ∧ (∀ c ∈ name.toList, c ∉ reserved) ∧ (Numeral.word? name.toList).isSome = false := by
  unfold checkName
  by_cases empty : name = ""
  · subst empty
    simp [throw_bind]
  by_cases clash : ∃ c ∈ name.toList, c ∈ reserved
  · obtain ⟨c, member, kept⟩ := clash
    rw [if_neg (by simpa using empty), if_pos (by simpa using ⟨c, member, kept⟩), throw_bind]
    simp only [throw_ne_ok, false_iff]
    rintro ⟨_, clean, _⟩
    exact clean c member kept
  have clean : ∀ c ∈ name.toList, c ∉ reserved := by simpa using clash
  rw [if_neg (by simpa using empty), if_neg (by simpa using clean)]
  by_cases index : (Numeral.word? name.toList).isSome = true
  · rw [if_pos index]
    simp [index]
  · rw [if_neg index, pure_eq_ok]
    exact iff_of_true rfl ⟨empty, clean, by simpa using index⟩

structure IsName (name : String) : Prop where
  nonempty : name ≠ ""
  unreserved : ∀ c ∈ name.toList, c ∉ reserved
  noIndex : Numeral.word? name.toList = none

theorem isName_iff {name : String} : IsName name ↔ checkName name = .ok () := by
  rw [checkName_eq_ok, Option.isSome_eq_false_iff, Option.isNone_iff_eq_none]
  exact ⟨fun ⟨nonempty, unreserved, noIndex⟩ => ⟨nonempty, unreserved, noIndex⟩,
    fun ⟨nonempty, unreserved, noIndex⟩ => ⟨nonempty, unreserved, noIndex⟩⟩

theorem checkReference_eq_ok {earlier : List Field} {suitable : Field → Bool}
    {group reference : String} :
    checkReference earlier suitable group reference = .ok () ↔
      ∃ field, Template.find? earlier reference = some field ∧ suitable field = true := by
  unfold checkReference
  cases found : Template.find? earlier reference with
  | none => simp
  | some field => by_cases fits : suitable field = true <;> simp [fits]

/-- The count field of a group is an earlier integer, and no earlier group has it. -/
theorem checkCount_eq_ok {earlier : List Field} {field : Field} :
    checkCount earlier field = .ok () ↔
      ∀ reference, field.countField? = some reference →
        (∃ counter, Template.find? earlier reference = some counter ∧
          counter.intType?.isSome = true) ∧
        groupCountedBy? earlier reference = none := by
  unfold checkCount
  cases field.countField? with
  | none => simp
  | some reference =>
    simp only [unit_bind_eq_ok, checkReference_eq_ok, Option.some.injEq, forall_eq']
    cases groupCountedBy? earlier reference <;> simp

theorem checkCondition_eq_ok {earlier : List Field} {field : Field} :
    checkCondition earlier field = .ok () ↔
      ∀ condition, field.condition? = some condition →
        ∃ tested, Template.find? earlier condition.field = some tested ∧
          tested.isTestable = true := by
  unfold checkCondition
  cases field.condition? with
  | none => simp
  | some condition => simp [checkReference_eq_ok]

/-- What the rules ask of one field, given the fields before it. -/
structure Follows (earlier : List Field) (field : Field) : Prop where
  named : checkName field.name = .ok ()
  small : Field.footprints earlier + field.footprint ≤ maxFootprint
  counter : ∀ reference, field.countField? = some reference →
    ∃ counter, Template.find? earlier reference = some counter ∧ counter.intType?.isSome = true
  unshared : ∀ reference, field.countField? = some reference →
    reference ∉ earlier.filterMap Field.countField?
  tested : ∀ condition, field.condition? = some condition →
    ∃ tested, Template.find? earlier condition.field = some tested ∧ tested.isTestable = true
  fresh : field.name ∉ earlier.map Field.name

theorem checkField_eq_ok {earlier : List Field} {field : Field} :
    checkField earlier field = .ok () ↔ Follows earlier field := by
  unfold checkField
  rw [unit_bind_eq_ok]
  by_cases large : maxFootprint < Field.footprints earlier + field.footprint
  · rw [if_pos large]
    constructor
    · rintro ⟨_, thrown⟩
      nomatch thrown
    · intro follows
      exact absurd follows.small (Nat.not_le_of_lt large)
  rw [if_neg large, unit_bind_eq_ok, unit_bind_eq_ok, checkCount_eq_ok, checkCondition_eq_ok]
  simp only [groupCountedBy?_eq_none]
  by_cases taken : (Template.find? earlier field.name).isSome = true
  · rw [if_pos taken]
    constructor
    · rintro ⟨_, _, _, thrown⟩
      nomatch thrown
    · intro follows
      rw [find?_eq_none.mpr follows.fresh] at taken
      nomatch taken
  rw [if_neg taken]
  constructor
  · rintro ⟨named, counted, tested, _⟩
    exact ⟨named, Nat.le_of_not_lt large, fun reference same => (counted reference same).1,
      fun reference same => (counted reference same).2, tested,
      find?_eq_none.mp (by simpa using taken)⟩
  · intro follows
    exact ⟨follows.named, fun reference same =>
      ⟨follows.counter reference same, follows.unshared reference same⟩, follows.tested, rfl⟩

theorem checkFrom_cons {earlier fields : List Field} {field : Field} :
    checkFrom earlier (field :: fields) = .ok () ↔
      Follows earlier field ∧ checkFrom (earlier ++ [field]) fields = .ok () := by
  rw [checkFrom, unit_bind_eq_ok, checkField_eq_ok]

/-- Together with the fields before it, a checked list has distinct names and count fields. -/
theorem checkFrom_nodup {earlier fields : List Field} (ok : checkFrom earlier fields = .ok ())
    (names : (earlier.map Field.name).Nodup)
    (counters : (earlier.filterMap Field.countField?).Nodup) :
    ((earlier ++ fields).map Field.name).Nodup ∧
      ((earlier ++ fields).filterMap Field.countField?).Nodup := by
  induction fields generalizing earlier with
  | nil => simpa using ⟨names, counters⟩
  | cons field fields ih =>
    obtain ⟨follows, rest⟩ := checkFrom_cons.mp ok
    have names : ((earlier ++ [field]).map Field.name).Nodup := by
      rw [List.map_append, List.nodup_append]
      refine ⟨names, by simp, fun name member other last same => ?_⟩
      obtain rfl : other = field.name := by simpa using last
      exact follows.fresh (same ▸ member)
    have counters : ((earlier ++ [field]).filterMap Field.countField?).Nodup := by
      cases counter : field.countField? with
      | none => simpa [counter] using counters
      | some reference =>
        rw [List.filterMap_append, List.nodup_append]
        refine ⟨counters, by simp [counter], fun name member other last same => ?_⟩
        obtain rfl : other = reference := by simpa [counter] using last
        exact follows.unshared other counter (same ▸ member)
    simpa using ih rest names counters

theorem names_nodup {fields : List Field} (ok : check fields = .ok ()) :
    (fields.map Field.name).Nodup :=
  (checkFrom_nodup ok List.nodup_nil List.nodup_nil).1

theorem counters_nodup {fields : List Field} (ok : check fields = .ok ()) :
    (fields.filterMap Field.countField?).Nodup :=
  (checkFrom_nodup ok List.nodup_nil List.nodup_nil).2

/-- The count field of a group is declared before it. -/
theorem counter_declared {earlier fields : List Field} (ok : checkFrom earlier fields = .ok ())
    {name : String} (counter : name ∈ fields.filterMap Field.countField?) :
    name ∈ (earlier ++ fields).map Field.name := by
  induction fields generalizing earlier with
  | nil => contradiction
  | cons field fields ih =>
    obtain ⟨follows, rest⟩ := checkFrom_cons.mp ok
    obtain ⟨group, member, counted⟩ := List.mem_filterMap.mp counter
    rcases List.mem_cons.mp member with rfl | member
    · obtain ⟨counter, found, _⟩ := follows.counter name counted
      have early : name ∈ earlier.map Field.name :=
        List.mem_map.mpr ⟨counter, List.mem_of_find?_eq_some found,
          by simpa using List.find?_some found⟩
      rw [List.map_append]
      exact List.mem_append_left _ early
    · simpa using ih rest (List.mem_filterMap.mpr ⟨group, member, counted⟩)

theorem isName_of_checkFrom {earlier fields : List Field} (ok : checkFrom earlier fields = .ok ()) :
    ∀ field ∈ fields, IsName field.name := by
  induction fields generalizing earlier with
  | nil => simp
  | cons field fields ih =>
    obtain ⟨follows, rest⟩ := checkFrom_cons.mp ok
    rw [List.forall_mem_cons]
    exact ⟨isName_iff.mpr follows.named, ih rest⟩

/-- Among distinct names a field is found where it stands. -/
theorem position?_eq_some {fields : List Field} {field : Field} {position : Nat}
    (distinct : (fields.map Field.name).Nodup) (declared : fields[position]? = some field) :
    position? fields field.name = some position := by
  induction fields generalizing position with
  | nil => simp at declared
  | cons first fields ih =>
    obtain ⟨fresh, distinct⟩ := List.nodup_cons.mp distinct
    rw [position?, List.findIdx?_cons]
    cases position with
    | zero =>
      obtain rfl : first = field := by simpa using declared
      simp
    | succ position =>
      have declared : fields[position]? = some field := by simpa using declared
      have other : first.name ≠ field.name := fun same =>
        fresh (same ▸ List.mem_map_of_mem (List.mem_of_getElem? declared))
      have found := ih distinct declared
      rw [position?] at found
      simp [other, found]

end Template
end ResourceTemplate
