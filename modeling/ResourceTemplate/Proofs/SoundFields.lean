import ResourceTemplate.Proofs.FieldOrder

/-! The rules for names and references, apart from the one for the size. A list of fields that keeps
them can be refused as too large and for no other reason. -/
namespace ResourceTemplate.Template

/-- Every field has a name that paths can tell from their notation and from all others, and refers to
earlier fields only, which suit it. A count field serves one group. -/
structure Sound (fields : List Field) : Prop where
  named : ∀ field ∈ fields, IsName field.name
  distinct : (fields.map Field.name).Nodup
  counted : ∀ front group back reference, fields = front ++ group :: back →
    group.countField? = some reference →
      ∃ counter ∈ front, counter.name = reference ∧ counter.intType?.isSome = true
  unshared : (fields.filterMap Field.countField?).Nodup
  tested : ∀ front group back condition, fields = front ++ group :: back →
    group.condition? = some condition →
      ∃ tested ∈ front, tested.name = condition.field ∧ tested.isTestable = true

section Sound

variable {fields earlier : List Field} {field : Field}

theorem Sound.nil : Sound [] := by
  refine ⟨by simp, by simp, ?_, by simp, ?_⟩
  all_goals
    intro front group back reference split
    simp at split

/-- Count fields have names of the list. -/
theorem Sound.counters (sound : Sound fields) :
    fields.filterMap Field.countField? ⊆ fields.map Field.name := by
  intro reference member
  obtain ⟨group, declared, counted⟩ := List.mem_filterMap.mp member
  obtain ⟨front, back, rfl⟩ := List.append_of_mem declared
  obtain ⟨counter, earlier, rfl, _⟩ := sound.counted front group back reference rfl counted
  exact List.mem_map_of_mem (List.mem_append_left _ earlier)

/-- A reference of the last field leads to the fields before it. -/
theorem last_reference {α : Type} {reference : Field → Option α} {leads : List Field → α → Prop}
    (kept : ∀ front group back a, fields = front ++ group :: back → reference group = some a →
      leads front a)
    (last : ∀ a, reference field = some a → leads fields a) :
    ∀ front group back a, fields ++ [field] = front ++ group :: back → reference group = some a →
      leads front a := by
  intro front group back a split refers
  rcases List.eq_nil_or_concat back with rfl | ⟨others, final, rfl⟩
  · obtain ⟨rfl, same⟩ := List.append_inj' split rfl
    obtain rfl := List.singleton_inj.mp same
    exact last a refers
  · rw [List.concat_eq_append, ← List.cons_append, ← List.append_assoc] at split
    obtain ⟨same, _⟩ := List.append_inj' split rfl
    exact kept front group others a same refers

theorem Sound.push (sound : Sound fields) (named : IsName field.name)
    (fresh : field.name ∉ fields.map Field.name)
    (counted : ∀ reference, field.countField? = some reference →
      (∃ counter ∈ fields, counter.name = reference ∧ counter.intType?.isSome = true) ∧
        reference ∉ fields.filterMap Field.countField?)
    (tested : ∀ condition, field.condition? = some condition →
      ∃ tested ∈ fields, tested.name = condition.field ∧ tested.isTestable = true) :
    Sound (fields ++ [field]) := by
  refine ⟨?_, ?_, ?_, ?_, ?_⟩
  · rw [List.forall_mem_append]
    exact ⟨sound.named, by simpa using named⟩
  · rw [List.map_append, List.nodup_append]
    refine ⟨sound.distinct, by simp, fun name member other last same => ?_⟩
    obtain rfl : other = field.name := by simpa using last
    exact fresh (same ▸ member)
  · exact last_reference sound.counted fun reference refers => (counted reference refers).1
  · rw [List.filterMap_append, List.nodup_append]
    refine ⟨sound.unshared, ?_, fun name member other last same => ?_⟩
    · cases counter : field.countField? <;> simp [counter]
    · have refers : field.countField? = some other := by simpa using last
      exact (counted other refers).2 (same ▸ member)
  · exact last_reference sound.tested tested

theorem Sound.front (sound : Sound (fields ++ [field])) : Sound fields := by
  have inside : fields.Sublist (fields ++ [field]) := List.sublist_append_left ..
  refine ⟨?_, sound.distinct.sublist (inside.map _), ?_, sound.unshared.sublist (inside.filterMap _),
    ?_⟩
  · intro other member
    exact sound.named other (List.mem_append_left _ member)
  · rintro front group back reference rfl
    exact sound.counted front group (back ++ [field]) reference (by simp)
  · rintro front group back condition rfl
    exact sound.tested front group (back ++ [field]) condition (by simp)

theorem find?_eq_some (distinct : (fields.map Field.name).Nodup) (member : field ∈ fields) :
    Template.find? fields field.name = some field := by
  induction fields with
  | nil => simp at member
  | cons first fields ih =>
    obtain ⟨fresh, distinct⟩ := List.nodup_cons.mp distinct
    rcases List.mem_cons.mp member with rfl | member
    · simp [Template.find?]
    · have other : first.name ≠ field.name := fun same =>
        fresh (same ▸ List.mem_map_of_mem member)
      simpa [Template.find?, other] using ih distinct member

/-- In a sound list a field keeps all rules if it is not too large for those before it. -/
theorem Sound.follows (sound : Sound (earlier ++ field :: fields))
    (small : Field.footprints earlier + field.footprint ≤ maxFootprint) : Follows earlier field := by
  have names := sound.distinct
  rw [List.map_append, List.map_cons, List.nodup_append] at names
  obtain ⟨distinct, _, apart⟩ := names
  have counters := sound.unshared
  rw [List.filterMap_append, List.nodup_append] at counters
  refine ⟨isName_iff.mp (sound.named field (by simp)), small, ?_, ?_, ?_, ?_⟩
  · intro reference refers
    obtain ⟨counter, before, rfl, integer⟩ := sound.counted earlier field fields reference rfl refers
    exact ⟨counter, find?_eq_some distinct before, integer⟩
  · intro reference refers shared
    exact counters.2.2 reference shared reference (by simp [refers]) rfl
  · intro condition refers
    obtain ⟨tested, before, same, testable⟩ := sound.tested earlier field fields condition rfl refers
    exact ⟨tested, same ▸ find?_eq_some distinct before, testable⟩
  · intro taken
    exact apart field.name taken field.name (by simp) rfl

theorem checkFrom_of_sound (sound : Sound (earlier ++ fields)) :
    checkFrom earlier fields = .ok () ∨ ∃ name, checkFrom earlier fields = .error (.tooLarge name) := by
  induction fields generalizing earlier with
  | nil => exact .inl rfl
  | cons field fields ih =>
    -- The size is looked at before the references, so a field too large is reported as such.
    by_cases small : Field.footprints earlier + field.footprint ≤ maxFootprint
    · rw [checkFrom, checkField_eq_ok.mpr (sound.follows small), ok_bind]
      exact ih (by simpa using sound)
    · refine .inr ⟨field.name, ?_⟩
      rw [checkFrom, checkField, isName_iff.mp (sound.named field (by simp)), ok_bind,
        if_pos (Nat.lt_of_not_le small)]
      rfl

/-- Only its size speaks against a sound list. -/
theorem check_of_sound (sound : Sound fields) :
    check fields = .ok () ∨ ∃ name, check fields = .error (.tooLarge name) :=
  checkFrom_of_sound (by simpa using sound)

end Sound
end ResourceTemplate.Template
