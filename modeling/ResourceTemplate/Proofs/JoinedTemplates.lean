import ResourceTemplate.Proofs.FieldOrder

/-! Templates one after the other. Where no name is in both, each keeps its own rules, and only the
size of the two together can be too large. -/
namespace ResourceTemplate.Template

variable {before earlier fields : List Field}

/-- Counts are held by fields of the same list. -/
theorem counters_named (checked : checkFrom earlier fields = .ok ())
    (named : earlier.filterMap Field.countField? ⊆ earlier.map Field.name) :
    (earlier ++ fields).filterMap Field.countField? ⊆ (earlier ++ fields).map Field.name := by
  induction fields generalizing earlier with
  | nil => simpa using named
  | cons field fields ih =>
    obtain ⟨follows, rest⟩ := checkFrom_cons.mp checked
    rw [List.append_cons]
    apply ih rest
    intro reference member
    rw [List.filterMap_append, List.mem_append] at member
    rw [List.map_append, List.mem_append]
    rcases member with member | member
    · exact .inl (named member)
    · obtain ⟨counter, found, _⟩ := follows.counter reference (by simpa using member)
      have holder := List.find?_some found
      exact .inl (List.mem_map.mpr ⟨counter, List.mem_of_find?_eq_some found, by simpa using holder⟩)

theorem find?_after {reference : String} (absent : reference ∉ before.map Field.name) :
    Template.find? (before ++ earlier) reference = Template.find? earlier reference := by
  have none := find?_eq_none.mpr absent
  unfold Template.find? at none ⊢
  rw [List.find?_append, none, Option.none_or]

theorem named_of_find? {reference : String} {field : Field}
    (found : Template.find? earlier reference = some field) : reference ∈ earlier.map Field.name := by
  have named := List.find?_some found
  exact List.mem_map.mpr ⟨field, List.mem_of_find?_eq_some found, by simpa using named⟩

/-- Fields of other names do not get in the way of the rules for a field. -/
theorem Follows.after {field : Field} (follows : Follows earlier field)
    (counters : before.filterMap Field.countField? ⊆ before.map Field.name)
    (apart : ∀ name ∈ before.map Field.name, name ∉ (earlier ++ [field]).map Field.name)
    (small : Field.footprints (before ++ earlier) + field.footprint ≤ maxFootprint) :
    Follows (before ++ earlier) field := by
  have absent : ∀ reference found, Template.find? earlier reference = some found →
      reference ∉ before.map Field.name := by
    intro reference found here there
    apply apart reference there
    rw [List.map_append, List.mem_append]
    exact .inl (named_of_find? here)
  refine ⟨follows.named, small, ?_, ?_, ?_, ?_⟩
  · intro reference counted
    obtain ⟨counter, found, integer⟩ := follows.counter reference counted
    exact ⟨counter, by rwa [find?_after (absent reference counter found)], integer⟩
  · intro reference counted
    obtain ⟨counter, found, _⟩ := follows.counter reference counted
    rw [List.filterMap_append, List.mem_append]
    rintro (shared | shared)
    · exact absent reference counter found (counters shared)
    · exact follows.unshared reference counted shared
  · intro condition conditional
    obtain ⟨tested, found, testable⟩ := follows.tested condition conditional
    exact ⟨tested, by rwa [find?_after (absent condition.field tested found)], testable⟩
  · rw [List.map_append, List.mem_append]
    rintro (taken | taken)
    · exact apart field.name taken (by simp)
    · exact follows.fresh taken

theorem checkFrom_after (checked : checkFrom earlier fields = .ok ())
    (counters : before.filterMap Field.countField? ⊆ before.map Field.name)
    (apart : ∀ name ∈ before.map Field.name, name ∉ (earlier ++ fields).map Field.name) :
    checkFrom (before ++ earlier) fields = .ok () ∨
      ∃ name, checkFrom (before ++ earlier) fields = .error (.tooLarge name) := by
  induction fields generalizing earlier with
  | nil => exact .inl rfl
  | cons field fields ih =>
    obtain ⟨follows, rest⟩ := checkFrom_cons.mp checked
    -- The size is looked at before the references, so a field too large is reported as such.
    by_cases small : Field.footprints (before ++ earlier) + field.footprint ≤ maxFootprint
    · have here : ∀ name ∈ before.map Field.name, name ∉ (earlier ++ [field]).map Field.name := by
        intro name member later
        apply apart name member
        rw [List.append_cons, List.map_append, List.mem_append]
        exact .inl later
      have first := checkField_eq_ok.mpr (follows.after counters here small)
      rw [checkFrom, first, ok_bind, List.append_assoc]
      exact ih rest (by simpa using apart)
    · have first : checkField (before ++ earlier) field = .error (.tooLarge field.name) := by
        rw [checkField, follows.named, ok_bind, if_pos (Nat.lt_of_not_le small)]
        rfl
      refine .inr ⟨field.name, ?_⟩
      rw [checkFrom, first]
      rfl

theorem checkFrom_append (earlier first second : List Field) :
    checkFrom earlier (first ++ second) =
      checkFrom earlier first >>= fun _ => checkFrom (earlier ++ first) second := by
  induction first generalizing earlier with
  | nil => simp [checkFrom, pure, Except.pure, ok_bind]
  | cons field first ih =>
    rw [List.cons_append, checkFrom, checkFrom]
    cases checkField earlier field with
    | error => rfl
    | ok => simpa [ok_bind] using ih (earlier ++ [field])

/-- Two templates without a name in common make one, unless they are too large together. -/
theorem check_append {first second : Template} (checked : first.check = .ok ())
    (follow : second.check = .ok ())
    (apart : ∀ name ∈ first.map Field.name, name ∉ second.map Field.name) :
    check (first ++ second) = .ok () ∨ ∃ name, check (first ++ second) = .error (.tooLarge name) := by
  have joined : check (first ++ second) = checkFrom (first ++ []) second := by
    unfold check at checked ⊢
    rw [checkFrom_append, checked, ok_bind, List.nil_append, List.append_nil]
  rw [joined]
  have counters := counters_named checked (List.nil_subset _)
  exact checkFrom_after follow counters apart

end ResourceTemplate.Template
