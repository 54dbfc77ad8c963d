import Mathlib
import ResourceTemplate.Proofs.JoinedTemplates
import ResourceTemplate.Proofs.SoundFields
import ResourceTemplate.Proofs.WordFootprints

/-! Which field lists are accepted: those that are sound and small enough, and no others. A single pass
that keeps a map of the fields it has seen, the count fields that are taken and the footprints so far,
all in machine words, comes to the same result on every list. -/
namespace ResourceTemplate.Template

section Rules

variable {fields earlier front back : List Field} {field : Field}

theorem follows_of_checkFrom (checked : checkFrom earlier (front ++ field :: back) = .ok ()) :
    Follows (earlier ++ front) field := by
  rw [checkFrom_append, unit_bind_eq_ok] at checked
  exact (checkFrom_cons.mp checked.2).1

theorem mem_of_find? {name : String} (found : Template.find? fields name = some field) :
    field ∈ fields ∧ field.name = name :=
  ⟨List.mem_of_find?_eq_some found, by simpa using List.find?_some found⟩

theorem sound_of_check (checked : check fields = .ok ()) : Sound fields := by
  refine ⟨fun field member => isName_of_checkFrom checked field member, names_nodup checked, ?_,
    counters_nodup checked, ?_⟩
  · rintro front group back reference rfl refers
    obtain ⟨counter, found, integer⟩ := (follows_of_checkFrom checked).counter reference refers
    obtain ⟨member, named⟩ := mem_of_find? found
    exact ⟨counter, member, named, integer⟩
  · rintro front group back condition rfl refers
    obtain ⟨tested, found, testable⟩ := (follows_of_checkFrom checked).tested condition refers
    obtain ⟨member, named⟩ := mem_of_find? found
    exact ⟨tested, member, named, testable⟩

theorem checkFrom_of_small (sound : Sound (earlier ++ fields))
    (small : Field.footprints (earlier ++ fields) ≤ maxFootprint) : checkFrom earlier fields = .ok () := by
  induction fields generalizing earlier with
  | nil => rfl
  | cons field fields ih =>
    have here : Field.footprints earlier + field.footprint ≤ maxFootprint := by
      rw [footprints_append, Field.footprints] at small
      omega
    refine checkFrom_cons.mpr ⟨sound.follows here, ?_⟩
    apply ih
    · simpa using sound
    · simpa using small

end Rules

/-- What a pass over a field list keeps of the fields behind it. -/
structure Pass where
  seen : Std.HashMap String Field
  counters : Std.HashSet String
  total : Nat

namespace Pass

def start : Pass := ⟨∅, ∅, 0⟩

def total? (pass : Pass) (field : Field) : Option Nat := do
  let footprint ← field.footprint?
  let total ← Word.add? pass.total footprint
  if total ≤ maxFootprint then some total else none

def refer (pass : Pass) (suitable : Field → Bool) (group reference : String) :
    Except TemplateError Unit :=
  match pass.seen[reference]? with
  | none => throw (.unknownReference group reference)
  | some field => if suitable field then return else throw (.notAnInteger group reference)

def counted (pass : Pass) (field : Field) : Except TemplateError (Std.HashSet String) :=
  match field.countField? with
  | none => return pass.counters
  | some reference => do
    pass.refer (·.intType?.isSome) field.name reference
    if pass.counters.contains reference then throw (.sharedCount reference)
    return pass.counters.insert reference

def tested (pass : Pass) (field : Field) : Except TemplateError Unit :=
  match field.condition? with
  | none => return
  | some condition => pass.refer Field.isTestable field.name condition.field

def step (pass : Pass) (field : Field) : Except TemplateError Pass := do
  checkName field.name
  let some total := pass.total? field | throw (.tooLarge field.name)
  let counters ← pass.counted field
  pass.tested field
  if pass.seen.contains field.name then throw (.duplicate field.name)
  return ⟨pass.seen.insert field.name field, counters, total⟩

def run (fields : List Field) : Except TemplateError Unit := do
  let _ ← fields.foldlM step start
  return

/-- The pass has come past these fields. -/
structure Keeps (pass : Pass) (earlier : List Field) : Prop where
  seen : ∀ name, pass.seen[name]? = Template.find? earlier name
  counters : ∀ name, name ∈ pass.counters ↔ name ∈ earlier.filterMap Field.countField?
  total : pass.total = Field.footprints earlier
  small : pass.total ≤ maxFootprint

variable {pass next : Pass} {earlier fields : List Field} {field : Field}

theorem keeps_start : start.Keeps [] := by
  refine ⟨?_, ?_, rfl, Nat.zero_le _⟩
  · intro name
    simp [start, Template.find?]
  · intro name
    simp [start]

theorem Keeps.refer_eq (keeps : pass.Keeps earlier) (suitable : Field → Bool) (group reference : String) :
    pass.refer suitable group reference = checkReference earlier suitable group reference := by
  unfold refer checkReference
  cases found : Template.find? earlier reference <;> simp [keeps.seen, found]

theorem Keeps.tested_eq (keeps : pass.Keeps earlier) (field : Field) :
    pass.tested field = checkCondition earlier field := by
  unfold tested checkCondition
  cases field.condition? with
  | none => rfl
  | some condition => exact keeps.refer_eq ..

theorem Keeps.contains_eq (keeps : pass.Keeps earlier) (reference : String) :
    pass.counters.contains reference = (groupCountedBy? earlier reference).isSome := by
  rw [Bool.eq_iff_iff, Std.HashSet.contains_iff_mem, keeps.counters, Option.isSome_iff_ne_none, ne_eq,
    groupCountedBy?_eq_none, not_not]

/-- A sum that no word holds is not allowed either. -/
theorem Keeps.total?_eq (keeps : pass.Keeps earlier) (nested : field.Nested (·.check = .ok ())) :
    pass.total? field =
      if Field.footprints earlier + field.footprint ≤ maxFootprint then
        some (Field.footprints earlier + field.footprint)
      else none := by
  have limit : maxFootprint ≤ Numeral.maxWord := by decide
  unfold total?
  rw [Field.footprint?_eq field nested, keeps.total]
  by_cases small : Field.footprints earlier + field.footprint ≤ maxFootprint
  · have alone : field.footprint ≤ Numeral.maxWord := by omega
    have together : Field.footprints earlier + field.footprint ≤ Numeral.maxWord := by omega
    simp [Word.of?_eq_some alone, Word.add?_eq_some together, small]
  · rw [if_neg small]
    cases first : Word.of? field.footprint with
    | none => rfl
    | some footprint =>
      obtain rfl := Word.eq_of_of? first
      cases sum : Word.add? (Field.footprints earlier) field.footprint with
      | none => simp [sum]
      | some total =>
        obtain rfl := Word.eq_of_of? sum
        simp [sum, small]

def after (pass : Pass) (field : Field) : Pass where
  seen := pass.seen.insert field.name field
  counters := (field.countField?.map pass.counters.insert).getD pass.counters
  total := pass.total + field.footprint

theorem Keeps.counted_eq (keeps : pass.Keeps earlier) (field : Field) :
    pass.counted field = (checkCount earlier field).map fun _ => (pass.after field).counters := by
  unfold counted checkCount after
  cases field.countField? with
  | none => rfl
  | some reference =>
    simp only [keeps.refer_eq, keeps.contains_eq]
    cases checkReference earlier (·.intType?.isSome) field.name reference with
    | error => rfl
    | ok =>
      by_cases shared : (groupCountedBy? earlier reference).isSome = true
      · simp [ok_bind, shared]
        rfl
      · simp [shared]
        rfl

theorem Keeps.seen_contains (keeps : pass.Keeps earlier) (name : String) :
    pass.seen.contains name = (Template.find? earlier name).isSome := by
  rw [Std.HashMap.contains_eq_isSome_getElem?, keeps.seen]

/-- One step of the pass reports what the rules for one field do. -/
theorem Keeps.step_eq (keeps : pass.Keeps earlier) (nested : field.Nested (·.check = .ok ())) :
    pass.step field = (checkField earlier field).map fun _ => pass.after field := by
  unfold step checkField
  rw [keeps.total?_eq nested, keeps.counted_eq, keeps.tested_eq, keeps.seen_contains]
  cases checkName field.name with
  | error => rfl
  | ok =>
    by_cases small : Field.footprints earlier + field.footprint ≤ maxFootprint
    · rw [if_pos small, if_neg (Nat.not_lt.mpr small)]
      cases checkCount earlier field with
      | error => rfl
      | ok =>
        cases checkCondition earlier field with
        | error => rfl
        | ok =>
          by_cases taken : (Template.find? earlier field.name).isSome = true
          · simp only [ok_bind, Except.map, if_pos taken]
            rfl
          · simp only [ok_bind, Except.map, if_neg taken, after, keeps.total]
            rfl
    · rw [if_neg small, if_pos (Nat.lt_of_not_le small)]
      rfl

theorem Keeps.after (keeps : pass.Keeps earlier) (follows : Follows earlier field) :
    (pass.after field).Keeps (earlier ++ [field]) := by
  have sum : (pass.after field).total = Field.footprints (earlier ++ [field]) := by
    simp [Pass.after, keeps.total, footprints_append, Field.footprints]
  refine ⟨?_, ?_, sum, ?_⟩
  · intro name
    have found : Template.find? (earlier ++ [field]) name =
        (Template.find? earlier name).or (if field.name = name then some field else none) := by
      by_cases same : field.name = name <;> simp [Template.find?, same]
    rw [found, Pass.after, Std.HashMap.getElem?_insert, keeps.seen]
    by_cases same : field.name = name
    · subst same
      simp [find?_eq_none.mpr follows.fresh]
    · simp [same]
  · intro name
    rw [List.filterMap_append, List.mem_append, ← keeps.counters]
    cases refers : field.countField? with
    | none => simp [Pass.after, refers]
    | some reference =>
      have last : name ∈ [field].filterMap Field.countField? ↔ reference = name := by
        simp [refers, eq_comm]
      simp only [last, Pass.after, refers, Option.map_some, Option.getD_some, Std.HashSet.mem_insert,
        beq_iff_eq]
      exact Or.comm
  · rw [sum, footprints_append]
    simpa [Field.footprints] using follows.small

/-- So does the whole pass. -/
theorem Keeps.foldlM_eq (keeps : pass.Keeps earlier) (nested : Field.AllNested (·.check = .ok ()) fields) :
    (fields.foldlM step pass).map (fun _ => ()) = checkFrom earlier fields := by
  induction fields generalizing pass earlier with
  | nil => rfl
  | cons field fields ih =>
    obtain ⟨first, follow⟩ := nested
    rw [List.foldlM_cons, checkFrom, keeps.step_eq first]
    cases outcome : checkField earlier field with
    | error => rfl
    | ok => exact ih (keeps.after (checkField_eq_ok.mp outcome)) follow

theorem run_eq (nested : Field.AllNested (·.check = .ok ()) fields) : run fields = check fields := by
  rw [check, ← keeps_start.foldlM_eq nested, run]
  cases fields.foldlM step start <;> rfl

end Pass

/-- The rules come to this, and a pass over the fields in machine words to the same as the rules, down to
the error, where all lists that are nested in the fields are accepted. -/
theorem accepts_iff_sound (fields : List Field) :
    (check fields = .ok () ↔ Sound fields ∧ Field.footprints fields ≤ maxFootprint) ∧
      (Field.AllNested (·.check = .ok ()) fields → Pass.run fields = check fields) := by
  refine ⟨⟨?_, ?_⟩, Pass.run_eq⟩
  · intro checked
    exact ⟨sound_of_check checked, footprints_le_maxFootprint checked⟩
  · rintro ⟨sound, small⟩
    exact checkFrom_of_small (by simpa using sound) (by simpa using small)

theorem accepts_iff_sound_sample :
    Field.AllNested (·.check = .ok ()) sample ∧ Pass.run sample = .ok () ∧ Sound sample := by
  have nested : Field.AllNested (·.check = .ok ()) sample := sample_wellFormed.2
  have checked : check sample = .ok () := sample_wellFormed.1
  obtain ⟨accepted, run⟩ := accepts_iff_sound sample
  exact ⟨nested, (run nested).trans checked, (accepted.mp checked).1⟩

end ResourceTemplate.Template
