import ResourceTemplate.Proofs.TmplSoundness

/-! What a `TMPL` resource can be refused for. Its entries can be out of place or hold no number, and
what they describe can be too large, but no name and no reference is ever at fault. -/
namespace ResourceTemplate

/-- The errors that the loader is documented to report. Of the rules for templates only the one for
the size is among them. -/
inductive TmplError.Documented : TmplError → Prop where
  | truncated (offset need available : Nat) : Documented (.truncated offset need available)
  | unknownCode (code : String) (offset : Nat) : Documented (.unknownCode code offset)
  | unbalancedList (offset : Nat) : Documented (.unbalancedList offset)
  | expectedListStart (code : String) (offset : Nat) : Documented (.expectedListStart code offset)
  | caseWithoutField (offset : Nat) : Documented (.caseWithoutField offset)
  | invalidCase (label : String) (offset : Nat) : Documented (.invalidCase label offset)
  | invalidFixedCount (label : String) (offset : Nat) : Documented (.invalidFixedCount label offset)
  | tooLarge (name : String) : Documented (.invalid (.tooLarge name))

namespace Tmpl

section Values

/-- The label gives a value by a minus sign before the smallest number, which has no opposite. -/
def Overflows (label : String) : Prop :=
  ∃ name text, splitCase? label.toList = some (name, text) ∧
    caseNumber? text = some (-Numeral.minSigned)

theorem magnitude?_bounds {text : List Char} {n : Int} (read : magnitude? text = some n) :
    Numeral.minSigned ≤ n ∧ n ≤ Numeral.maxSigned := by
  unfold magnitude? at read
  split at read <;> exact Numeral.signed?_bounds read

/-- A minus sign leads out of the signed numbers by one at most. -/
theorem caseNumber?_le {text : List Char} {n : Int} (read : caseNumber? text = some n) :
    n ≤ -Numeral.minSigned := by
  unfold caseNumber? at read
  split at read
  · obtain ⟨magnitude, held, rfl⟩ := Option.map_eq_some_iff.mp read
    exact Int.neg_le_neg (magnitude?_bounds held).1
  · have := (magnitude?_bounds read).2
    simp only [Numeral.maxSigned, Numeral.minSigned] at *
    omega

variable {fields : List Field} {label : String} {offset : Nat}

theorem addCase_of_overflows (overflows : Overflows label) :
    addCase fields label offset = .error (.caseOverflow offset) := by
  obtain ⟨name, text, split, number⟩ := overflows
  have large : Numeral.maxSigned < -Numeral.minSigned := by decide
  simp only [addCase, split, number, if_pos large]
  rfl

theorem addCase_fails :
    FailsWith (fun error => error.Documented ∨ Overflows label ∧ error = .caseOverflow offset)
      (addCase fields label offset) := by
  unfold addCase
  cases split : splitCase? label.toList with
  | none => exact .throw (.inl (.invalidCase ..))
  | some parts =>
    obtain ⟨name, text⟩ := parts
    cases number : caseNumber? text with
    | none =>
      simp only [number]
      exact .throw (.inl (.invalidCase ..))
    | some n =>
      simp only [number]
      by_cases large : Numeral.maxSigned < n
      · have least : n = -Numeral.minSigned := by
          have := caseNumber?_le number
          simp only [Numeral.maxSigned, Numeral.minSigned] at *
          omega
        rw [if_pos large, throw_bind]
        exact .throw (.inr ⟨⟨name, text, split, least ▸ number⟩, rfl⟩)
      rw [if_neg large]
      split
      · next field type _ =>
        cases type.intType? with
        | none => exact .throw (.inl (.caseWithoutField ..))
        | some base =>
          cases value : caseValue? base n with
          | none =>
            simp only [value]
            exact .throw (.inl (.invalidCase ..))
          | some value =>
            simp only [value]
            exact .ok _
      · exact .throw (.inl (.caseWithoutField ..))

end Values

theorem take_fails (n : Nat) (input : Input) : FailsWith TmplError.Documented (take n input) := by
  unfold take
  split
  · exact .ok _
  · exact .throw (.truncated ..)

/-- Entries end too early or not at all. -/
theorem scan_fault (input : Input) :
    ∀ error, (Entry.scan input).2 = some error → error.Documented := by
  have reads (input : Input) : FailsWith TmplError.Documented (Entry.read input) :=
    (take_fails ..).bind fun _ _ => (take_fails ..).bind fun _ _ =>
      (take_fails ..).bind fun _ _ => .ok _
  fun_induction Entry.scan input with
  | case1 =>
    intro error none
    contradiction
  | case2 input _ error failed =>
    rintro _ ⟨⟩
    exact (reads input).among error failed
  | case3 input _ entry rest found entries fault scan ih =>
    rw [scan] at ih
    exact ih

/-- A sound list can only be too large. -/
theorem Level.check_fails {fields : List Field} (level : Level fields) :
    FailsWith TmplError.Documented (check fields) := by
  unfold check
  rcases Template.check_of_sound level.sound with kept | ⟨name, large⟩
  · rw [kept]
    exact .ok ()
  · rw [large]
    exact .throw (.tooLarge name)

namespace Reading

/-- The entry names a value by a number without opposite, and it is its turn to do so. -/
structure Overflow (reading : Reading) (entry : Entry) : Prop where
  free : reading.announced = none
  code : entry.code = "CASE"
  label : Overflows entry.label

section Steps

variable {reading : Reading} {entry : Entry}

theorem step_of_overflow (overflow : reading.Overflow entry) :
    reading.step entry = .error (.caseOverflow entry.offset) := by
  have known : Directive.ofCode? entry.code = some .nameValue := code_nameValue.mpr overflow.code
  simp only [step, overflow.free, enter, known, addCase_of_overflows overflow.label]
  rfl

theorem closeList_fails (sound : reading.Sound) (offset : Nat) :
    FailsWith TmplError.Documented (reading.closeList offset) := by
  unfold closeList
  cases reading.lists with
  | nil => exact .throw (.unbalancedList offset)
  | cons list lists => exact sound.innermost.check_fails.bind fun _ _ => .ok _

theorem step_fails (sound : reading.Sound) (entry : Entry) :
    FailsWith (fun error => error.Documented ∨
      reading.Overflow entry ∧ error = .caseOverflow entry.offset) (reading.step entry) := by
  unfold step
  cases free : reading.announced with
  | some announced =>
    simp only
    split
    · exact .ok _
    · exact .throw (.inl (.expectedListStart ..))
  | none =>
    simp only [enter]
    cases code : Directive.ofCode? entry.code with
    | none => exact .throw (.inl (.unknownCode ..))
    | some directive =>
      cases directive with
      | field | count | openList | divider => exact .ok _
      | fixedCount =>
        simp only
        cases fixedCount? entry.label with
        | none => exact .throw (.inl (.invalidFixedCount ..))
        | some => exact .ok _
      | openCounted => exact .throw (.inl (.unbalancedList ..))
      | closeList => exact (closeList_fails sound entry.offset).imp fun _ documented => .inl documented
      | nameValue =>
        refine (addCase_fails.imp fun error reported => ?_).bind fun _ _ => .ok _
        refine reported.imp_right fun overflow => ?_
        exact ⟨⟨free, code_nameValue.mp code, overflow.1⟩, overflow.2⟩

theorem finish_fails : FailsWith TmplError.Documented reading.finish := by
  unfold finish
  split
  · exact .throw (.expectedListStart ..)
  · exact .throw (.unbalancedList ..)
  · exact .ok _

end Steps
end Reading

/-- The entry is reached, and it names a value by a number without opposite. -/
def OverflowsAt (data : Bytes) (entry : Entry) : Prop :=
  ∃ front back reading, (Entry.scan ⟨0, data⟩).1 = front ++ entry :: back ∧
    front.foldlM Reading.step .start = .ok reading ∧ reading.Overflow entry

section Loading

variable {data : Bytes}

/-- The first entry that is refused decides, whatever comes after it. -/
theorem fields_of_refused {front back : List Entry} {entry : Entry} {reading : Reading}
    {error : TmplError} (split : (Entry.scan ⟨0, data⟩).1 = front ++ entry :: back)
    (done : front.foldlM Reading.step .start = .ok reading)
    (refused : reading.step entry = .error error) : fields data = .error error := by
  have failed : (Entry.scan ⟨0, data⟩).1.foldlM Reading.step .start = .error error :=
    foldlM_eq_error.mpr ⟨front, entry, back, reading, split, done, refused⟩
  unfold fields
  generalize Entry.scan ⟨0, data⟩ = scanned at failed
  simp only [failed]
  rfl

theorem fields_of_overflowsAt {entry : Entry} (overflows : OverflowsAt data entry) :
    fields data = .error (.caseOverflow entry.offset) := by
  obtain ⟨front, back, reading, split, done, overflow⟩ := overflows
  exact fields_of_refused split done (Reading.step_of_overflow overflow)

theorem fields_fails (data : Bytes) :
    FailsWith (fun error => error.Documented ∨
      ∃ entry, OverflowsAt data entry ∧ error = .caseOverflow entry.offset) (fields data) := by
  unfold fields
  refine .bind ⟨fun error failed => ?_⟩ fun reading done => ?_
  · obtain ⟨front, entry, back, reading, split, done, last⟩ := foldlM_eq_error.mp failed
    have sound := Reading.sound_start.run done
    refine ((Reading.step_fails sound entry).among error last).imp_right ?_
    rintro ⟨overflow, rfl⟩
    exact ⟨entry, ⟨front, back, reading, split, done, overflow⟩, rfl⟩
  · cases fault : (Entry.scan ⟨0, data⟩).2 with
    | some error => exact .throw (.inl (scan_fault _ error fault))
    | none => exact Reading.finish_fails.imp fun _ documented => .inl documented

/-- What is loaded without a fault is one list that is sound. -/
theorem level_of_fields {found : List Field} (loaded : fields data = .ok found) : Level found := by
  obtain ⟨entries, _, done⟩ := fields_eq_ok.mp loaded
  exact (Reading.sound_start.run done).innermost

theorem ofTmpl_fails (data : Bytes) :
    FailsWith (fun error => error.Documented ∨
      ∃ entry, OverflowsAt data entry ∧ error = .caseOverflow entry.offset)
      (Template.ofTmpl data) := by
  refine (fields_fails data).bind fun found loaded => ?_
  refine ((level_of_fields loaded).check_fails.imp fun _ documented => .inl documented).bind ?_
  exact fun _ _ => .ok found

end Loading
end Tmpl

namespace Template

open Tmpl

/-- Whatever the labels are, the lists of a resource are sound from entry to entry. The template at
the end keeps the rules at every level, and without one an error tells what is wrong with the
resource, which is neither a name nor a reference. The only other error is that a value is the
opposite of the smallest number, and it comes with just the entries that ask for one. -/
theorem ofTmpl_sound (data : Bytes) :
    (∀ entries reading, entries <+: (Entry.scan ⟨0, data⟩).1 →
      entries.foldlM Reading.step .start = .ok reading → ∀ fields ∈ reading.levels, Sound fields) ∧
    (∀ template, ofTmpl data = .ok template → template.WellFormed) ∧
    (∀ error, ofTmpl data = .error error →
      error.Documented ∨ ∃ offset, error = .caseOverflow offset) ∧
    ∀ offset, ofTmpl data = .error (.caseOverflow offset) ↔
      ∃ entry, OverflowsAt data entry ∧ entry.offset = offset := by
  have fails := ofTmpl_fails data
  refine ⟨?_, ?_, ?_, ?_⟩
  · intro entries reading _ done fields inside
    exact ((Reading.sound_start.run done).levels fields inside).sound
  · intro template accepted
    obtain ⟨loaded, kept⟩ := ofTmpl_eq_ok.mp accepted
    exact ⟨kept, (level_of_fields loaded).formed⟩
  · intro error failed
    refine (fails.among error failed).imp_right ?_
    rintro ⟨entry, _, same⟩
    exact ⟨entry.offset, same⟩
  · intro offset
    constructor
    · intro failed
      rcases fails.among _ failed with documented | ⟨entry, overflows, same⟩
      · nomatch documented
      · exact ⟨entry, overflows, (TmplError.caseOverflow.inj same).symm⟩
    · rintro ⟨entry, overflows, rfl⟩
      rw [ofTmpl, fields_of_overflowsAt overflows]
      rfl

/-- The second entry asks for the opposite of the smallest number. -/
theorem ofTmpl_undocumented :
    ofTmpl ([1, 118, 68, 66, 89, 84, 23] ++
        Utf8.encode "x=--9223372036854775808CASE".toList) = .error (.caseOverflow 6) ∧
      ¬(TmplError.caseOverflow 6).Documented := by
  refine ⟨?_, nofun⟩
  decide +kernel

end Template
end ResourceTemplate
