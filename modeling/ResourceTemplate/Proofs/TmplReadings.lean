import ResourceTemplate.Proofs.TmplEntries
import ResourceTemplate.Proofs.TmplNames

/-! What entries make of a reading. An entry looks at the innermost list alone, so that a reading
goes on in the same way inside a list, or after other fields whose names it does not use. -/
namespace ResourceTemplate.Tmpl

def caseEntry? (base : IntType) (label : String) : Option EnumEntry :=
  (splitCase? label.toList).bind fun (name, text) =>
    (caseNumber? text).bind fun n =>
      if Numeral.maxSigned < n then none
      else (caseValue? base n).map fun value => ⟨value, String.ofList (Text.trim name)⟩

theorem addCase_eq_ok {fields named : List Field} {label : String} {offset : Nat} :
    addCase fields label offset = .ok named ↔
      ∃ front name type base entry, fields = front ++ [.scalar name type] ∧
        type.intType? = some base ∧ caseEntry? base label = some entry ∧
        named = front ++ [.scalar name (withEntry base entry type)] := by
  unfold addCase caseEntry?
  cases splitCase? label.toList with
  | none => simp
  | some parts =>
    obtain ⟨name, text⟩ := parts
    cases number : caseNumber? text with
    | none => simp [number]
    | some n =>
      simp only [number, Option.bind_some]
      by_cases large : Numeral.maxSigned < n
      · simp [large, throw_bind]
      simp only [if_neg large]
      constructor
      · intro added
        cases last : fields.getLast? with
        | none => simp [last] at added
        | some field =>
          cases field with
          | composite => simp [last] at added
          | group => simp [last] at added
          | scalar field type =>
            simp only [last] at added
            cases integer : type.intType? with
            | none => simp [integer] at added
            | some base =>
              simp only [integer] at added
              cases value : caseValue? base n with
              | none => simp [value] at added
              | some value =>
                simp only [value] at added
                cases added
                obtain ⟨front, rfl⟩ := List.getLast?_eq_some_iff.mp last
                rw [List.dropLast_concat]
                exact ⟨front, field, type, base, _, rfl, integer, by rw [value]; rfl, rfl⟩
      · rintro ⟨front, field, type, base, entry, rfl, integer, found, rfl⟩
        obtain ⟨value, reduced, rfl⟩ := Option.map_eq_some_iff.mp found
        simp [integer, reduced]

namespace Reading

/-- What an entry that is in its place makes of a reading. -/
inductive Takes (reading : Reading) (entry : Entry) : Reading → Prop where
  | openCounted {announced : Announced} (waiting : reading.announced = some announced)
      (code : entry.code = "LSTC") :
      Takes reading entry (reading.openList entry.label announced.repetition entry.offset)
  | field {named : String → Field} (free : reading.announced = none)
      (code : Directive.ofCode? entry.code = some (.field named)) :
      Takes reading entry (reading.push entry.label named)
  | count {type : IntType} {zeroBased : Bool} (free : reading.announced = none)
      (code : Directive.ofCode? entry.code = some (.count type zeroBased)) :
      Takes reading entry
        { reading.push entry.label (.scalar · (.int type)) with
          announced := some ⟨.counted (fieldName reading.fields entry.label) zeroBased,
            entry.code, entry.offset⟩ }
  | fixedCount {count : Nat} (free : reading.announced = none)
      (code : Directive.ofCode? entry.code = some .fixedCount)
      (holds : fixedCount? entry.label = some count) :
      Takes reading entry
        { reading with announced := some ⟨.fixed count, entry.code, entry.offset⟩ }
  | openList {repetition : Repetition} (free : reading.announced = none)
      (code : Directive.ofCode? entry.code = some (.openList repetition)) :
      Takes reading entry (reading.openList entry.label repetition entry.offset)
  | closeList {list : OpenList} {lists : List OpenList} (free : reading.announced = none)
      (code : Directive.ofCode? entry.code = some .closeList)
      (inside : reading.lists = list :: lists) (checked : check reading.fields = .ok ()) :
      Takes reading entry
        (push ⟨list.before, lists, none⟩ list.label (.group · reading.fields list.repetition none))
  | nameValue {fields : List Field} (free : reading.announced = none)
      (code : Directive.ofCode? entry.code = some .nameValue)
      (named : addCase reading.fields entry.label entry.offset = .ok fields) :
      Takes reading entry { reading with fields := fields }
  | divider (free : reading.announced = none)
      (code : Directive.ofCode? entry.code = some .divider) : Takes reading entry reading

theorem step_eq_ok {reading next : Reading} {entry : Entry} :
    reading.step entry = .ok next ↔ reading.Takes entry next := by
  constructor
  · intro done
    obtain ⟨fields, lists, announced⟩ := reading
    cases announced with
    | some announced =>
      simp only [step] at done
      split at done
      · next code =>
        cases done
        exact .openCounted rfl code
      · nomatch done
    | none =>
      simp only [step, enter] at done
      cases code : Directive.ofCode? entry.code with
      | none => simp [code] at done
      | some directive =>
        simp only [code] at done
        cases directive with
        | field named =>
          cases done
          exact .field rfl code
        | count type zeroBased =>
          cases done
          exact .count rfl code
        | fixedCount =>
          cases holds : fixedCount? entry.label with
          | none => simp [holds] at done
          | some count =>
            simp only [holds] at done
            cases done
            exact .fixedCount rfl code holds
        | openCounted => nomatch done
        | openList repetition =>
          cases done
          exact .openList rfl code
        | closeList =>
          cases lists with
          | nil => nomatch done
          | cons list lists =>
            obtain ⟨checked, done⟩ := unit_bind_eq_ok.mp done
            cases done
            exact .closeList rfl code rfl checked
        | nameValue =>
          obtain ⟨named, added, same⟩ := bind_eq_ok.mp done
          cases same
          exact .nameValue rfl code added
        | divider =>
          cases done
          exact .divider rfl code
  · intro takes
    cases takes <;> simp_all [step, enter, closeList, pure, Except.pure, bind, Except.bind]

end Reading
end ResourceTemplate.Tmpl
