import ResourceTemplate.Proofs.TmplReadings

/-! A reading among other fields. The entries that make a list of fields by themselves make the same
list inside other lists, and after fields whose names it does not need. -/
namespace ResourceTemplate.Tmpl

section Codes

def Directive.KeepsName : Directive → Prop
  | .field named => ∀ name, (named name).name = name
  | _ => True

theorem table_keepsName : ∀ entry ∈ table, entry.2.KeepsName := by
  simp [table, intCodes, countCodes, otherCodes, bytesToEnd, Directive.KeepsName, Field.name]

/-- A code stands in the table, or it tells how long the string is that it asks for. -/
theorem directive_of_code {code : String} {directive : Directive}
    (known : Directive.ofCode? code = some directive) :
    (code, directive) ∈ table ∨ ∃ length, directive = .field (.scalar · (.fixedString length)) := by
  rcases Option.or_eq_some_iff.mp known with listed | ⟨_, sized⟩
  · obtain ⟨earlier, later, split, _⟩ := List.lookup_eq_some_iff.mp listed
    exact .inl (by simp [split])
  · unfold sized? at sized
    split at sized
    · nomatch sized
    · split at sized
      · obtain ⟨length, _, same⟩ := Option.map_eq_some_iff.mp sized
        exact .inr ⟨length, same.symm⟩
      · nomatch sized

/-- A rule for the directives of the table holds for all when strings of a given length keep it. -/
theorem Directive.of_code {rule : Directive → Prop} (listed : ∀ entry ∈ table, rule entry.2)
    (sized : ∀ length, rule (.field (.scalar · (.fixedString length)))) {code : String}
    {directive : Directive} (known : Directive.ofCode? code = some directive) : rule directive := by
  rcases directive_of_code known with member | ⟨length, rfl⟩
  · exact listed _ member
  · exact sized length

/-- What is no field has its code in the table. -/
theorem listed_of_code {code : String} {directive : Directive}
    (known : Directive.ofCode? code = some directive) (other : ∀ named, directive ≠ .field named) :
    (code, directive) ∈ table := by
  rcases directive_of_code known with member | ⟨length, same⟩
  · exact member
  · exact absurd same (other _)

theorem name_of_code {code : String} {named : String → Field}
    (known : Directive.ofCode? code = some (.field named)) (name : String) :
    (named name).name = name :=
  Directive.of_code table_keepsName (fun _ _ => rfl) known name

end Codes

def outermost (fields : List Field) : List OpenList → List Field
  | [] => fields
  | list :: lists => outermost list.before lists

namespace Reading

def names (reading : Reading) : List String :=
  (outermost reading.fields reading.lists).map Field.name

theorem names_push (reading : Reading) (label : String) (named : String → Field) :
    reading.names ⊆ (reading.push label named).names := by
  obtain ⟨fields, lists, announced⟩ := reading
  cases lists with
  | nil => simp [names, push, outermost]
  | cons => exact List.Subset.refl _

theorem names_addCase {reading : Reading} {fields : List Field} {label : String} {offset : Nat}
    (named : addCase reading.fields label offset = .ok fields) :
    ({ reading with fields := fields } : Reading).names = reading.names := by
  obtain ⟨before, lists, announced⟩ := reading
  obtain ⟨front, name, type, base, entry, rfl, _, _, rfl⟩ := addCase_eq_ok.mp named
  cases lists with
  | nil => simp [names, outermost, Field.name]
  | cons => rfl

/-- No name is given up again. -/
theorem Takes.names_subset {reading next : Reading} {entry : Entry} (takes : reading.Takes entry next) :
    reading.names ⊆ next.names := by
  cases takes with
  | field => exact names_push ..
  | @count type => exact names_push reading entry.label (.scalar · (.int type))
  | @closeList list lists free code inside checked =>
    have kept : reading.names = names ⟨list.before, lists, none⟩ := by
      simp [names, inside, outermost]
    rw [kept]
    exact names_push ..
  | nameValue free code named => exact (names_addCase named).symm ▸ List.Subset.refl _
  | openCounted | fixedCount | openList | divider => exact List.Subset.refl _

end Reading

/-- Where a reading takes place: after some fields, inside some lists and so many bytes on. -/
structure Surroundings where
  before : List Field
  around : List OpenList
  shift : Nat

namespace Surroundings

variable (surroundings : Surroundings)

def level (fields : List Field) : List OpenList → List Field
  | [] => surroundings.before ++ fields
  | _ :: _ => fields

def lists : List OpenList → List OpenList
  | [] => surroundings.around
  | list :: outer =>
    ⟨surroundings.level list.before outer, list.label, list.repetition,
      surroundings.shift + list.offset⟩ :: lists outer

def reading (reading : Reading) : Reading :=
  ⟨surroundings.level reading.fields reading.lists, surroundings.lists reading.lists,
    reading.announced.map fun announced =>
      { announced with offset := surroundings.shift + announced.offset }⟩

def Fresh (reading : Reading) : Prop :=
  ∀ name ∈ reading.names, name ∉ surroundings.before.map Field.name

variable {surroundings}

/-- A label leads to the name that it leads to without the surroundings. -/
theorem fieldName_reading {reading : Reading} {label : String} {named : String → Field}
    (keeps : ∀ name, (named name).name = name)
    (fresh : surroundings.Fresh (reading.push label named)) :
    fieldName (surroundings.reading reading).fields label = fieldName reading.fields label := by
  obtain ⟨fields, outer, announced⟩ := reading
  cases outer with
  | cons => rfl
  | nil =>
    apply fieldName_append
    apply fresh
    simp [Reading.names, Reading.push, outermost, keeps]

theorem reading_push {reading : Reading} {label : String} {named : String → Field}
    (keeps : ∀ name, (named name).name = name)
    (fresh : surroundings.Fresh (reading.push label named)) :
    surroundings.reading (reading.push label named) =
      (surroundings.reading reading).push label named := by
  have same := fieldName_reading keeps fresh
  obtain ⟨fields, outer, announced⟩ := reading
  cases outer with
  | cons => rfl
  | nil =>
    simp only [Surroundings.reading, level] at same
    simp [Surroundings.reading, level, Reading.push, same]

theorem level_addCase {fields named : List Field} {label : String} {offset : Nat} {outer : List OpenList}
    (added : addCase fields label offset = .ok named) (shift : Nat) :
    addCase (surroundings.level fields outer) label (shift + offset) =
      .ok (surroundings.level named outer) := by
  obtain ⟨front, name, type, base, entry, rfl, integer, found, rfl⟩ := addCase_eq_ok.mp added
  apply addCase_eq_ok.mpr
  cases outer with
  | nil =>
    refine ⟨surroundings.before ++ front, name, type, base, entry, ?_, integer, found, ?_⟩
    · simp [level]
    · simp [level]
  | cons => exact ⟨front, name, type, base, entry, rfl, integer, found, rfl⟩

/-- An entry is in its place here when it is in its place in the reading by itself. -/
theorem takes {reading next : Reading} {entry : Entry} (takes : reading.Takes entry next)
    (fresh : surroundings.Fresh next) :
    (surroundings.reading reading).Takes (entry.moved surroundings.shift)
      (surroundings.reading next) := by
  obtain ⟨fields, lists, announced⟩ := reading
  have coded : (entry.moved surroundings.shift).code = entry.code := rfl
  have labelled : (entry.moved surroundings.shift).label = entry.label := rfl
  cases takes with
  | @openCounted announced waiting code =>
    cases waiting
    have waits : (surroundings.reading ⟨fields, lists, some announced⟩).announced =
      some { announced with offset := surroundings.shift + announced.offset } := rfl
    have opened := Reading.Takes.openCounted waits (coded.trans code)
    exact opened
  | @field named free code =>
    cases free
    rw [reading_push (name_of_code code) fresh]
    exact .field rfl code
  | @count type zeroBased free code =>
    cases free
    have fresh : surroundings.Fresh
      (Reading.push ⟨fields, lists, none⟩ entry.label (.scalar · (.int type))) := fresh
    have free : (surroundings.reading ⟨fields, lists, none⟩).announced = none := rfl
    have counted := Reading.Takes.count free (coded.symm ▸ code)
    rw [labelled, ← reading_push (fun _ => rfl) fresh, fieldName_reading (fun _ => rfl) fresh] at counted
    exact counted
  | fixedCount free code holds =>
    cases free
    exact .fixedCount rfl code holds
  | openList free code =>
    cases free
    exact .openList rfl code
  | @closeList list outer free code inside checked =>
    cases free
    cases inside
    rw [reading_push (fun _ => rfl) fresh]
    have inside : (surroundings.reading ⟨fields, list :: outer, none⟩).lists =
      ⟨surroundings.level list.before outer, list.label, list.repetition,
        surroundings.shift + list.offset⟩ :: surroundings.lists outer := rfl
    have closed := Reading.Takes.closeList rfl (coded.symm ▸ code) inside checked
    exact closed
  | nameValue free code named =>
    cases free
    exact .nameValue rfl code (level_addCase named surroundings.shift)
  | divider free code =>
    cases free
    exact .divider rfl code

end Surroundings

section Runs

variable {reading last : Reading} {entries : List Entry}

theorem names_run (done : entries.foldlM Reading.step reading = .ok last) :
    reading.names ⊆ last.names := by
  induction entries generalizing reading with
  | nil =>
    cases done
    exact List.Subset.refl _
  | cons entry entries ih =>
    rw [List.foldlM_cons] at done
    obtain ⟨next, step, done⟩ := bind_eq_ok.mp done
    intro name member
    apply ih done
    exact (Reading.step_eq_ok.mp step).names_subset member

/-- What entries do by themselves they also do in any surroundings where the names are not taken. -/
theorem Surroundings.run {surroundings : Surroundings}
    (done : entries.foldlM Reading.step reading = .ok last) (fresh : surroundings.Fresh last) :
    (entries.map (Entry.moved surroundings.shift)).foldlM Reading.step (surroundings.reading reading) =
      .ok (surroundings.reading last) := by
  induction entries generalizing reading with
  | nil =>
    cases done
    rfl
  | cons entry entries ih =>
    rw [List.foldlM_cons] at done
    obtain ⟨next, step, done⟩ := bind_eq_ok.mp done
    -- Names are never given up, so what is free at the end has been free all along.
    have early : surroundings.Fresh next := by
      intro name member
      exact fresh name (names_run done member)
    have moved := Reading.step_eq_ok.mpr (surroundings.takes (Reading.step_eq_ok.mp step) early)
    rw [List.map_cons, List.foldlM_cons, moved, ok_bind]
    exact ih done

theorem finish_eq_ok {fields : List Field} :
    reading.finish = .ok fields ↔ reading = ⟨fields, [], none⟩ := by
  obtain ⟨found, lists, announced⟩ := reading
  cases announced with
  | some => simp [Reading.finish]
  | none =>
    cases lists with
    | nil => simp [Reading.finish]
    | cons => simp [Reading.finish]

theorem fields_eq_ok {data : Bytes} {found : List Field} :
    fields data = .ok found ↔
      ∃ entries, Stand 0 data entries ∧
        entries.foldlM Reading.step .start = .ok ⟨found, [], none⟩ := by
  unfold fields
  constructor
  · intro loaded
    cases scanned : Entry.scan ⟨0, data⟩ with
    | mk entries fault =>
      simp only [scanned] at loaded
      obtain ⟨last, done, ended⟩ := bind_eq_ok.mp loaded
      cases fault with
      | some => nomatch ended
      | none =>
        obtain rfl := finish_eq_ok.mp ended
        exact ⟨entries, stand_of_scan scanned, done⟩
  · rintro ⟨entries, stand, done⟩
    simp only [scan_of_stand stand, done, ok_bind]
    rfl

end Runs
end ResourceTemplate.Tmpl
