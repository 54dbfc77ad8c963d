import ResourceTemplate.Proofs.AcceptedFields
import ResourceTemplate.Proofs.TmplErrors

/-! Loading in machine integers, one entry after the other: offsets are words, the numbers of names have
32 bits, and the opposite of a value has 64. Where one of them has no room the load stops. Counts and
lengths are read with a limit, and footprints that pass a word are too large. -/
namespace ResourceTemplate.Tmpl

inductive Fault where
  | refused (error : TmplError)
  | overflow
  deriving DecidableEq, Repr

abbrev Checked (α : Type) := Except Fault α

section Sure

variable {α β : Type}

def sure : Except TmplError α → Checked α
  | .ok a => .ok a
  | .error error => .error (.refused error)

@[simp] theorem sure_ok (a : α) : sure (.ok a) = .ok a := rfl

@[simp] theorem sure_error (error : TmplError) :
    sure (.error error : Except TmplError α) = .error (.refused error) := rfl

theorem sure_bind (outcome : Except TmplError α) (next : α → Except TmplError β) :
    sure (outcome >>= next) = sure outcome >>= fun a => sure (next a) := by
  cases outcome <;> rfl

theorem sure_ne_overflow (outcome : Except TmplError α) : sure outcome ≠ .error .overflow := by
  cases outcome <;> simp

end Sure

namespace Machine

def take (n : Nat) (input : Input) : Checked (Bytes × Input) := do
  let taken ← sure (Tmpl.take n input)
  if Numeral.maxWord < input.offset + n then throw .overflow
  return taken

def read (input : Input) : Checked (Entry × Input) := do
  let (length, rest) ← take 1 input
  let (label, rest) ← take (Bytes.toNat length) rest
  let (code, rest) ← take 4 rest
  return (⟨input.offset, String.ofList (Charset.macRoman.decode label),
    String.ofList (Utf8.decodeLossy code)⟩, rest)

def lastNumber : Nat := 2147483647

def freeName (names : List String) (base name : String) (n : Nat) : Checked String :=
  if names.contains name then
    if n < lastNumber then freeName names base (base ++ " " ++ toString n) (n + 1)
    else throw .overflow
  else return name
termination_by lastNumber - n

def fieldName (fields : List Field) (label : String) : Checked String :=
  freeName (fields.map Field.name) (baseName label) (baseName label) 2

def negate (n : Int) : Checked Int :=
  if n = Numeral.minSigned then throw .overflow else return -n

def caseNumber (text : List Char) : Checked (Option Int) :=
  match Text.trim text with
  | '-' :: text =>
    match magnitude? text with
    | some n => do return some (← negate n)
    | none => return none
  | text => return magnitude? text

def addCase (fields : List Field) (label : String) (offset : Nat) : Checked (List Field) := do
  let some (name, text) := splitCase? label.toList | throw (.refused (.invalidCase label offset))
  let some n ← caseNumber text | throw (.refused (.invalidCase label offset))
  match fields.getLast? with
  | some (.scalar field type) =>
    let some base := type.intType? | throw (.refused (.caseWithoutField offset))
    let some value := caseValue? base n | throw (.refused (.invalidCase label offset))
    let entry := ⟨value, String.ofList (Text.trim name)⟩
    return fields.dropLast ++ [.scalar field (withEntry base entry type)]
  | _ => throw (.refused (.caseWithoutField offset))

/-- The rules, in a pass that adds up footprints in words. -/
def check (fields : List Field) : Checked Unit :=
  match Template.Pass.run fields with
  | .ok () => return
  | .error error => throw (.refused (.invalid error))

def push (reading : Reading) (label : String) (named : String → Field) : Checked Reading := do
  let name ← fieldName reading.fields label
  return { reading with fields := reading.fields ++ [named name] }

def closeList (reading : Reading) (offset : Nat) : Checked Reading :=
  match reading.lists with
  | [] => throw (.refused (.unbalancedList offset))
  | list :: lists => do
    check reading.fields
    push ⟨list.before, lists, none⟩ list.label (.group · reading.fields list.repetition none)

def enter (reading : Reading) (entry : Entry) : Checked Reading := do
  let some directive := Directive.ofCode? entry.code
    | throw (.refused (.unknownCode entry.code entry.offset))
  match directive with
  | .field named => push reading entry.label named
  | .count type zeroBased =>
    let name ← fieldName reading.fields entry.label
    let announced := ⟨.counted name zeroBased, entry.code, entry.offset⟩
    return { reading with
      fields := reading.fields ++ [.scalar name (.int type)], announced := some announced }
  | .closeList => closeList reading entry.offset
  | .nameValue => return { reading with fields := ← addCase reading.fields entry.label entry.offset }
  | .fixedCount | .openCounted | .openList _ | .divider => sure (reading.enter entry)

def step (reading : Reading) (entry : Entry) : Checked Reading :=
  match reading.announced with
  | none => enter reading entry
  | some _ => sure (reading.step entry)

theorem take_ok {n : Nat} {input : Input} {taken : Bytes × Input} (done : take n input = .ok taken) :
    Tmpl.take n input = .ok taken := by
  unfold take at done
  cases found : Tmpl.take n input with
  | error error =>
    rw [found] at done
    contradiction
  | ok taken =>
    rw [found, sure_ok, ok_bind] at done
    split at done
    · contradiction
    · obtain rfl := pure_eq_ok.mp done
      rfl

theorem read_ok {input rest : Input} {entry : Entry} (done : read input = .ok (entry, rest)) :
    Entry.read input = .ok (entry, rest) := by
  obtain ⟨⟨length, one⟩, first, done⟩ := bind_eq_ok.mp done
  obtain ⟨⟨label, two⟩, second, done⟩ := bind_eq_ok.mp done
  obtain ⟨⟨code, three⟩, third, done⟩ := bind_eq_ok.mp done
  obtain ⟨rfl, rfl⟩ := Prod.mk.inj (pure_eq_ok.mp done)
  unfold Entry.read
  rw [take_ok first, ok_bind]
  dsimp only
  rw [take_ok second, ok_bind]
  dsimp only
  rw [take_ok third, ok_bind]
  rfl

def run (reading : Reading) (input : Input) : Checked Reading :=
  if input.atEnd then return reading
  else
    match _found : read input with
    | .error fault => throw fault
    | .ok (entry, rest) => do run (← step reading entry) rest
termination_by input.remaining
decreasing_by exact Entry.read_remaining (read_ok _found)

def load (data : Bytes) : Checked Template := do
  let reading ← run .start ⟨0, data⟩
  let fields ← sure reading.finish
  check fields
  return fields

section Offsets

variable {n : Nat} {input rest : Input} {entry : Entry}

theorem take_eq (fits : input.offset + input.remaining ≤ Numeral.maxWord) :
    take n input = sure (Tmpl.take n input) := by
  unfold take
  cases found : Tmpl.take n input with
  | error => rfl
  | ok taken =>
    obtain ⟨bytes, rest⟩ := taken
    have parts := take_remaining found
    rw [sure_ok, ok_bind, if_neg (by omega)]
    rfl

theorem place_of_take {bytes : Bytes} (found : Tmpl.take n input = .ok (bytes, rest)) :
    rest.offset + rest.remaining = input.offset + input.remaining := by
  have parts := take_remaining found
  have place := (take_eq_ok.mp found).2.2
  omega

/-- No offset passes the end of the data. -/
theorem read_eq (fits : input.offset + input.remaining ≤ Numeral.maxWord) :
    read input = sure (Entry.read input) := by
  unfold read Entry.read
  rw [take_eq fits]
  cases first : Tmpl.take 1 input with
  | error => rfl
  | ok length =>
    obtain ⟨length, one⟩ := length
    have fits : one.offset + one.remaining ≤ Numeral.maxWord := place_of_take first ▸ fits
    rw [sure_ok, ok_bind, ok_bind]
    dsimp only
    rw [take_eq fits]
    cases second : Tmpl.take (Bytes.toNat length) one with
    | error => rfl
    | ok label =>
      obtain ⟨label, two⟩ := label
      have fits : two.offset + two.remaining ≤ Numeral.maxWord := place_of_take second ▸ fits
      rw [sure_ok, ok_bind, ok_bind]
      dsimp only
      rw [take_eq fits]
      cases Tmpl.take 4 two <;> rfl

theorem place_of_read (found : Entry.read input = .ok (entry, rest)) :
    rest.offset + rest.remaining = input.offset + input.remaining := by
  obtain ⟨label, code, four, same, rfl, place⟩ := read_eq_ok.mp found
  have length := congrArg List.length same
  simp only [List.length_append, Label.pascal, List.length_cons, four] at length
  simp only [Input.remaining]
  omega

end Offsets

section Names

variable {names : List String} {base name : String}

/-- As long as there are numbers, the first name that is free is found. -/
theorem freeName_eq {n more : Nat} (room : n + more = lastNumber) :
    freeName names base name n =
      match (name :: (List.range' n more).map fun n => base ++ " " ++ toString n).find?
          (!names.contains ·) with
      | some free => .ok free
      | none => .error .overflow := by
  induction more generalizing n name with
  | zero =>
    rw [List.range'_zero, List.map_nil, freeName]
    by_cases taken : names.contains name = true
    · rw [List.find?_cons_of_neg (by simpa using taken), if_pos taken, if_neg (by omega)]
      rfl
    · rw [List.find?_cons_of_pos (by simpa using taken), if_neg taken]
      rfl
  | succ more ih =>
    rw [List.range'_succ, List.map_cons]
    by_cases taken : names.contains name = true
    · rw [List.find?_cons_of_neg (by simpa using taken), freeName, if_pos taken, if_pos (by omega),
        ih (by omega)]
    · rw [List.find?_cons_of_pos (by simpa using taken), freeName, if_neg taken]
      rfl

/-- The label leads to a name for which all numbers of 32 bits are taken. -/
def Exhausted (fields : List Field) (label : String) : Prop :=
  ∀ name ∈ candidates (baseName label) (lastNumber - 2), name ∈ fields.map Field.name

theorem fieldName_eq_find (fields : List Field) (label : String) :
    fieldName fields label =
      match (candidates (baseName label) (lastNumber - 2)).find?
          (!(fields.map Field.name).contains ·) with
      | some free => .ok free
      | none => .error .overflow := by
  have numbered : candidates (baseName label) (lastNumber - 2) =
      baseName label ::
        (List.range' 2 (lastNumber - 2)).map fun n => baseName label ++ " " ++ toString n := by
    rw [candidates, List.range'_eq_map_range, List.map_map]
    simp only [Function.comp_def, Nat.add_comm]
  have room : 2 + (lastNumber - 2) = lastNumber := rfl
  rw [fieldName, freeName_eq room, numbered]

theorem fieldName_of_exhausted {fields : List Field} {label : String}
    (exhausted : Exhausted fields label) : fieldName fields label = .error .overflow := by
  have none : (candidates (baseName label) (lastNumber - 2)).find?
      (!(fields.map Field.name).contains ·) = none := by
    apply List.find?_eq_none.mpr
    intro name member
    simpa using exhausted name member
  rw [fieldName_eq_find, none]

/-- Of more candidates than are needed the same one is chosen. -/
theorem fieldName_eq {fields : List Field} {label : String} (room : ¬ Exhausted fields label) :
    fieldName fields label = .ok (Tmpl.fieldName fields label) := by
  have chosen := fieldName_found fields label
  rw [fieldName_eq_find]
  cases first : (candidates (baseName label) (lastNumber - 2)).find?
      (!(fields.map Field.name).contains ·) with
  | none =>
    refine absurd (fun name member => ?_) room
    simpa using List.find?_eq_none.mp first name member
  | some free =>
    refine congrArg Except.ok ?_
    rcases Nat.le_total (lastNumber - 2) fields.length with fewer | more
    · obtain ⟨extra, length⟩ := Nat.exists_eq_add_of_le fewer
      obtain ⟨others, longer⟩ := candidates_more (baseName label) (lastNumber - 2) extra
      rw [length, longer, List.find?_append, first] at chosen
      exact Option.some.inj chosen
    · obtain ⟨extra, length⟩ := Nat.exists_eq_add_of_le more
      obtain ⟨others, longer⟩ := candidates_more (baseName label) fields.length extra
      rw [length, longer, List.find?_append, chosen] at first
      exact (Option.some.inj first).symm

/-- So many names take up as many fields. -/
theorem Exhausted.length_le {fields : List Field} {label : String}
    (exhausted : Exhausted fields label) : lastNumber - 1 ≤ fields.length := by
  have length := (candidates_nodup (baseName label) (lastNumber - 2)).length_le_of_subset exhausted
  rw [candidates, List.length_cons, List.length_map, List.length_range, List.length_map] at length
  have : lastNumber - 2 + 1 = lastNumber - 1 := rfl
  omega

end Names

section Values

variable {fields : List Field} {label : String} {offset : Nat}

theorem caseNumber_eq {text : List Char} :
    caseNumber text =
      if caseNumber? text = some (-Numeral.minSigned) then .error .overflow
      else .ok (caseNumber? text) := by
  rw [caseNumber]
  split
  · next rest minus =>
    have negated : caseNumber? text = (magnitude? rest).map (-·) := by
      rw [caseNumber?, minus]
      rfl
    rw [negated]
    cases magnitude? rest with
    | none => rfl
    | some n =>
      by_cases least : n = Numeral.minSigned
      · subst least
        rfl
      · have other : ¬ some (-n) = some (-Numeral.minSigned) := fun same =>
          least (Int.neg_inj.mp (Option.some.inj same))
        simp only [negate, if_neg least, Option.map_some, if_neg other]
        rfl
  · next plain =>
    have unsigned : caseNumber? text = magnitude? (Text.trim text) := by
      unfold caseNumber?
      split
      · next rest minus => exact absurd minus (plain rest)
      · rfl
    have other : magnitude? (Text.trim text) ≠ some (-Numeral.minSigned) := by
      intro least
      have := (magnitude?_bounds least).2
      simp only [Numeral.minSigned, Numeral.maxSigned] at this
      omega
    rw [unsigned, if_neg other]
    rfl

theorem addCase_overflows (overflows : Overflows label) :
    addCase fields label offset = .error .overflow := by
  obtain ⟨name, text, split, number⟩ := overflows
  simp only [addCase, split, caseNumber_eq, if_pos number]
  rfl

theorem addCase_eq (room : ¬ Overflows label) :
    addCase fields label offset = sure (Tmpl.addCase fields label offset) := by
  unfold addCase Tmpl.addCase
  cases split : splitCase? label.toList with
  | none => rfl
  | some parts =>
    obtain ⟨name, text⟩ := parts
    have other : caseNumber? text ≠ some (-Numeral.minSigned) := fun least =>
      room ⟨name, text, split, least⟩
    simp only [caseNumber_eq, if_neg other, ok_bind]
    cases number : caseNumber? text with
    | none => rfl
    | some n =>
      have small : ¬ (Numeral.maxSigned : Int) < n := by
        have := caseNumber?_le number
        rw [number] at other
        simp only [ne_eq, Option.some.injEq, Numeral.minSigned] at other this
        simp only [Numeral.maxSigned]
        omega
      simp only [if_neg small]
      cases fields.getLast? with
      | none => rfl
      | some field =>
        cases field with
        | composite => rfl
        | group => rfl
        | scalar field type =>
          dsimp only
          cases type.intType? with
          | none => rfl
          | some base =>
            dsimp only
            cases caseValue? base n <;> rfl

end Values

inductive Exhausts (reading : Reading) (entry : Entry) : Prop where
  | field {named : String → Field} (free : reading.announced = none)
      (code : Directive.ofCode? entry.code = some (.field named))
      (exhausted : Exhausted reading.fields entry.label)
  | count {type : IntType} {zeroBased : Bool} (free : reading.announced = none)
      (code : Directive.ofCode? entry.code = some (.count type zeroBased))
      (exhausted : Exhausted reading.fields entry.label)
  | closeList {list : OpenList} {lists : List OpenList} (free : reading.announced = none)
      (code : Directive.ofCode? entry.code = some .closeList)
      (inside : reading.lists = list :: lists) (checked : Tmpl.check reading.fields = .ok ())
      (exhausted : Exhausted list.before list.label)

/-- The entry asks for a number that there is no room for. -/
def Faulty (reading : Reading) (entry : Entry) : Prop :=
  reading.Overflow entry ∨ Exhausts reading entry

section Steps

variable {reading : Reading} {entry : Entry} {label : String} {named : String → Field}

theorem push_eq (room : ¬ Exhausted reading.fields label) :
    push reading label named = .ok (reading.push label named) := by
  rw [push, fieldName_eq room]
  rfl

theorem push_of_exhausted (exhausted : Exhausted reading.fields label) :
    push reading label named = .error .overflow := by
  rw [push, fieldName_of_exhausted exhausted]
  rfl

theorem check_eq {fields : List Field} (level : Level fields) : check fields = sure (Tmpl.check fields) := by
  rw [check, Template.Pass.run_eq level.formed, Tmpl.check]
  cases Template.check fields <;> rfl

theorem step_of_faulty (sound : reading.Sound) (faulty : Faulty reading entry) :
    step reading entry = .error .overflow := by
  rcases faulty with ⟨free, code, overflows⟩ | exhausts
  · have known := code_nameValue.mpr code
    simp only [step, free, enter, known, addCase_overflows overflows]
    rfl
  · cases exhausts with
    | field free code exhausted =>
      simp only [step, free, enter, code]
      exact push_of_exhausted exhausted
    | count free code exhausted =>
      simp only [step, free, enter, code, fieldName_of_exhausted exhausted]
      rfl
    | closeList free code inside checked exhausted =>
      simp only [step, free, enter, code, closeList, inside, check_eq sound.innermost, checked]
      exact push_of_exhausted exhausted

/-- With room for its numbers, a step does in machine integers what it does in any. -/
theorem step_eq (sound : reading.Sound) (room : ¬ Faulty reading entry) :
    step reading entry = sure (reading.step entry) := by
  obtain ⟨unmeant, untaken⟩ := not_or.mp room
  unfold step
  cases free : reading.announced with
  | some => rfl
  | none =>
    simp only [Reading.step, free, enter]
    cases code : Directive.ofCode? entry.code with
    | none => simp only [Reading.enter, code]; rfl
    | some directive =>
      cases directive with
      | field named =>
        simp only [Reading.enter, code]
        exact push_eq fun exhausted => untaken (.field free code exhausted)
      | count type zeroBased =>
        simp only [Reading.enter, code]
        rw [fieldName_eq fun exhausted => untaken (.count free code exhausted)]
        rfl
      | closeList =>
        simp only [Reading.enter, code]
        unfold closeList Reading.closeList
        cases inside : reading.lists with
        | nil => rfl
        | cons list lists =>
          simp only [check_eq sound.innermost]
          cases checked : Tmpl.check reading.fields with
          | error => rfl
          | ok =>
            exact push_eq fun exhausted => untaken (.closeList free code inside checked exhausted)
      | nameValue =>
        simp only [Reading.enter, code]
        rw [addCase_eq fun overflows => unmeant ⟨free, code_nameValue.mp code, overflows⟩]
        cases Tmpl.addCase reading.fields entry.label entry.offset with
        | error => rfl
        | ok fields =>
          rw [free]
          rfl
      | fixedCount | openCounted | openList | divider => rfl

end Steps

def FaultyFrom (reading : Reading) (entries : List Entry) (entry : Entry) : Prop :=
  ∃ front back middle, entries = front ++ entry :: back ∧
    front.foldlM Reading.step reading = .ok middle ∧ Faulty middle entry

section Runs

variable {reading : Reading} {input : Input} {entry : Entry} {entries : List Entry}

theorem faultyFrom_cons {first : Entry} :
    FaultyFrom reading (first :: entries) entry ↔
      entry = first ∧ Faulty reading first ∨
        ∃ next, reading.step first = .ok next ∧ FaultyFrom next entries entry := by
  constructor
  · rintro ⟨front, back, middle, split, done, faulty⟩
    cases front with
    | nil =>
      obtain ⟨rfl, rfl⟩ := List.cons.inj split
      cases done
      exact .inl ⟨rfl, faulty⟩
    | cons head front =>
      obtain ⟨rfl, rfl⟩ := List.cons.inj split
      rw [List.foldlM_cons] at done
      obtain ⟨next, step, done⟩ := bind_eq_ok.mp done
      exact .inr ⟨next, step, front, back, middle, rfl, done, faulty⟩
  · rintro (⟨rfl, faulty⟩ | ⟨next, step, front, back, middle, rfl, done, faulty⟩)
    · exact ⟨[], entries, reading, rfl, rfl, faulty⟩
    · refine ⟨first :: front, back, middle, rfl, ?_, faulty⟩
      rw [List.foldlM_cons, step, ok_bind, done]

/-- All entries in turn, and then the fault at their end. -/
def taken (reading : Reading) (found : List Entry × Option TmplError) : Except TmplError Reading := do
  let last ← found.1.foldlM Reading.step reading
  match found.2 with
  | some error => throw error
  | none => return last

theorem run_end (ended : input.atEnd = true) : run reading input = .ok reading := by
  rw [run, if_pos ended]
  rfl

theorem run_error (more : ¬ input.atEnd = true) {fault : Fault} (failed : read input = .error fault) :
    run reading input = .error fault := by
  rw [run, if_neg more]
  split
  · next found =>
    rw [failed] at found
    cases found
    rfl
  · next found =>
    rw [failed] at found
    contradiction

theorem run_entry (more : ¬ input.atEnd = true) {rest : Input} (found : read input = .ok (entry, rest)) :
    run reading input = step reading entry >>= fun next => run next rest := by
  rw [run, if_neg more]
  split
  · next failed =>
    rw [found] at failed
    contradiction
  · next again =>
    rw [found] at again
    cases again
    rfl

/-- A run stops at the first entry that asks for a number there is no room for, if it gets there. -/
theorem run_cases (sound : reading.Sound) (fits : input.offset + input.remaining ≤ Numeral.maxWord) :
    ((∃ entry, FaultyFrom reading (Entry.scan input).1 entry) ∧
        run reading input = .error .overflow) ∨
      (∀ entry, ¬ FaultyFrom reading (Entry.scan input).1 entry) ∧
        run reading input = sure (taken reading (Entry.scan input)) := by
  have nowhere {reading : Reading} (entry : Entry) : ¬ FaultyFrom reading [] entry := by
    rintro ⟨front, back, middle, split, _⟩
    simp at split
  fun_induction Entry.scan input generalizing reading with
  | case1 input ended => exact .inr ⟨nowhere, run_end ended⟩
  | case2 input more error failed =>
    refine .inr ⟨nowhere, run_error more ?_⟩
    rw [read_eq fits, failed]
    rfl
  | case3 input more first rest found entries fault scan ih =>
    rw [scan] at ih
    have follow : run reading input = step reading first >>= fun next => run next rest :=
      run_entry more (by rw [read_eq fits, found]; rfl)
    rw [follow]
    by_cases faulty : Faulty reading first
    · refine .inl ⟨⟨first, faultyFrom_cons.mpr (.inl ⟨rfl, faulty⟩)⟩, ?_⟩
      rw [step_of_faulty sound faulty]
      rfl
    · rw [step_eq sound faulty]
      cases done : reading.step first with
      | error error =>
        refine .inr ⟨fun entry from_ => ?_, ?_⟩
        · rcases faultyFrom_cons.mp from_ with ⟨_, here⟩ | ⟨next, step, _⟩
          · exact faulty here
          · rw [done] at step
            contradiction
        · simp only [taken, List.foldlM_cons, done]
          rfl
      | ok next =>
        have before := place_of_read found
        have same : taken reading (first :: entries, fault) = taken next (entries, fault) := by
          simp only [taken, List.foldlM_cons, done, ok_bind]
        rw [sure_ok, ok_bind, same]
        rcases ih (sound.step (Reading.step_eq_ok.mp done)) (before ▸ fits) with
          ⟨⟨entry, later⟩, stopped⟩ | ⟨none, whole⟩
        · exact .inl ⟨⟨entry, faultyFrom_cons.mpr (.inr ⟨next, done, later⟩)⟩, stopped⟩
        · refine .inr ⟨fun entry from_ => ?_, whole⟩
          rcases faultyFrom_cons.mp from_ with ⟨_, here⟩ | ⟨other, step, later⟩
          · exact faulty here
          · obtain rfl := Except.ok.inj (done.symm.trans step)
            exact none entry later

end Runs

section Sizes

variable {reading last : Reading} {entries : List Entry}

/-- Every entry takes up five bytes or more. -/
theorem length_scan (input : Input) : 5 * (Entry.scan input).1.length ≤ input.remaining := by
  fun_induction Entry.scan input with
  | case1 | case2 => exact Nat.zero_le _
  | case3 input more first rest found entries fault scan ih =>
    rw [scan] at ih
    obtain ⟨label, code, four, same, _, _⟩ := read_eq_ok.mp found
    have length := congrArg List.length same
    simp only [List.length_append, Label.pascal, List.length_cons, four] at length
    simp only [List.length_cons, Input.remaining] at *
    omega

/-- A list is new, or it has one field more than a list before, at most. -/
theorem length_step {next : Reading} {entry : Entry} (takes : reading.Takes entry next) :
    ∀ fields ∈ next.levels, fields = [] ∨
      ∃ other ∈ reading.levels, fields.length ≤ other.length + 1 := by
  obtain ⟨fields, lists, announced⟩ := reading
  have kept (field : Field) {lists : List OpenList} {announced : Option Announced} {level : List Field}
      (member : level ∈ Reading.levels ⟨fields ++ [field], lists, announced⟩) :
      ∃ other ∈ Reading.levels ⟨fields, lists, announced⟩, level.length ≤ other.length + 1 := by
    rcases List.mem_cons.mp member with rfl | member
    · exact ⟨fields, List.mem_cons_self .., by simp⟩
    · exact ⟨level, List.mem_cons_of_mem _ member, Nat.le_succ _⟩
  intro level member
  cases takes with
  | openCounted | openList =>
    rcases List.mem_cons.mp member with rfl | member
    · exact .inl rfl
    · exact .inr ⟨level, member, Nat.le_succ _⟩
  | field | count => exact .inr (kept _ member)
  | fixedCount | divider => exact .inr ⟨level, member, Nat.le_succ _⟩
  | @closeList list lists free code inside checked =>
    subst inside
    rcases List.mem_cons.mp member with rfl | member
    · exact .inr ⟨list.before, by simp [Reading.levels], by simp [Reading.push]⟩
    · exact .inr ⟨level, by simp [Reading.levels] at member ⊢; exact .inr (.inr member), Nat.le_succ _⟩
  | nameValue free code added =>
    obtain ⟨front, name, type, base, value, rfl, _, _, rfl⟩ := addCase_eq_ok.mp added
    rcases List.mem_cons.mp member with rfl | member
    · exact .inr ⟨_, List.mem_cons_self .., by simp⟩
    · exact .inr ⟨level, List.mem_cons_of_mem _ member, Nat.le_succ _⟩

/-- Every entry adds one field at most. -/
theorem length_levels (done : entries.foldlM Reading.step reading = .ok last) {size : Nat}
    (small : ∀ fields ∈ reading.levels, fields.length ≤ size) :
    ∀ fields ∈ last.levels, fields.length ≤ size + entries.length := by
  induction entries generalizing reading size with
  | nil =>
    cases done
    exact small
  | cons entry entries ih =>
    rw [List.foldlM_cons] at done
    obtain ⟨next, first, done⟩ := bind_eq_ok.mp done
    have grown : ∀ fields ∈ next.levels, fields.length ≤ size + 1 := by
      intro fields member
      rcases length_step (Reading.step_eq_ok.mp first) fields member with rfl | ⟨other, before, longer⟩
      · exact Nat.zero_le _
      · have := small other before
        omega
    intro fields member
    have := ih done grown fields member
    rw [List.length_cons]
    omega

theorem Exhausts.length_le {entry : Entry} (exhausts : Exhausts reading entry) :
    ∃ fields ∈ reading.levels, lastNumber - 1 ≤ fields.length := by
  cases exhausts with
  | field _ _ exhausted | count _ _ exhausted =>
    exact ⟨reading.fields, List.mem_cons_self .., exhausted.length_le⟩
  | @closeList list lists _ _ inside _ exhausted =>
    exact ⟨list.before, by simp [Reading.levels, inside], exhausted.length_le⟩

/-- Only a resource of more than ten billion bytes can use up the numbers of a name. -/
theorem overflows_of_faulty {data : Bytes} (small : data.length < 5 * lastNumber) {entry : Entry} :
    FaultyFrom .start (Entry.scan ⟨0, data⟩).1 entry ↔ OverflowsAt data entry := by
  constructor
  · rintro ⟨front, back, middle, split, done, overflow | exhausts⟩
    · exact ⟨front, back, middle, split, done, overflow⟩
    · obtain ⟨fields, member, many⟩ := exhausts.length_le
      have begun : ∀ fields ∈ Reading.start.levels, fields.length ≤ 0 := by
        simp [Reading.levels, Reading.start]
      have few := length_levels done begun fields member
      have enough := length_scan ⟨0, data⟩
      rw [split, List.length_append, List.length_cons] at enough
      simp only [Input.remaining] at enough
      omega
  · rintro ⟨front, back, middle, split, done, overflow⟩
    exact ⟨front, back, middle, split, done, .inl overflow⟩

end Sizes

theorem fields_eq_taken (data : Bytes) :
    Tmpl.fields data = taken .start (Entry.scan ⟨0, data⟩) >>= Reading.finish := by
  unfold Tmpl.fields taken
  generalize Entry.scan ⟨0, data⟩ = found
  obtain ⟨entries, fault⟩ := found
  dsimp only
  cases entries.foldlM Reading.step .start with
  | error => rfl
  | ok last => cases fault <;> rfl

/-- The whole load, in machine integers and in any. -/
theorem load_cases {data : Bytes} (fits : data.length ≤ Numeral.maxWord) :
    ((∃ entry, FaultyFrom .start (Entry.scan ⟨0, data⟩).1 entry) ∧ load data = .error .overflow) ∨
      (∀ entry, ¬ FaultyFrom .start (Entry.scan ⟨0, data⟩).1 entry) ∧
        load data = sure (Template.ofTmpl data) := by
  have fits : (⟨0, data⟩ : Input).offset + (⟨0, data⟩ : Input).remaining ≤ Numeral.maxWord := by
    simpa [Input.remaining] using fits
  unfold load
  rcases run_cases Reading.sound_start fits with ⟨faulty, stopped⟩ | ⟨none, whole⟩
  · refine .inl ⟨faulty, ?_⟩
    rw [stopped]
    rfl
  · refine .inr ⟨none, ?_⟩
    rw [whole, ← bind_assoc, ← sure_bind, ← fields_eq_taken, Template.ofTmpl, sure_bind]
    cases loaded : Tmpl.fields data with
    | error => rfl
    | ok found =>
      rw [sure_ok, ok_bind, ok_bind, sure_bind, check_eq (level_of_fields loaded)]
      rfl

end Machine
end ResourceTemplate.Tmpl

namespace ResourceTemplate.Template

open Tmpl

/-- In machine integers a resource is loaded as in any, but for two kinds of entries. One names a value
by the opposite of the smallest number. The other asks for a name that has been used so often that its
next number has no room, which takes more than ten billion bytes. There the load stops, and so it
gives a template or an error that tells what is wrong with the resource everywhere else. -/
theorem load_checked {data : Bytes} (fits : data.length ≤ Numeral.maxWord) :
    (Machine.load data = .error .overflow ↔
      ∃ entry, Machine.FaultyFrom .start (Entry.scan ⟨0, data⟩).1 entry) ∧
    (Machine.load data ≠ .error .overflow →
      Machine.load data = sure (ofTmpl data) ∧
        ∀ error, ofTmpl data = .error error → error.Documented) ∧
    (data.length < 5 * Machine.lastNumber →
      (Machine.load data = .error .overflow ↔ ∃ entry, OverflowsAt data entry)) := by
  have stops : Machine.load data = .error .overflow ↔
      ∃ entry, Machine.FaultyFrom .start (Entry.scan ⟨0, data⟩).1 entry := by
    rcases Machine.load_cases fits with ⟨faulty, stopped⟩ | ⟨none, whole⟩
    · exact ⟨fun _ => faulty, fun _ => stopped⟩
    · rw [whole]
      refine ⟨fun stopped => absurd stopped (sure_ne_overflow _), ?_⟩
      rintro ⟨entry, faulty⟩
      exact absurd faulty (none entry)
  refine ⟨stops, fun goes => ?_, fun small => ?_⟩
  · rcases Machine.load_cases fits with ⟨_, stopped⟩ | ⟨none, whole⟩
    · exact absurd stopped goes
    · refine ⟨whole, fun error failed => ?_⟩
      rcases (ofTmpl_fails data).among error failed with documented | ⟨entry, overflows, _⟩
      · exact documented
      · obtain ⟨front, back, reading, split, done, overflow⟩ := overflows
        exact absurd ⟨front, back, reading, split, done, .inl overflow⟩ (none entry)
  · rw [stops]
    exact exists_congr fun _ => Machine.overflows_of_faulty small

/-- The second entry names minus one, and no number is without room. -/
theorem load_checked_sample : ∃ data template, data.length ≤ Numeral.maxWord ∧
    data.length < 5 * Machine.lastNumber ∧ ofTmpl data = .ok template ∧
      Machine.load data = .ok template := by
  let data : Bytes := [1, 118, 68, 66, 89, 84, 4] ++ Utf8.encode "x=-1CASE".toList
  have fits : data.length ≤ Numeral.maxWord := by decide +kernel
  have small : data.length < 5 * Machine.lastNumber := by decide +kernel
  have accepted : ofTmpl data = .ok [.scalar "v" (.enumeration ⟨true, .byte⟩ ⟨[⟨-1, "x"⟩], false⟩)] := by
    decide +kernel
  obtain ⟨_, whole, stops⟩ := load_checked fits
  have goes : Machine.load data ≠ .error .overflow := by
    intro stopped
    obtain ⟨entry, overflows⟩ := (stops small).mp stopped
    have failed := fields_of_overflowsAt overflows
    rw [(ofTmpl_eq_ok.mp accepted).1] at failed
    contradiction
  obtain ⟨same, _⟩ := whole goes
  exact ⟨data, _, fits, small, accepted, by rw [same, accepted, sure_ok]⟩

/-- The second entry names a value by the opposite of the smallest number. -/
theorem load_overflows :
    Machine.load ([1, 118, 68, 66, 89, 84, 23] ++
      Utf8.encode "x=--9223372036854775808CASE".toList) = .error .overflow := by
  generalize same : [1, 118, 68, 66, 89, 84, 23] ++
    Utf8.encode "x=--9223372036854775808CASE".toList = data
  have refused : Tmpl.fields data = .error (.caseOverflow 6) := by
    subst same
    decide +kernel
  have fits : data.length ≤ Numeral.maxWord := by
    subst same
    decide +kernel
  rcases Machine.load_cases fits with ⟨_, stopped⟩ | ⟨none, _⟩
  · exact stopped
  · rcases (fields_fails data).among _ refused with documented | ⟨entry, overflows, _⟩
    · cases documented
    · obtain ⟨front, back, reading, split, done, overflow⟩ := overflows
      exact absurd ⟨front, back, reading, split, done, .inl overflow⟩ (none entry)

end ResourceTemplate.Template
