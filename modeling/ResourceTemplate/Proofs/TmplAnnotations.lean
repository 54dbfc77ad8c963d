import ResourceTemplate.Proofs.TmplErrors
import ResourceTemplate.Proofs.UnlabelledEdits

/-! Entries that say nothing about the data. Some name the values of the field before them, and some
divide the fields for an editor. A resource without them describes the same template without labels:
it reads the same data to the same tree, and edits of it have the same outcomes. -/
namespace ResourceTemplate

namespace Tmpl

/-- The entry names a value, or it divides the fields. -/
def Entry.Annotates (entry : Entry) : Prop := entry.code = "CASE" ∨ entry.code = "DVDR"

instance : DecidablePred Entry.Annotates := fun entry =>
  inferInstanceAs (Decidable (entry.code = "CASE" ∨ entry.code = "DVDR"))

/-- The bytes without such entries. Bytes at the end that are no entry stay. -/
def unannotated (input : Input) : Bytes :=
  match _found : Entry.read input with
  | .error _ => input.bytes
  | .ok (entry, rest) =>
    if entry.Annotates then unannotated rest
    else input.bytes.take (input.remaining - rest.remaining) ++ unannotated rest
termination_by input.remaining
decreasing_by all_goals exact Entry.read_remaining _found

structure Entry.SameText (entry other : Entry) : Prop where
  label : other.label = entry.label
  code : other.code = entry.code

theorem unannotated_nil (offset : Nat) : unannotated ⟨offset, []⟩ = [] := by
  rw [unannotated]
  split
  · rfl
  · next found => exact absurd (Entry.read_remaining found) (by simp [Input.remaining])

theorem unannotated_entry (label : Label) {code : Bytes} (four : code.length = 4) (offset : Nat)
    (rest : Bytes) :
    unannotated ⟨offset, label.pascal ++ (code ++ rest)⟩ =
      (if Entry.Annotates ⟨offset, label.text, String.ofList (Utf8.decodeLossy code)⟩ then []
        else label.pascal ++ code) ++ unannotated ⟨offset + label.bytes.length + 5, rest⟩ := by
  have found : Entry.read ⟨offset, label.pascal ++ (code ++ rest)⟩ =
      .ok (⟨offset, label.text, String.ofList (Utf8.decodeLossy code)⟩,
        ⟨offset + label.bytes.length + 5, rest⟩) :=
    read_eq_ok.mpr ⟨label, code, four, rfl, rfl, rfl⟩
  rw [unannotated]
  split
  · next failed =>
    rw [found] at failed
    contradiction
  · next read =>
    rw [found] at read
    cases read
    split
    · rfl
    · rw [← List.append_assoc, Input.remaining, Input.remaining, List.length_append,
        Nat.add_sub_cancel, List.take_left]

/-- What is left are the other entries, in their order. -/
theorem Stand.unannotated {offset : Nat} {bytes : Bytes} {entries : List Entry}
    (stand : Stand offset bytes entries) (place : Nat) :
    ∃ kept, Stand place (unannotated ⟨offset, bytes⟩) kept ∧
      List.Forall₂ Entry.SameText (entries.filter (¬ ·.Annotates)) kept := by
  induction stand generalizing place with
  | done offset =>
    rw [unannotated_nil]
    exact ⟨[], .done place, .nil⟩
  | entry label four follow ih =>
    rw [unannotated_entry label four]
    split
    · next annotates =>
      rw [List.filter_cons_of_neg (by simpa using annotates)]
      exact ih place
    · next stays =>
      obtain ⟨kept, left, text⟩ := ih (place + label.bytes.length + 5)
      rw [List.filter_cons_of_pos (by simpa using stays), List.append_assoc]
      exact ⟨_, .entry label four left, .cons ⟨rfl, rfl⟩ text⟩

section Steps

variable {fields : List Field}

theorem ScalarType.unlabelled_withEntry {type : ScalarType} {base : IntType}
    (integer : type.intType? = some base) (entry : EnumEntry) :
    (withEntry base entry type).unlabelled = type.unlabelled := by
  cases type with
  | int | enumeration =>
    obtain rfl := Option.some.inj integer
    rfl
  | fixedString | pascalString | boolean => nomatch integer

/-- Naming a value makes an integer an enumeration, or an enumeration one with another label. -/
theorem unlabelledAll_addCase {named : List Field} {label : String} {offset : Nat}
    (added : addCase fields label offset = .ok named) :
    Field.unlabelledAll named = Field.unlabelledAll fields := by
  obtain ⟨front, name, type, base, entry, rfl, integer, _, rfl⟩ := addCase_eq_ok.mp added
  simp [Field.unlabelledAll_eq, Field.unlabelled, ScalarType.unlabelled_withEntry integer]

theorem fieldName_unlabelled (fields : List Field) (label : String) :
    fieldName (Field.unlabelledAll fields) label = fieldName fields label := by
  simp [fieldName, Field.unlabelledAll_eq, Function.comp_def]

def Directive.Unlabelled : Directive → Prop
  | .field named => ∀ name, (named name).unlabelled = named name
  | _ => True

theorem table_unlabelled : ∀ entry ∈ table, entry.2.Unlabelled := by
  simp [table, intCodes, countCodes, otherCodes, bytesToEnd, Directive.Unlabelled, Template.rect,
    Template.point, Field.unlabelled, Field.unlabelledAll, ScalarType.unlabelled]

theorem unlabelled_of_code {code : String} {named : String → Field}
    (known : Directive.ofCode? code = some (.field named)) (name : String) :
    (named name).unlabelled = named name :=
  Directive.of_code table_unlabelled (fun _ _ => rfl) known name

theorem code_divider {code : String} :
    Directive.ofCode? code = some .divider ↔ code = "DVDR" := by
  constructor
  · intro known
    simpa [table, intCodes, countCodes, otherCodes] using listed_of_code known (by simp)
  · rintro rfl
    rfl

structure OpenList.Mirrors (list other : OpenList) : Prop where
  before : other.before = Field.unlabelledAll list.before
  label : other.label = list.label
  repetition : other.repetition = list.repetition

namespace Reading

/-- The reading has come to the unlabelled fields, at every level, and waits for the same list. -/
structure Mirrors (reading other : Reading) : Prop where
  fields : other.fields = Field.unlabelledAll reading.fields
  lists : List.Forall₂ OpenList.Mirrors reading.lists other.lists
  announced : other.announced.map Announced.repetition = reading.announced.map Announced.repetition

variable {reading other next : Reading} {entry kept : Entry}

theorem Mirrors.free (mirrors : reading.Mirrors other) (free : reading.announced = none) :
    other.announced = none := by
  simpa [free] using mirrors.announced

theorem Mirrors.push (mirrors : reading.Mirrors other) {label again : String} (same : again = label)
    {named unlabelled : String → Field} (made : ∀ name, unlabelled name = (named name).unlabelled) :
    (reading.push label named).Mirrors (other.push again unlabelled) := by
  refine ⟨?_, mirrors.lists, mirrors.announced⟩
  simp only [Reading.push]
  rw [same, mirrors.fields, fieldName_unlabelled, made, Field.unlabelledAll_append]
  rfl

theorem Mirrors.openList (mirrors : reading.Mirrors other) {label again : String}
    (same : again = label) (repetition : Repetition) (offset place : Nat) :
    (reading.openList label repetition offset).Mirrors (other.openList again repetition place) :=
  ⟨rfl, .cons ⟨mirrors.fields, same, rfl⟩ mirrors.lists, rfl⟩

/-- An entry of another kind is in its place in both readings and keeps them side by side. -/
theorem Mirrors.takes (mirrors : reading.Mirrors other) (takes : reading.Takes entry next)
    (text : entry.SameText kept) (stays : ¬ entry.Annotates) :
    ∃ again, other.Takes kept again ∧ next.Mirrors again := by
  obtain ⟨label, coded⟩ := text
  cases takes with
  | @openCounted announced waiting code =>
    obtain ⟨found, waits, same⟩ : ∃ found, other.announced = some found ∧
        found.repetition = announced.repetition := by
      simpa [waiting] using mirrors.announced
    exact ⟨_, .openCounted waits (coded.trans code), same ▸ mirrors.openList label _ _ _⟩
  | field free code =>
    refine ⟨_, .field (mirrors.free free) (coded ▸ code), mirrors.push label fun name => ?_⟩
    exact (unlabelled_of_code code name).symm
  | @count type zeroBased free code =>
    refine ⟨_, .count (mirrors.free free) (coded ▸ code), ?_⟩
    have pushed : (reading.push entry.label (.scalar · (.int type))).Mirrors
        (other.push kept.label (.scalar · (.int type))) := mirrors.push label fun _ => rfl
    obtain ⟨fields, lists, _⟩ := pushed
    refine ⟨fields, lists, ?_⟩
    simp [label, mirrors.fields, fieldName_unlabelled]
  | fixedCount free code holds =>
    exact ⟨_, .fixedCount (mirrors.free free) (coded ▸ code) (label ▸ holds),
      mirrors.fields, mirrors.lists, rfl⟩
  | openList free code =>
    exact ⟨_, .openList (mirrors.free free) (coded ▸ code), mirrors.openList label _ _ _⟩
  | @closeList list outer free code inside checked =>
    have lists := mirrors.lists
    rw [inside] at lists
    obtain ⟨again, others, head, tail, found⟩ := List.forall₂_cons_left_iff.mp lists
    have checked : check other.fields = .ok () := by
      rw [check_eq_ok, mirrors.fields, Template.check_unlabelled]
      exact check_eq_ok.mp checked
    have before : Mirrors ⟨list.before, outer, none⟩ ⟨again.before, others, none⟩ :=
      ⟨head.before, tail, rfl⟩
    refine ⟨_, .closeList (mirrors.free free) (coded ▸ code) found checked,
      before.push head.label fun name => ?_⟩
    rw [head.repetition, mirrors.fields]
    rfl
  | nameValue _ code => exact absurd (.inl (code_nameValue.mp code)) stays
  | divider _ code => exact absurd (.inr (code_divider.mp code)) stays

/-- The other reading stays where it is while values are named and fields divided. -/
theorem Mirrors.annotation (mirrors : reading.Mirrors other) (takes : reading.Takes entry next)
    (annotates : entry.Annotates) : next.Mirrors other := by
  have known : Directive.ofCode? entry.code = some .nameValue ∨
      Directive.ofCode? entry.code = some .divider :=
    annotates.imp code_nameValue.mpr code_divider.mpr
  cases takes with
  | openCounted _ code =>
    rw [Entry.Annotates, code] at annotates
    simp at annotates
  | nameValue free _ named =>
    exact ⟨mirrors.fields.trans (unlabelledAll_addCase named).symm, mirrors.lists, mirrors.announced⟩
  | divider => exact mirrors
  | field _ code | count _ code | fixedCount _ code | openList _ code | closeList _ code =>
    rw [code] at known
    rcases known with same | same <;> nomatch same

/-- The other entries alone lead to the unlabelled fields. -/
theorem Mirrors.run (mirrors : reading.Mirrors other) {entries others : List Entry}
    (text : List.Forall₂ Entry.SameText (entries.filter (¬ ·.Annotates)) others)
    (done : entries.foldlM step reading = .ok next) :
    ∃ last, others.foldlM step other = .ok last ∧ next.Mirrors last := by
  induction entries generalizing reading other others with
  | nil =>
    cases text
    cases done
    exact ⟨other, rfl, mirrors⟩
  | cons entry entries ih =>
    rw [List.foldlM_cons] at done
    obtain ⟨middle, first, done⟩ := bind_eq_ok.mp done
    have takes := step_eq_ok.mp first
    by_cases annotates : entry.Annotates
    · rw [List.filter_cons_of_neg (by simpa using annotates)] at text
      exact ih (mirrors.annotation takes annotates) text done
    · rw [List.filter_cons_of_pos (by simpa using annotates)] at text
      cases text with
      | cons head tail =>
        obtain ⟨again, beside, mirrors⟩ := mirrors.takes takes head annotates
        obtain ⟨last, run, mirrors⟩ := ih mirrors tail done
        refine ⟨last, ?_, mirrors⟩
        rw [List.foldlM_cons, step_eq_ok.mpr beside]
        exact run

end Reading
end Steps

theorem fields_unannotated {data : Bytes} {found : List Field} (loaded : fields data = .ok found) :
    fields (unannotated ⟨0, data⟩) = .ok (Field.unlabelledAll found) := by
  obtain ⟨entries, stand, done⟩ := fields_eq_ok.mp loaded
  obtain ⟨kept, left, text⟩ := stand.unannotated 0
  have start : Reading.start.Mirrors .start := ⟨rfl, .nil, rfl⟩
  obtain ⟨⟨others, lists, announced⟩, run, mirrors⟩ := start.run text done
  obtain rfl : others = Field.unlabelledAll found := mirrors.fields
  cases mirrors.lists
  obtain rfl : announced = none := by simpa using mirrors.announced
  exact fields_eq_ok.mpr ⟨kept, left, run⟩

end Tmpl

namespace Template

open Tmpl

/-- Entries that name values or divide fields are for the reader alone. A resource is accepted without
them. Then the same data is refused with the same error or read to the same tree, but for labels and
for the tags of enumerations, and this stays so whatever values are set and whatever items are inserted
or removed: each of these calls fails on both sides or on none, where an error may name another type,
and the same bytes are written, if any. -/
theorem ofTmpl_unannotated {data : Bytes} {template : Template}
    (accepted : ofTmpl data = .ok template) :
    ofTmpl (unannotated ⟨0, data⟩) = .ok template.unlabelled ∧
      ∀ settings bytes,
        Agree Eq Record.Alike (Record.decode template settings bytes)
          (Record.decode template.unlabelled settings bytes) ∧
        ∀ record other, Record.decode template settings bytes = .ok record →
          Record.decode template.unlabelled settings bytes = .ok other →
          ∀ asked edits, (∀ edit ∈ edits, edit.Textless) →
            (other.attempts asked edits).encode = (record.attempts asked edits).encode ∧
            ∀ edit, edit.Textless →
              Agree CodecError.Alike (fun done again => again.1 = done.1 ∧ done.2.Alike again.2)
                ((record.attempts asked edits).apply asked edit)
                ((other.attempts asked edits).apply asked edit) := by
  obtain ⟨loaded, checked⟩ := ofTmpl_eq_ok.mp accepted
  have formed : template.WellFormed := ⟨checked, (level_of_fields loaded).formed⟩
  refine ⟨ofTmpl_eq_ok.mpr ⟨fields_unannotated loaded, ?_⟩, fun settings bytes => ⟨?_, ?_⟩⟩
  · exact (check_unlabelled template).trans checked
  · refine (Record.decode_unlabelled template settings bytes).imp (fun _ _ same => same) ?_
    rintro record _ read rfl
    have reachable : Record.Reachable template settings record := .decoded read
    exact Record.unlabelled_alike (reachable.laid formed).2.shaped
  · intro record other read again asked edits textless
    have decoded := Record.decode_unlabelled template settings bytes
    rw [read, again] at decoded
    cases decoded with
    | ok same =>
      subst same
      obtain ⟨reachable, beside⟩ :=
        (Record.Reachable.decoded read).attempts_unlabelled formed asked textless
      obtain ⟨same, laid⟩ := reachable.laid formed
      rw [beside]
      refine ⟨Record.encode_unlabelled laid.shaped, fun edit textless => ?_⟩
      refine (Record.apply_unlabelled laid.shaped asked textless).imp (fun _ _ alike => alike) ?_
      rintro ⟨event, result⟩ _ done rfl
      obtain ⟨_, _, after⟩ := Record.laid_of_apply (same ▸ formed) laid done
      exact ⟨rfl, Record.unlabelled_alike after.shaped⟩

/-- A value that was named by two entries, in the list and before it, is an integer without them. -/
theorem ofTmpl_unannotated_sample :
    ∃ (data : Bytes) (template : Template) (record other : Record),
      ofTmpl data = .ok template ∧ template.unlabelled ≠ template ∧
      ofTmpl (unannotated ⟨0, data⟩) = .ok template.unlabelled ∧
      Record.decode template {} [1, 0, 1, 1, 9] = .ok record ∧
      Record.decode template.unlabelled {} [1, 0, 1, 1, 9] = .ok other ∧ record.Alike other ∧
      (other.attempts {} [.setValue [.name "k"] (.int 0), .insertItem [.name "k 3"] 1]).encode =
        .ok [0, 0, 2, 1, 0, 9] ∧
      ∃ error, (other.attempts {} [.setValue [.name "k"] (.int 0), .insertItem [.name "k 3"] 1]).apply
          {} (.setValue [.name "k"] (.bool true)) = .error error ∧
        (CodecError.refused [.name "k"] (.wrongKind .enumeration "boolean")).Alike error := by
  let plain : Label := ⟨[107], by decide⟩
  let naming : Label := ⟨[111, 110, 61, 49], by decide⟩
  let named : ScalarType := .enumeration ⟨true, .byte⟩ ⟨[⟨1, "on"⟩], false⟩
  let template : Template := [.scalar "k" named, .scalar "k 2" (.int ⟨false, .word⟩),
    .group "k 3" [.scalar "k" named] (.counted "k 2" false) none]
  let edits : List Edit := [.setValue [.name "k"] (.int 0), .insertItem [.name "k 3"] 1]
  have accepted : ofTmpl (plain.entry "DBYT" ++ naming.entry "CASE" ++ plain.entry "DVDR" ++
      plain.entry "OCNT" ++ plain.entry "LSTC" ++ plain.entry "DBYT" ++ naming.entry "CASE" ++
      plain.entry "LSTE") = .ok template := by
    decide +kernel
  have textless : ∀ edit ∈ edits, edit.Textless := by simp [edits, Edit.Textless]
  obtain ⟨record, decoded, encoded, refused⟩ : ∃ record,
      Record.decode template {} [1, 0, 1, 1, 9] = .ok record ∧
        (record.attempts {} edits).encode = .ok [0, 0, 2, 1, 0, 9] ∧
        (record.attempts {} edits).apply {} (.setValue [.name "k"] (.bool true)) =
          .error (.refused [.name "k"] (.wrongKind .enumeration "boolean")) :=
    ⟨_, by cbv, by cbv, by cbv⟩
  obtain ⟨other, again⟩ : ∃ other,
      Record.decode template.unlabelled {} [1, 0, 1, 1, 9] = .ok other := ⟨_, by cbv⟩
  obtain ⟨plainly, alike⟩ := ofTmpl_unannotated accepted
  obtain ⟨reads, runs⟩ := alike {} [1, 0, 1, 1, 9]
  obtain ⟨written, tried⟩ := runs record other decoded again {} edits textless
  refine ⟨_, template, record, other, accepted, by decide, plainly, decoded, again, ?_,
    written.trans encoded, ?_⟩
  · rw [decoded, again] at reads
    cases reads with
    | ok alike => exact alike
  · have outcome := tried (.setValue [.name "k"] (.bool true)) trivial
    rw [refused] at outcome
    generalize (other.attempts {} edits).apply {} (.setValue [.name "k"] (.bool true)) = last at outcome
    cases outcome with
    | error alike => exact ⟨_, rfl, alike⟩

end Template
end ResourceTemplate
