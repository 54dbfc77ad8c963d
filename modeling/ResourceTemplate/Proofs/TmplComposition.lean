import ResourceTemplate.Proofs.JoinedTemplates
import ResourceTemplate.Proofs.TmplSurroundings

/-! How `TMPL` resources are put together. One after the other they make the fields of both, and
between the markers of a list they make the fields of its items. -/
namespace ResourceTemplate

namespace Tmpl

def checked (fields : List Field) : Except TmplError Template := do
  check fields
  return fields

theorem check_eq_ok {fields : List Field} : check fields = .ok () ↔ Template.check fields = .ok () := by
  unfold check
  cases Template.check fields <;> simp

theorem ofTmpl_eq_ok {data : Bytes} {template : Template} :
    Template.ofTmpl data = .ok template ↔
      fields data = .ok template ∧ Template.check template = .ok () := by
  unfold Template.ofTmpl
  rw [bind_eq_ok]
  simp only [unit_bind_eq_ok, check_eq_ok, pure_eq_ok]
  constructor
  · rintro ⟨found, loaded, ok, rfl⟩
    exact ⟨loaded, ok⟩
  · rintro ⟨loaded, ok⟩
    exact ⟨template, loaded, ok, rfl⟩

theorem ofTmpl_of_fields {data : Bytes} {found : List Field} (loaded : fields data = .ok found) :
    Template.ofTmpl data = checked found := by
  rw [Template.ofTmpl, loaded, ok_bind]
  rfl

theorem fields_append {a b : Bytes} {first second : List Field} (loaded : fields a = .ok first)
    (follow : fields b = .ok second)
    (apart : ∀ name ∈ first.map Field.name, name ∉ second.map Field.name) :
    fields (a ++ b) = .ok (first ++ second) := by
  obtain ⟨entries, stand, done⟩ := fields_eq_ok.mp loaded
  obtain ⟨others, further, going⟩ := fields_eq_ok.mp follow
  -- Nothing is left open by the first part, so the second only finds fields before its own.
  let surroundings : Surroundings := ⟨first, [], a.length⟩
  have fresh : surroundings.Fresh ⟨second, [], none⟩ := fun name there here => apart name here there
  have after := Surroundings.run going fresh
  have start : surroundings.reading .start = ⟨first, [], none⟩ := by
    simp [surroundings, Surroundings.reading, Surroundings.level, Surroundings.lists, Reading.start]
  rw [start] at after
  apply fields_eq_ok.mpr
  refine ⟨entries ++ others.map (Entry.moved a.length), stand.append ?_, ?_⟩
  · simpa using further.moved a.length
  · rw [List.foldlM_append, done, ok_bind]
    exact after

/-- Entries that open a list, the fields of its items, and the closing marker. -/
theorem fields_enclosed {opening a : Bytes} {entries : List Entry} {list : OpenList}
    {template : Template} (stand : Stand 0 opening entries)
    (opens : entries.foldlM Reading.step .start = .ok ⟨[], [list], none⟩)
    (accepted : Template.ofTmpl a = .ok template) (closing : Label) :
    fields (opening ++ a ++ closing.entry "LSTE") =
      .ok (list.before ++
        [.group (fieldName list.before list.label) template list.repetition none]) := by
  obtain ⟨loaded, ok⟩ := ofTmpl_eq_ok.mp accepted
  obtain ⟨others, further, done⟩ := fields_eq_ok.mp loaded
  -- A list starts with no fields, so that no name of an item can be taken.
  let surroundings : Surroundings := ⟨[], [list], opening.length⟩
  have fresh : surroundings.Fresh ⟨template, [], none⟩ := fun name _ here => nomatch here
  have inside := Surroundings.run done fresh
  have moved : Stand (0 + opening.length) a (others.map (Entry.moved opening.length)) := by
    simpa using further.moved opening.length
  have last : Stand (0 + (opening ++ a).length) (closing.entry "LSTE")
      [⟨0 + (opening ++ a).length, closing.text, "LSTE"⟩] := closing.stand_entry (by decide) _
  have closes : Reading.step ⟨template, [list], none⟩
      ⟨0 + (opening ++ a).length, closing.text, "LSTE"⟩ =
        .ok (Reading.push ⟨list.before, [], none⟩ list.label
          (.group · template list.repetition none)) :=
    Reading.step_eq_ok.mpr (.closeList rfl rfl rfl (check_eq_ok.mpr ok))
  apply fields_eq_ok.mpr
  refine ⟨_, (stand.append moved).append last, ?_⟩
  have begun : surroundings.reading .start = ⟨[], [list], none⟩ := rfl
  have ended : surroundings.reading ⟨template, [], none⟩ = ⟨template, [list], none⟩ := rfl
  rw [begun, ended] at inside
  rw [List.foldlM_append, List.foldlM_append, opens, ok_bind, inside, ok_bind, List.foldlM_cons, closes]
  rfl

/-- A list without a count. -/
theorem fields_listed {a : Bytes} {template : Template} (accepted : Template.ofTmpl a = .ok template)
    {code : String} {repetition : Repetition} (known : code ∈ table.map Prod.fst)
    (opens : Directive.ofCode? code = some (.openList repetition)) (label closing : Label) :
    fields (label.entry code ++ a ++ closing.entry "LSTE") =
      .ok [.group (baseName label.text) template repetition none] := by
  have opened : [(⟨0, label.text, code⟩ : Entry)].foldlM Reading.step .start =
      .ok ⟨[], [⟨[], label.text, repetition, 0⟩], none⟩ := by
    have step := Reading.step_eq_ok.mpr (.openList rfl opens : Reading.start.Takes ⟨0, label.text, code⟩ _)
    rw [List.foldlM_cons, step]
    rfl
  have enclosed := fields_enclosed (label.stand_entry known 0) opened accepted closing
  rwa [fieldName_nil] at enclosed

/-- A list after the entry that announces how many items it has. -/
theorem fields_announced {a : Bytes} {template : Template}
    (accepted : Template.ofTmpl a = .ok template) {counter : Label} {code : String}
    {before : List Field} {announced : Announced} (known : code ∈ table.map Prod.fst)
    (counts : Reading.start.Takes ⟨0, counter.text, code⟩ ⟨before, [], some announced⟩)
    (label closing : Label) :
    fields (counter.entry code ++ label.entry "LSTC" ++ a ++ closing.entry "LSTE") =
      .ok (before ++ [.group (fieldName before label.text) template announced.repetition none]) := by
  let follow : Entry := ⟨0 + (counter.entry code).length, label.text, "LSTC"⟩
  have stand : Stand 0 (counter.entry code ++ label.entry "LSTC") [⟨0, counter.text, code⟩, follow] :=
    (counter.stand_entry known 0).append (label.stand_entry (by decide) _)
  have opens : Reading.step ⟨before, [], some announced⟩ follow =
      .ok ⟨[], [⟨before, label.text, announced.repetition, follow.offset⟩], none⟩ :=
    Reading.step_eq_ok.mpr (.openCounted rfl rfl)
  have opened : [⟨0, counter.text, code⟩, follow].foldlM Reading.step .start =
      .ok ⟨[], [⟨before, label.text, announced.repetition, follow.offset⟩], none⟩ := by
    rw [List.foldlM_cons, Reading.step_eq_ok.mpr counts, ok_bind, List.foldlM_cons, opens]
    rfl
  exact fields_enclosed stand opened accepted closing

theorem ofCode?_count : ∀ entry ∈ countCodes, entry.1 ∈ table.map Prod.fst ∧
    Directive.ofCode? entry.1 = some (.count entry.2.1 entry.2.2) := by
  intro entry listed
  refine ⟨?_, ?_⟩
  · simp only [table, List.map_append, List.mem_append, List.map_map]
    exact .inl (.inr (List.mem_map_of_mem listed))
  · simp only [countCodes, List.mem_cons, List.not_mem_nil, or_false] at listed
    rcases listed with rfl | rfl | rfl | rfl | rfl | rfl | rfl <;> rfl

end Tmpl

namespace Template

open Tmpl

/-- A list without a count is a template by itself: its group refers to nothing. -/
theorem ofTmpl_listed {a : Bytes} {ta : Template} (accepted : ofTmpl a = .ok ta) {code : String}
    {repetition : Repetition} (known : code ∈ table.map Prod.fst)
    (opens : Directive.ofCode? code = some (.openList repetition))
    (listed : repetition = .untilEnd ∨ repetition = .zeroTerminated) (label closing : Label) :
    ofTmpl (label.entry code ++ a ++ closing.entry "LSTE") =
      .ok [.group (baseName label.text) ta repetition none] := by
  apply ofTmpl_eq_ok.mpr
  refine ⟨fields_listed accepted known opens label closing, ?_⟩
  unfold check
  rw [checkFrom_cons]
  refine ⟨⟨checkName_baseName label.text, ?_, ?_, ?_, ?_, ?_⟩, rfl⟩
  · rcases listed with rfl | rfl <;> simp [Field.footprint, Field.footprints, maxFootprint]
  · rcases listed with rfl | rfl <;> simp [Field.countField?]
  · rcases listed with rfl | rfl <;> simp [Field.countField?]
  · simp [Field.condition?]
  · simp

/-- What is done with a resource as a whole can be done with its parts. Two resources whose fields
differ in name make one template after the other, where at most the size can be wrong. A resource
between the markers of a list makes the template of the list's items. -/
theorem ofTmpl_composes {a : Bytes} {ta : Template} (accepted : ofTmpl a = .ok ta) :
    (∀ (b : Bytes) (tb : Template), ofTmpl b = .ok tb →
      (∀ name ∈ ta.map Field.name, name ∉ tb.map Field.name) →
        ofTmpl (a ++ b) = checked (ta ++ tb) ∧
        ∀ error, ofTmpl (a ++ b) = .error error → ∃ name, error = .invalid (.tooLarge name)) ∧
    (∀ label closing : Label,
      ofTmpl (label.entry "LSTB" ++ a ++ closing.entry "LSTE") =
        .ok [.group (baseName label.text) ta .untilEnd none] ∧
      ofTmpl (label.entry "LSTZ" ++ a ++ closing.entry "LSTE") =
        .ok [.group (baseName label.text) ta .zeroTerminated none]) ∧
    (∀ (counter label closing : Label) (code : String) (type : IntType) (zeroBased : Bool),
      (code, type, zeroBased) ∈ countCodes →
        ofTmpl (counter.entry code ++ label.entry "LSTC" ++ a ++ closing.entry "LSTE") =
          checked
            [.scalar (baseName counter.text) (.int type),
             .group
              (if baseName label.text = baseName counter.text then baseName label.text ++ " 2"
                else baseName label.text)
              ta (.counted (baseName counter.text) zeroBased) none]) ∧
    ∀ (counter label closing : Label) (count : Nat), fixedCount? counter.text = some count →
      ofTmpl (counter.entry "FCNT" ++ label.entry "LSTC" ++ a ++ closing.entry "LSTE") =
        checked [.group (baseName label.text) ta (.fixed count) none] := by
  refine ⟨?_, ?_, ?_, ?_⟩
  · intro b tb follow apart
    obtain ⟨loaded, ok⟩ := ofTmpl_eq_ok.mp accepted
    obtain ⟨more, fine⟩ := ofTmpl_eq_ok.mp follow
    have joined := ofTmpl_of_fields (fields_append loaded more apart)
    refine ⟨joined, fun error failed => ?_⟩
    rw [joined] at failed
    -- Each template keeps the rules by itself. What two of them can break is the limit on the size.
    rcases check_append ok fine apart with kept | ⟨name, large⟩
    · have passes := check_eq_ok.mpr kept
      rw [checked, passes, ok_bind] at failed
      nomatch failed
    · refine ⟨name, ?_⟩
      simp only [checked, Tmpl.check, large] at failed
      exact (Except.error.inj failed).symm
  · intro label closing
    constructor
    · exact ofTmpl_listed accepted (by decide) rfl (.inl rfl) label closing
    · exact ofTmpl_listed accepted (by decide) rfl (.inr rfl) label closing
  · intro counter label closing code type zeroBased listed
    obtain ⟨known, counts⟩ := ofCode?_count (code, type, zeroBased) listed
    have announces : Reading.start.Takes ⟨0, counter.text, code⟩
        ⟨[.scalar (fieldName [] counter.text) (.int type)], [],
          some ⟨.counted (fieldName [] counter.text) zeroBased, code, 0⟩⟩ := .count rfl counts
    have loaded := fields_announced accepted known announces label closing
    rw [fieldName_singleton, fieldName_nil] at loaded
    exact ofTmpl_of_fields loaded
  · intro counter label closing count holds
    have announces : Reading.start.Takes ⟨0, counter.text, "FCNT"⟩
        ⟨[], [], some ⟨.fixed count, "FCNT", 0⟩⟩ := .fixedCount rfl rfl holds
    have loaded := fields_announced accepted (by decide) announces label closing
    rw [fieldName_nil] at loaded
    exact ofTmpl_of_fields loaded

theorem ofTmpl_composes_sample :
    ∃ (a b : Bytes) (label : Label) (ta tb : Template), ofTmpl a = .ok ta ∧ ofTmpl b = .ok tb ∧
      (∀ name ∈ ta.map Field.name, name ∉ tb.map Field.name) ∧
      ofTmpl (a ++ b) = checked (ta ++ tb) ∧
      ofTmpl (label.entry "LSTZ" ++ a ++ label.entry "LSTE") =
        .ok [.group "_1_2" ta .zeroTerminated none] ∧
      ofTmpl (label.entry "OCNT" ++ label.entry "LSTC" ++ a ++ label.entry "LSTE") =
        checked [.scalar "_1_2" (.int ⟨false, .word⟩),
          .group "_1_2 2" ta (.counted "_1_2" false) none] ∧
      ofTmpl (label.entry "FCNT" ++ label.entry "LSTC" ++ a ++ label.entry "LSTE") =
        checked [.group "_1_2" ta (.fixed 2) none] := by
  let plain : Label := ⟨[65], by decide⟩
  let naming : Label := ⟨[111, 110, 61, 49], by decide⟩
  let label : Label := ⟨[93, 49, 91, 50], by decide⟩
  let ta : Template := [.scalar "A" (.enumeration ⟨true, .byte⟩ ⟨[⟨1, "on"⟩], false⟩),
    .group "A 2" [.scalar "A" .pascalString] .zeroTerminated none]
  have accepted : ofTmpl (plain.entry "DBYT" ++ naming.entry "CASE" ++ plain.entry "LSTZ" ++
      plain.entry "PSTR" ++ plain.entry "LSTE") = .ok ta := by
    decide +kernel
  have follow : ofTmpl (naming.entry "HEXD") = .ok [bytesToEnd "on=1"] := by decide +kernel
  have apart : ∀ name ∈ ta.map Field.name, name ∉ [bytesToEnd "on=1"].map Field.name := by decide
  have named : baseName label.text = "_1_2" := by decide +kernel
  obtain ⟨joins, lists, counts, fixes⟩ := ofTmpl_composes accepted
  have counted := counts label label label "OCNT" ⟨false, .word⟩ false (by decide)
  have fixed := fixes label label label 2 (by decide +kernel)
  have listed := (lists label label).2
  rw [named] at counted fixed listed
  exact ⟨_, _, label, ta, _, accepted, follow, apart, (joins _ _ follow apart).1, listed, counted,
    fixed⟩

end Template
end ResourceTemplate
