import ResourceTemplate.Proofs.FieldOrder
import ResourceTemplate.Proofs.TemplateForm

/-! The JSON text of a template is read back as that template. Every number in it is one of 64 bits,
as the size of a template bounds its lengths and counts. -/
namespace ResourceTemplate

section Numbers

open Json

theorem Template.footprint_le {earlier fields : List Field} (checked : checkFrom earlier fields = .ok ()) :
    ∀ field ∈ fields, field.footprint ≤ maxFootprint := by
  induction fields generalizing earlier with
  | nil => simp
  | cons field fields ih =>
    obtain ⟨follows, rest⟩ := checkFrom_cons.mp checked
    have small := follows.small
    rw [List.forall_mem_cons]
    exact ⟨by omega, ih rest⟩

theorem isWord_int64 (n : Int64) : IsWord n.toInt := by
  obtain ⟨low, high⟩ := JsonForm.int64_bounds n
  have wider : (Numeral.maxSigned : Int) ≤ Numeral.maxWord := by decide
  exact ⟨low, Int.le_trans high wider⟩

theorem isWord_natural {n : Nat} (small : n ≤ Template.maxFootprint) : IsWord n := by
  simp only [Template.maxFootprint] at small
  simp only [IsWord, Numeral.minSigned, Numeral.maxWord]
  omega

theorem integral_entries (entries : List EnumEntry) : AllIntegral (entries.map EnumEntry.toJson) := by
  induction entries with
  | nil => trivial
  | cons entry entries ih => exact ⟨⟨isWord_int64 entry.value, trivial, trivial⟩, ih⟩

theorem integral_scalar {type : ScalarType} (small : type.minWidth ≤ Template.maxFootprint) :
    EntriesIntegral type.parametersToJson := by
  cases type with
  | int => trivial
  | enumeration base names => exact ⟨trivial, integral_entries names.entries, trivial, trivial⟩
  | fixedString length => exact ⟨isWord_natural small, trivial⟩
  | pascalString => trivial
  | boolean => exact ⟨trivial, trivial⟩

theorem integral_condition (condition : Condition) : condition.toJson.Integral := by
  cases condition with
  | equals field value => exact ⟨trivial, trivial, isWord_int64 value, trivial⟩
  | nonZero => exact ⟨trivial, trivial, trivial⟩

theorem integral_repetition {name : String} {fields : List Field} {repetition : Repetition}
    {condition : Option Condition}
    (small : (Field.group name fields repetition condition).footprint ≤ Template.maxFootprint) :
    repetition.toJson.Integral := by
  cases repetition with
  | fixed count =>
    have counted : count ≤ count * (1 + Field.footprints fields) :=
      Nat.le_mul_of_pos_right count (by omega)
    rw [Field.footprint] at small
    exact ⟨trivial, isWord_natural (by omega), trivial⟩
  | counted => exact ⟨trivial, trivial, trivial, trivial⟩
  | untilEnd => exact ⟨trivial, trivial⟩
  | zeroTerminated => exact ⟨trivial, trivial⟩

mutual
theorem integral_parameters : (field : Field) → field.Nested (·.check = .ok ()) →
    field.footprint ≤ Template.maxFootprint → EntriesIntegral field.parametersToJson
  | .scalar .., _, small => integral_scalar (Nat.le_of_succ_le small)
  | .composite _ fields, ⟨checked, nested⟩, _ =>
    ⟨integral_list fields nested (Template.footprint_le checked), trivial⟩
  | .group _ fields _ none, ⟨checked, nested⟩, small =>
    ⟨integral_list fields nested (Template.footprint_le checked), integral_repetition small, trivial⟩
  | .group _ fields _ (some condition), ⟨checked, nested⟩, small =>
    ⟨integral_list fields nested (Template.footprint_le checked), integral_repetition small,
      integral_condition condition, trivial⟩

theorem integral_list : (fields : List Field) → Field.AllNested (·.check = .ok ()) fields →
    (∀ field ∈ fields, field.footprint ≤ Template.maxFootprint) →
      AllIntegral (Field.listToJson fields)
  | [], _, _ => trivial
  | field :: fields, ⟨first, others⟩, small =>
    ⟨⟨trivial, trivial, integral_parameters field first (small field (List.mem_cons_self ..))⟩,
      integral_list fields others fun other member => small other (List.mem_cons_of_mem _ member)⟩
end

end Numbers

namespace JsonForm

open Json

/-- The entries of a description in the outermost list. The name stands first, and is not looked for
again. -/
theorem readsEach_entries {name : String} {others : List (String × Json)}
    (apart : ∀ entry ∈ others, entry.1 ≠ "name") (integral : EntriesIntegral others)
    (shallow : entryDepths others ≤ maxDepth - 2) (level : Nat) :
    ReadsEach readEntry (entryText level) (("name", .string name) :: others) := by
  intro before entry among rest ends
  -- The first entry is the name, which is read as a string. The others are read as any value.
  cases before with
  | nil =>
    obtain ⟨rfl, _⟩ := List.cons_prefix_cons.mp among
    have next : Token.next? (' ' :: ((printString name).toList ++ rest)) = some (.string name, rest) := by
      rw [← List.singleton_append, next?_space blank_gap, next?_of_scan? (scan?_printString name rest)]
    have text : readString (' ' :: ((printString name).toList ++ rest)) = .ok (name, rest) := by
      simp only [readString, next]
      rfl
    have same : (Json.string name).indented level = printString name := rfl
    simp only [entryText, List.append_assoc, List.cons_append, JsonForm.readEntry, same]
    rw [readKey_printed (blank_newline _), ok_bind, if_pos rfl, readColon_printed]
    simp only [List.any_nil, Bool.false_eq_true, if_false, ok_bind, text]
    rfl
  | cons first before =>
    obtain ⟨_, among⟩ := List.cons_prefix_cons.mp among
    have member : entry ∈ others := among.subset (by simp)
    have deep := Nat.le_trans (depth_le_entryDepths member) shallow
    have value : Reads JsonError.malformed entry.2 := entries_read others integral entry member
    have spaced := (readValue_space blank_gap (maxDepth - 2) _).trans (value _ level rest deep ends)
    simp only [entryText, List.append_assoc, List.cons_append, JsonForm.readEntry]
    rw [readKey_printed (blank_newline _), ok_bind, if_neg (apart entry member), readColon_printed,
      ok_bind]
    simp only [List.cons_append, List.nil_append] at spaced
    rw [spaced]
    rfl

/-- A field is read from its description in the outermost list. -/
theorem readField_printed {given : Field} (nested : given.Nested (·.check = .ok ()))
    (small : given.footprint ≤ Template.maxFootprint) (shallow : given.toJson.depth ≤ maxDepth - 1)
    (rest : List Char) : readField (elementText 1 given.toJson ++ rest) = .ok (given, rest) := by
  let entries := ("type", Json.string given.tag.name) :: given.parametersToJson
  have apart : ∀ entry ∈ entries, entry.1 ≠ "name" := by
    rw [List.forall_mem_cons]
    exact ⟨by simp, fun entry member => (parameters_apart given entry member).1⟩
  have integral : EntriesIntegral entries := ⟨trivial, integral_parameters given nested small⟩
  have inside : entryDepths entries ≤ maxDepth - 2 := by
    rw [Field.toJson, Json.depth, entryDepths] at shallow
    simp only [entries, maxDepth] at shallow ⊢
    omega
  have reads : ReadsEach JsonForm.readEntry (entryText 2) (("name", .string given.name) :: entries) :=
    readsEach_entries apart integral inside 2
  obtain ⟨space, blank, next⟩ := next?_object 1 (("name", .string given.name) :: entries) rest
  have list : listBody JsonError.malformed Token.closesObject JsonForm.readEntry
      (separated (entryText 2) (("name", .string given.name) :: entries) ++
        (space ++ '\x7d' :: rest)) = .ok (("name", .string given.name) :: entries, rest) := by
    apply objectBody_separated reads blank
    intro text result read
    obtain ⟨key, found, _⟩ := bind_eq_ok.mp read
    exact readKey_starts found
  have opens : Token.next? (elementText 1 given.toJson ++ rest) = some (.openObject,
      separated (entryText 2) (("name", .string given.name) :: entries) ++ (space ++ '\x7d' :: rest)) := by
    rw [elementText, List.append_assoc, next?_space (blank_newline 1)]
    exact next
  have described := field_toJson given nested
  rw [Field.toJson] at described
  simp only [readField, opens, list, ok_bind, entries, described]
  rfl

/-- What is read does not start like the end of the list. -/
theorem readField_starts {text : List Char} {result : Field × List Char}
    (read : readField text = .ok result) :
    ∃ token after, Token.next? text = some (token, after) ∧ token.closesArray = false := by
  unfold readField at read
  split at read
  · next rest next => exact ⟨.openObject, rest, next, rfl⟩
  · unfold mismatch at read
    split at read <;> nomatch read

theorem readFields_printed {fields : List Field} (checked : Template.check fields = .ok ())
    (nested : Field.AllNested (·.check = .ok ()) fields)
    (shallow : (Template.toJson fields).depth ≤ maxDepth) :
    readFields (Template.jsonText fields).toList = .ok (fields, []) := by
  obtain ⟨space, blank, opens⟩ := next?_array 0 (Field.listToJson fields) []
  rw [Template.toJson, Json.depth] at shallow
  have reads : ReadsEach (fun _ => readField) (fun field => elementText 1 field.toJson) fields := by
    intro before field among rest ends
    have member : field ∈ fields := among.subset (by simp)
    have deep : field.toJson.depth ≤ depths (Field.listToJson fields) := by
      apply depth_le_depths
      rw [Field.listToJson_eq]
      exact List.mem_map_of_mem member
    exact readField_printed (nested.member member) (Template.footprint_le checked field member)
      (by omega) rest
  have same : separated (elementText 1) (Field.listToJson fields) =
      separated (fun field => elementText 1 field.toJson) fields := by
    rw [Field.listToJson_eq]
    cases fields with
    | nil => rfl
    | cons field fields => simp [separated, List.flatMap_map]
  have list : listBody JsonError.malformed Token.closesArray (fun _ => readField)
      (separated (fun field => elementText 1 field.toJson) fields ++ (space ++ [']'])) =
        .ok (fields, []) :=
    arrayBody_separated reads blank fun _ _ => readField_starts
  have text : (Template.jsonText fields).toList =
      ((array (Field.listToJson fields)).indented 0).toList ++ [] := (List.append_nil _).symm
  simp only [readFields, text, opens, same]
  exact list

end JsonForm

namespace Template

/-- A template is what its JSON text says, whatever its names are made of and however large its
numbers are, as long as the text nests no deeper than is read. -/
theorem ofJsonText_jsonText {template : Template} (formed : template.WellFormed)
    (shallow : template.toJson.depth ≤ Json.maxDepth) :
    ofJsonText template.jsonText = .ok template := by
  obtain ⟨checked, nested⟩ := formed
  have kept : JsonForm.checked template = .ok template := by
    rw [JsonForm.checked, checked]
    rfl
  simp only [ofJsonText, JsonForm.readFields_printed checked nested shallow, ok_bind, kept]
  rfl

/-- Names of every kind of character, the extreme values, and a condition on one of them. -/
def awkward : Template :=
  [.scalar "\"\\/\x00\n\x1f" (.enumeration ⟨true, .quad⟩
     ⟨[⟨Int64.minValue, ""⟩, ⟨Int64.maxValue, "é\u2028😀\x7f"⟩], true⟩),
   .group "a\tb" [.composite "\x08\x0c\r" [.scalar "x" (.fixedString 0)]] (.fixed 9)
     (some (.equals "\"\\/\x00\n\x1f" Int64.minValue))]

theorem ofJsonText_jsonText_awkward :
    awkward.WellFormed ∧ awkward.toJson.depth ≤ Json.maxDepth ∧
      ofJsonText awkward.jsonText = .ok awkward := by
  have formed : awkward.WellFormed := by decide +kernel
  have shallow : awkward.toJson.depth ≤ Json.maxDepth := by decide +kernel
  exact ⟨formed, shallow, ofJsonText_jsonText formed shallow⟩

end Template
end ResourceTemplate
