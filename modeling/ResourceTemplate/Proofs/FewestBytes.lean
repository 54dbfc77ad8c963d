import ResourceTemplate.Proofs.Frames
import ResourceTemplate.Proofs.LongerData
import ResourceTemplate.Proofs.Rereading

/-! The fewest bytes that a template describes. Nothing takes up fewer, so that a count of more items
than there are bytes for can be refused before any of them is read. -/
namespace ResourceTemplate

mutual
/-- A field that is filled with default values takes up its fewest bytes, if no group is absent. -/
theorem Field.minWidth_le_footprint : (field : Field) → field.minWidth ≤ field.footprint
  | .scalar _ type => Nat.le_succ type.minWidth
  | .composite _ fields => Nat.le_trans (Field.minWidths_le_footprints fields) (Nat.le_add_left _ 1)
  | .group _ _ _ (some _) => Nat.zero_le _
  | .group _ fields (.fixed count) none => by
    have item := Nat.le_trans (Field.minWidths_le_footprints fields) (Nat.le_add_left _ 1)
    exact Nat.le_succ_of_le (Nat.mul_le_mul_left count item)
  | .group _ _ (.counted ..) none => Nat.zero_le _
  | .group _ _ .untilEnd none => Nat.zero_le _
  | .group _ _ .zeroTerminated none => Nat.le_refl 1

theorem Field.minWidths_le_footprints :
    (fields : List Field) → Field.minWidths fields ≤ Field.footprints fields
  | [] => Nat.le_refl 0
  | field :: fields =>
    Nat.add_le_add (Field.minWidth_le_footprint field) (Field.minWidths_le_footprints fields)
end

namespace Template

theorem footprints_append (first last : List Field) :
    Field.footprints (first ++ last) = Field.footprints first + Field.footprints last := by
  induction first with
  | nil => simp [Field.footprints]
  | cons field first ih => simp [Field.footprints, ih, Nat.add_assoc]

theorem footprints_le {earlier fields : List Field} (within : Field.footprints earlier ≤ maxFootprint)
    (checked : checkFrom earlier fields = .ok ()) :
    Field.footprints (earlier ++ fields) ≤ maxFootprint := by
  induction fields generalizing earlier with
  | nil => simpa using within
  | cons field fields ih =>
    obtain ⟨follows, rest⟩ := checkFrom_cons.mp checked
    have small : Field.footprints (earlier ++ [field]) ≤ maxFootprint := by
      simpa [footprints_append, Field.footprints] using follows.small
    simpa using ih small rest

theorem footprints_le_maxFootprint {template : Template} (checked : template.check = .ok ()) :
    Field.footprints template ≤ maxFootprint := by
  have empty : Field.footprints [] ≤ maxFootprint := Nat.zero_le _
  simpa using footprints_le empty checked

/-- The fewest bytes of a checked template are far from overflowing any word. -/
theorem minWidth_le_maxFootprint {template : Template} (checked : template.check = .ok ()) :
    template.minWidth ≤ maxFootprint :=
  Nat.le_trans (Field.minWidths_le_footprints template) (footprints_le_maxFootprint checked)

end Template

/-- The items of a group that asks for a number of items take up at least one byte. -/
def Field.CountedItemsTakeBytes : Field → Prop
  | .group _ fields (.fixed _) _ | .group _ fields (.counted ..) _ => 0 < minWidths fields
  | _ => True

def Template.CountedItemsTakeBytes (template : Template) : Prop :=
  ∀ field ∈ template, field.CountedItemsTakeBytes

instance : (field : Field) → Decidable field.CountedItemsTakeBytes
  | .group _ fields (.fixed _) _ | .group _ fields (.counted ..) _ =>
    inferInstanceAs (Decidable (0 < Field.minWidths fields))
  | .group _ _ .untilEnd _ | .group _ _ .zeroTerminated _ | .scalar .. | .composite .. =>
    isTrue trivial

instance : DecidablePred Template.CountedItemsTakeBytes := fun template =>
  inferInstanceAs (Decidable (∀ field ∈ template, _))

/-- Any count may be tried that is not negative. -/
def CountBound.plain : CountBound := fun _ count _ => 0 ≤ count

section Bounds

theorem CountBound.natural_plain : CountBound.plain.Natural := by
  intro minWidth count remaining plain
  simpa [CountBound.plain] using plain

/-- Whatever fits is not negative. -/
theorem CountBound.fitting_passesOn (fields : List Field) :
    CountBound.fitting.PassesOn .plain [] fields := by
  intro path count input items rest fits _
  simpa [CountBound.plain] using CountBound.natural_fitting _ _ _ fits

theorem decodeItem_reads {bound : CountBound} (natural : bound.Natural) (fields : List Field)
    (path : Path) : (decodeItem bound fields path).Reads fields := by
  intro index input node rest read
  obtain ⟨children, inner, rfl⟩ := decodeItem_eq_ok.mp read
  exact ⟨children, rfl, decodeFields_reads natural fields [] _ input children rest inner⟩

/-- Items that were read fit into the bytes that were left. -/
theorem CountBound.plain_passesOn {fields : List Field} (wide : 0 < Field.minWidths fields) :
    CountBound.plain.PassesOn .fitting [] fields := by
  intro path count input items rest plain read
  have natural := CountBound.natural_plain _ _ _ plain
  obtain ⟨length, read⟩ := decodeTimes_reads (decodeItem_reads CountBound.natural_plain fields path) read
  have widths := read.laid.width_le fun start children stop level =>
    minWidths_le fields start children stop level.2 [] level.1
  have bytes : input.remaining = (rest.offset - input.offset) + rest.bytes.length := by
    rw [Input.remaining, read.bytes, List.length_append, read.laid.stop_eq, Nat.add_sub_cancel_left]
  have fits : count.toNat * Field.minWidths fields ≤ input.remaining := by
    rw [← length]
    omega
  have counted : (count.toNat : Int) = count := Int.toNat_of_nonneg natural
  simp only [CountBound.fitting, Bool.and_eq_true, decide_eq_true_eq, Nat.max_eq_left wide,
    List.length_nil, Nat.add_zero]
  exact ⟨natural, by rw [← counted]; exact_mod_cast fits⟩

theorem Template.readsOn_plain (template : Template) : template.ReadsOn .fitting .plain [] := by
  intro field _
  match field with
  | .scalar .. | .composite .. | .group _ _ .zeroTerminated _ => exact trivial
  | .group _ fields (.fixed _) _ | .group _ fields (.counted ..) _ =>
    exact CountBound.fitting_passesOn fields
  | .group _ _ .untilEnd _ => exact rfl

theorem Template.CountedItemsTakeBytes.readsOn {template : Template}
    (wide : template.CountedItemsTakeBytes) : template.ReadsOn .plain .fitting [] := by
  intro field member
  match field with
  | .scalar .. | .composite .. | .group _ _ .zeroTerminated _ => exact trivial
  | .group _ fields (.fixed _) _ | .group _ fields (.counted ..) _ =>
    exact CountBound.plain_passesOn (wide _ member)
  | .group _ _ .untilEnd _ => exact rfl

end Bounds

namespace Record

/-- Every level of a record is laid out where its parent stands. -/
theorem Level.laid {record : Record} (laid : record.LaidOut) {fields : List Field} {parent : Node}
    {path : Path} (level : record.Level fields parent path) :
    Field.LevelLaid Settled fields parent.offset parent.children parent.stop := by
  induction level with
  | root =>
    refine ⟨laid.kept, ?_⟩
    rw [show record.root.stop = record.laidOut from Nat.zero_add _]
    exact laid.laid
  | composite _ member ih =>
    obtain ⟨_, below⟩ := ih.2.pair member
    exact below.level
  | item _ member there ih =>
    obtain ⟨_, below⟩ := ih.2.pair member
    obtain ⟨_, items⟩ := below.items_of_mem (List.mem_of_getElem? there)
    obtain ⟨_, _, _, _, rfl, level⟩ := items.member (List.mem_of_getElem? there)
    exact level

/-- The fewest bytes of a template are a true bound: every level and every field of a record that was
read takes up at least its own, and less data cannot be read. Where items that are counted take up
bytes, refusing a count by them refuses nothing that could be read. -/
theorem minWidth_bounds {template : Template} (formed : template.WellFormed) :
    template.Everywhere (fun fields => fields.minWidth ≤ Template.maxFootprint) ∧
    (∀ settings bytes record, decode template settings bytes = .ok record →
      template.minWidth ≤ record.laidOut ∧
      ∀ fields parent path, record.Level fields parent path →
        Field.minWidths fields ≤ parent.length ∧
        ∀ field node, (field, node) ∈ fields.zip parent.children → field.minWidth ≤ node.length) ∧
    (∀ settings bytes, bytes.length < template.minWidth →
      ∃ error, decode template settings bytes = .error error) ∧
    (template.Everywhere Template.CountedItemsTakeBytes → ∀ settings bytes record,
      decodeWith CountBound.plain template settings bytes = .ok record ↔
        decode template settings bytes = .ok record) := by
  have consumed (settings : Settings) (bytes : Bytes) (record : Record)
      (decoded : decode template settings bytes = .ok record) : template.minWidth ≤ record.laidOut := by
    obtain ⟨_, read⟩ := decode_reads decoded
    have least := minWidths_le template 0 record.fields record.laidOut read.laid [] read.settled
    rwa [Nat.zero_add] at least
  refine ⟨formed.imp fun _ => Template.minWidth_le_maxFootprint, ?_, ?_, ?_⟩
  · intro settings bytes record decoded
    refine ⟨consumed settings bytes record decoded, fun fields parent path level => ?_⟩
    obtain ⟨settled, laid⟩ := level.laid (laidOut_of_decode decoded)
    have whole := minWidths_le fields _ _ _ laid [] settled
    refine ⟨Nat.le_of_add_le_add_left whole, fun field node member => ?_⟩
    obtain ⟨start, below⟩ := laid.pair member
    exact minWidth_le field start node below _ (settled _ member)
  · intro settings bytes short
    cases outcome : decode template settings bytes with
    | error error => exact ⟨error, rfl⟩
    | ok record =>
      have sized := (laidOut_of_decode outcome).length_bytes
      rw [bytes_of_decode outcome, length] at sized
      have least := consumed settings bytes record outcome
      omega
  · intro wide settings bytes record
    -- The two bounds let the same counts pass, so that either decoder does what the other does.
    have same {bound other : CountBound}
        (readsOn : template.Everywhere (Template.ReadsOn bound other []))
        (decoded : decodeWith bound template settings bytes = .ok record) :
        decodeWith other template settings bytes = .ok record := by
      simpa using decodeWith_followedBy readsOn (fun _ => rfl) decoded
    exact ⟨same (Template.Everywhere.imp (fun _ wide => wide.readsOn) wide),
      same (Template.Everywhere.imp (fun fields _ => Template.readsOn_plain fields) formed)⟩

/-- The record takes up seven bytes at least, and is read under either bound. -/
theorem minWidth_bounds_sample : ∃ record error,
    decode Template.sample {} [1, 0, 0, 1, 0, 2, 0, 3, 97, 98, 1, 65, 0, 7, 8] = .ok record ∧
      Template.sample.minWidth = 7 ∧ 7 ≤ record.laidOut ∧
      decode Template.sample {} [2, 0, 0, 3, 97, 98] = .error error ∧
      decodeWith CountBound.plain Template.sample {}
        [1, 0, 0, 1, 0, 2, 0, 3, 97, 98, 1, 65, 0, 7, 8] = .ok record := by
  obtain ⟨record, decoded⟩ : ∃ record, decode Template.sample {}
      [1, 0, 0, 1, 0, 2, 0, 3, 97, 98, 1, 65, 0, 7, 8] = .ok record := ⟨_, by cbv⟩
  have width : Template.sample.minWidth = 7 := by decide +kernel
  obtain ⟨_, least, short, same⟩ := minWidth_bounds Template.sample_wellFormed
  obtain ⟨error, failed⟩ := short {} [2, 0, 0, 3, 97, 98] (by rw [width]; decide)
  exact ⟨record, error, decoded, width, width ▸ (least _ _ _ decoded).1, failed,
    (same (by decide +kernel) _ _ _).mpr decoded⟩

end Record
end ResourceTemplate
