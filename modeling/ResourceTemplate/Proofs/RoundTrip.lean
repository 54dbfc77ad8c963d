import Mathlib
import ResourceTemplate.Proofs.DecodedLayout
import ResourceTemplate.Proofs.EncodedLayout
import ResourceTemplate.Record.Basic

/-! Records whose trees are laid out and settled. Decoding makes such records and encoding
writes what they stand for, so a record that was not edited is written as it was read. -/
namespace ResourceTemplate

namespace Record

/-- The tree is laid out from the start of the record, with a rule kept at every level. -/
structure Laid (rule : LevelRule) (record : Record) : Prop where
  kept : rule record.template record.fields
  laid : Field.LaidAll rule record.template 0 record.fields record.laidOut

abbrev LaidOut : Record → Prop := Laid Settled

def bytes (record : Record) : Bytes :=
  Field.bytesAll record.template record.fields ++ record.trailing

theorem Laid.length_bytes {rule : LevelRule} {record : Record} (laid : record.Laid rule) :
    record.bytes.length = record.length := by
  have sized := Field.LaidAll.length_bytes _ _ _ _ laid.laid
  rw [bytes, List.length_append, length]
  omega

/-- A list that would look shorter than it is cannot be written; all else can. -/
theorem Laid.encode_eq {record : Record} (formed : record.template.WellFormed)
    (laid : record.LaidOut) :
    record.encode =
      written Path.root (Field.zeroItems? record.template record.fields) record.bytes := by
  rw [encode, encodeLevel_eq formed.1 formed.2 ⟨laid.kept, laid.laid⟩]
  cases Field.zeroItems? record.template record.fields <;> rfl

theorem decode_reads {template : Template} {settings : Settings} {bytes : Bytes}
    {record : Record} (decoded : decode template settings bytes = .ok record) :
    record.template = template ∧
      FieldsRead template [] ⟨0, bytes⟩ record.fields ⟨record.laidOut, record.trailing⟩ := by
  obtain ⟨⟨fields, rest⟩, read, made⟩ := bind_eq_ok.mp decoded
  have fields := decodeFields_reads CountBound.natural_fitting _ _ _ _ _ _ read
  dsimp only at made
  split at made
  · nomatch made
  · obtain rfl := pure_eq_ok.mp made
    exact ⟨rfl, fields⟩

theorem laidOut_of_decode {template : Template} {settings : Settings} {bytes : Bytes}
    {record : Record} (decoded : decode template settings bytes = .ok record) :
    record.LaidOut := by
  obtain ⟨rfl, read⟩ := decode_reads decoded
  exact ⟨read.settled, read.laid⟩

theorem bytes_of_decode {template : Template} {settings : Settings} {bytes : Bytes}
    {record : Record} (decoded : decode template settings bytes = .ok record) :
    record.bytes = bytes := by
  obtain ⟨rfl, read⟩ := decode_reads decoded
  exact read.bytes.symm

theorem encode_decoded {template : Template} (formed : template.WellFormed) {settings : Settings}
    {bytes : Bytes} {record : Record} (decoded : decode template settings bytes = .ok record) :
    record.encode = .ok bytes := by
  have laid := laidOut_of_decode decoded
  have same := bytes_of_decode decoded
  obtain ⟨rfl, read⟩ := decode_reads decoded
  rw [laid.encode_eq formed, read.clean, same]
  rfl

/-- A decoded record encodes to the bytes that it was decoded from, down to the bits of its
booleans, the counts of its absent groups and the bytes after its last field. -/
theorem encode_of_decode {template : Template} (formed : template.WellFormed)
    {settings : Settings} {bytes : Bytes} {record : Record}
    (decoded : decode template settings bytes = .ok record) :
    record.encode = .ok bytes ∧ record.length = bytes.length := by
  refine ⟨encode_decoded formed decoded, ?_⟩
  rw [← (laidOut_of_decode decoded).length_bytes, bytes_of_decode decoded]

theorem encode_of_decode_sample : ∃ record,
    decode Template.sample {} [1, 0, 0, 1, 0, 2, 0, 3, 97, 98, 1, 65, 0, 7, 8] = .ok record ∧
      record.encode = .ok [1, 0, 0, 1, 0, 2, 0, 3, 97, 98, 1, 65, 0, 7, 8] ∧
      record.length = 15 := by
  obtain ⟨record, decoded⟩ : ∃ record, decode Template.sample {}
      [1, 0, 0, 1, 0, 2, 0, 3, 97, 98, 1, 65, 0, 7, 8] = .ok record := ⟨_, by cbv⟩
  exact ⟨record, decoded, encode_of_decode Template.sample_wellFormed decoded⟩

end Record
end ResourceTemplate
