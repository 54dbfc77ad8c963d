import ResourceTemplate.Proofs.Rereading
import ResourceTemplate.Proofs.Runs

/-! Reopening. The bytes that an edited record is saved as decode to a record that differs from it
at most in the bits of its booleans. -/
namespace ResourceTemplate

/-- Reading to the end leaves nothing. -/
theorem decodeToEnd_ends {item : ItemDecoder} {path : Path} {index : Nat} {input rest : Input}
    {items : List Node} (read : decodeToEnd item path index input = .ok (items, rest)) :
    rest.bytes = [] := by
  fun_induction decodeToEnd item path index input generalizing items rest with
  | case1 index input ended =>
    obtain ⟨_, rfl⟩ := Prod.mk.inj (pure_eq_ok.mp read)
    simpa [Input.atEnd] using ended
  | case2 index input ended ih =>
    obtain ⟨⟨node, middle⟩, _, read⟩ := bind_eq_ok.mp read
    dsimp only at read
    split at read
    · next shorter =>
      obtain ⟨⟨nodes, last⟩, follow, made⟩ := bind_eq_ok.mp read
      obtain ⟨_, rfl⟩ := Prod.mk.inj (pure_eq_ok.mp made)
      exact ih _ shorter follow
    · contradiction

/-- Nothing is left behind a last group that takes all bytes. -/
theorem decodeFields_ends {bound : CountBound} {fields : List Field} {last : Field}
    (final : last ∈ fields.getLast?) (takes : last.TakesRest) (always : last.condition? = none)
    {earlier nodes : List Node} {parent : Path} {input rest : Input}
    (read : decodeFields bound fields earlier parent input = .ok (nodes, rest)) :
    rest.bytes = [] := by
  induction fields generalizing earlier nodes input with
  | nil => contradiction
  | cons field fields ih =>
    obtain ⟨node, middle, others, first, follow, _⟩ := decodeFields_cons.mp read
    cases fields with
    | cons next fields => exact ih (by simpa using final) follow
    | nil =>
      obtain rfl : field = last := by simpa using final
      obtain ⟨_, rfl⟩ := Prod.mk.inj (pure_eq_ok.mp follow)
      cases field with
      | scalar | composite => contradiction
      | group name inner repetition condition =>
        cases repetition with
        | fixed | counted | zeroTerminated => contradiction
        | untilEnd =>
          obtain rfl : condition = none := always
          obtain ⟨_, ⟨absent, _⟩ | ⟨_, items, several, _⟩⟩ := decodeField_group.mp first
          · simp at absent
          · exact decodeToEnd_ends several

namespace Record

variable {template : Template} {settings : Settings} {record : Record}

/-- Edits keep the bytes after the last field. -/
theorem Reachable.trailing (formed : template.WellFormed)
    (reachable : Reachable template settings record) :
    ∃ bytes first, decode template settings bytes = .ok first ∧ record.trailing = first.trailing := by
  induction reachable with
  | @decoded bytes first read => exact ⟨bytes, first, read, rfl⟩
  | @edited record asked edit reachable ih =>
    obtain ⟨bytes, first, read, same⟩ := ih
    refine ⟨bytes, first, read, ?_⟩
    unfold attempt
    split
    · next event result done =>
      obtain ⟨rfl, laid⟩ := reachable.laid formed
      obtain ⟨_, kept, _⟩ := laid_of_apply formed laid done
      exact kept.trans same
    · exact same

theorem Reachable.trailing_eq_nil (formed : template.WellFormed)
    (reachable : Reachable template settings record) {last : Field}
    (final : last ∈ template.getLast?) (takes : last.TakesRest) (always : last.condition? = none) :
    record.trailing = [] := by
  obtain ⟨bytes, first, decoded, same⟩ := reachable.trailing formed
  obtain ⟨⟨fields, rest⟩, read, made⟩ := bind_eq_ok.mp decoded
  dsimp only at made
  split at made
  · nomatch made
  · obtain rfl := pure_eq_ok.mp made
    exact same.trans (decodeFields_ends final takes always read)

/-- What is saved reopens as the same record, in names, kinds, values, labels and places. The bits
of booleans may differ, but they are written as the same bytes. -/
theorem decode_of_encode (formed : template.WellFormed) (last : template.TakesRestLast)
    (wide : template.Everywhere Template.ItemsTakeBytes)
    (untested : template.Everywhere Template.CountsUntested)
    (reachable : Reachable template {} record) {bytes : Bytes} (encoded : record.encode = .ok bytes) :
    ∃ reopened, decode template {} bytes = .ok reopened ∧
      Node.forgetBitsAll reopened.fields = Node.forgetBitsAll record.fields ∧
      reopened.laidOut = record.laidOut ∧ reopened.trailing = record.trailing ∧
      reopened.encode = .ok bytes := by
  obtain ⟨rfl, laid⟩ := reachable.laid formed
  have laid := laid.laidOut untested
  have again := encoded
  rw [laid.encode_eq formed, written_eq_ok] at again
  obtain ⟨clean, rfl⟩ := again
  have nested : Field.AllNested Template.Rereadable record.template :=
    Field.AllNested.imp (fun _ kept => ⟨kept.1, kept.2.1, kept.2.2⟩) _
      (Field.AllNested.and _ formed.2 (Field.AllNested.and _ wide.2 last.nested))
  have ends : Template.EndsWith record.template record.trailing := ⟨last.front,
    fun field final takes => reachable.trailing_eq_nil formed final takes (last.last field final takes)⟩
  obtain ⟨fields, read, same⟩ := decodeFields_rereads record.template nested wide.1 [] formed.1 0 [] 0
    ⟨rfl, rfl⟩ record.fields record.laidOut laid.laid clean laid.kept [] rfl Path.root record.trailing
    ends
  have decoded : decode record.template {} record.bytes =
      .ok ⟨record.template, fields, record.laidOut, record.trailing⟩ := by
    rw [decode, decodeWith, bytes, read, ok_bind]
    rfl
  exact ⟨_, decoded, same, rfl, rfl, encode_decoded formed decoded⟩

theorem decode_of_encode_sample : ∃ record bytes reopened,
    Reachable Template.sample {} record ∧ record.encode = .ok bytes ∧
      decode Template.sample {} bytes = .ok reopened ∧
      Node.forgetBitsAll reopened.fields = Node.forgetBitsAll record.fields ∧
      reopened.trailing = record.trailing := by
  obtain ⟨first, decoded, encoded⟩ : ∃ record,
      decode Template.sample {} [1, 0, 0, 1, 0, 2, 0, 3, 97, 98, 1, 65, 0, 7, 8] = .ok record ∧
        (record.attempt {} (.setText [.name "kind"] "2")).encode =
          .ok [2, 0, 0, 1, 0, 2, 0, 3, 97, 98, 0, 0, 1, 65, 0, 7, 8] :=
    ⟨_, by cbv, by cbv⟩
  have reachable := Reachable.edited {} (.setText [.name "kind"] "2") (.decoded decoded)
  obtain ⟨reopened, again, same, _, trailing, _⟩ := decode_of_encode Template.sample_wellFormed
    (by decide +kernel) (by decide +kernel) (by decide +kernel) reachable encoded
  exact ⟨_, _, reopened, reachable, encoded, again, same, trailing⟩

end Record
end ResourceTemplate
