import ResourceTemplate.Proofs.Runs
import ResourceTemplate.Proofs.SettableValues
import ResourceTemplate.Proofs.WrittenIntegers

/-! Integers that are typed in. An integer field takes the typed integers in its range, unless one of them
adds a group that cannot start. -/
namespace ResourceTemplate

/-- A list that is present when its kind is not zero. Its count is one less than its items, so that the
list can start when the count can be negative. -/
def Template.tally (signed : Bool) : Template :=
  [.scalar "count" (.int ⟨signed, .byte⟩), .scalar "kind" (.int ⟨false, .byte⟩),
   .group "list" [.scalar "x" (.int ⟨false, .byte⟩)] (.counted "count" true) (some (.nonZero "kind"))]

namespace Record

variable {record result : Record} {path : Path}

/-- A value that is set is what the path leads to afterwards. -/
theorem LaidOut.value_of_setValue (laid : record.LaidOut) (formed : record.template.WellFormed)
    {place : Place} {name : String} {type : ScalarType} {held : Scalar} {value : Value} {event : Event}
    (located : record.locate path = .ok place) (declared : place.field = some (.scalar name type))
    (holder : place.node.scalar? = some held)
    (done : record.setValue path value = .ok (event, result)) :
    ∃ accepted, type.accept value path = .ok accepted ∧
      event = ⟨path, .value held.value accepted⟩ ∧ result.value path = .ok accepted := by
  obtain ⟨place', name', type', accepted, held', located', declared', free, accept, holder', committed,
    rfl⟩ := setValue_eq_ok.mp done
  obtain rfl := Except.ok.inj (located.symm.trans located')
  obtain ⟨rfl, rfl⟩ := Field.scalar.inj (Option.some.inj (declared.symm.trans declared'))
  obtain rfl := Option.some.inj (holder.symm.trans holder')
  obtain ⟨⟨nodes, stop⟩, settled, made⟩ := bind_eq_ok.mp committed
  obtain rfl := pure_eq_ok.mp made
  obtain ⟨final, leads, holds, _⟩ := (leads_of_locate located declared).changed rfl holder free
    (fun holds => ScalarType.holds_put holds (ScalarType.admits_of_accept accept))
    (put_put held accepted (type.label? accepted)) formed.1 formed.2 ⟨laid.kept, laid.laid⟩ settled
  exact ⟨accepted, accept, rfl, value_eq_ok.mpr ⟨_, _, locate_of_leads leads, holds, rfl⟩⟩

/-- A typed integer in the range is accepted as it is read. -/
theorem accept_of_typed {format : IntType} {text : List Char} {n : Int} (typed : Numeral.Typed text n)
    (inside : format.contains n = true) (path : Path) :
    ∃ value, TextEntry.integer text = .ok value ∧ value.integer? = some n ∧
      (ScalarType.int format).accept value path = .ok (format.value n) := by
  obtain ⟨low, high⟩ := IntType.word_bounds inside
  obtain ⟨value, read, known⟩ := TextEntry.integer_of_typed typed low high
  exact ⟨value, read, known, (ScalarType.accept_integer_iff rfl).mpr ⟨n, known, inside, rfl⟩⟩

/-- The text is taken as the integer, which the path leads to afterwards. -/
def Stores (record : Record) (asked : Settings) (path : Path) (text : String) (old : Value) (n : Int) :
    Prop :=
  ∃ value result, value.integer? = some n ∧
    record.setText asked path text = .ok (⟨path, .value old value⟩, result) ∧ result.value path = .ok value

/-- In a record as it was decoded, an integer that is no count takes the typed integers in its range for
which the groups that they add can start, and refuses the others in its range over a count. It takes
nothing else, but for digits behind a stray plus. -/
theorem setText_typed {template : Template} (formed : template.WellFormed) {settings : Settings}
    {bytes : Bytes} (decoded : decode template settings bytes = .ok record) {place : Place}
    {name : String} {format : IntType} {held : Scalar} (located : record.locate path = .ok place)
    (declared : place.field = some (.scalar name (.int format)))
    (holder : place.node.scalar? = some held) (free : record.countedBy? path = none)
    (asked : Settings) (text : String) :
    (∀ n, Numeral.Typed (Text.trim text.toList) n → format.contains n = true →
      (∀ group ∈ place.owner, group.Turns name held.value (format.value n) true →
        group.CanStart place.owner) → record.Stores asked path text held.value n) ∧
    (∀ n, Numeral.Typed (Text.trim text.toList) n → format.contains n = true →
      (¬ ∀ group ∈ place.owner, group.Turns name held.value (format.value n) true →
        group.CanStart place.owner) →
      ∃ group offset count, record.setText asked path text =
        .error (.invalidCount group offset count)) ∧
    ∀ event result, record.setText asked path text = .ok (event, result) →
      ¬ Numeral.StrayPlus (Text.trim text.toList) →
      ∃ n, Numeral.Typed (Text.trim text.toList) n ∧ format.contains n = true ∧
        (∀ group ∈ place.owner, group.Turns name held.value (format.value n) true →
          group.CanStart place.owner) ∧ record.Stores asked path text held.value n := by
  have laid := laidOut_of_decode decoded
  obtain ⟨rfl, _⟩ := decode_reads decoded
  rw [countedBy?_scalar located declared] at free
  have settable {value : Value} := @LaidOut.setValue_iff _ path laid formed _ _ _ _ value located declared
    holder free
  -- What is read is stored once it can be set.
  have stores {value : Value} {n : Int} (read : TextEntry.integer (Text.trim text.toList) = .ok value)
      (known : value.integer? = some n)
      (done : ∃ event result, record.setValue path value = .ok (event, result)) :
      format.contains n = true ∧ record.Stores asked path text held.value n := by
    obtain ⟨event, result, done⟩ := done
    obtain ⟨accepted, accept, rfl, found⟩ :=
      laid.value_of_setValue formed located declared holder done
    obtain ⟨m, same, inside, rfl⟩ := (ScalarType.accept_integer_iff rfl).mp accept
    obtain rfl := Option.some.inj (known.symm.trans same)
    exact ⟨inside, _, result, format.integer?_value n inside,
      setText_eq_ok.mpr ⟨place, name, _, value, located, declared, read, done⟩, found⟩
  refine ⟨?_, ?_, ?_⟩
  · intro n typed inside starts
    obtain ⟨value, read, known, accept⟩ := accept_of_typed typed inside path
    exact (stores read known (settable.mpr ⟨_, accept, starts⟩)).2
  · intro n typed inside stuck
    obtain ⟨value, read, _, accept⟩ := accept_of_typed typed inside path
    obtain ⟨_, refused, group, offset, count⟩ :=
      laid.setValue_refused formed located declared holder free accept stuck
    exact ⟨group, offset, count, (setText_eq located declared read).trans refused⟩
  · intro event result done tidy
    obtain ⟨_, _, _, value, located', declared', read, done⟩ := setText_eq_ok.mp done
    obtain rfl := Except.ok.inj (located.symm.trans located')
    obtain ⟨_, rfl⟩ := Field.scalar.inj (Option.some.inj (declared.symm.trans declared'))
    obtain ⟨n, typed, known⟩ := TextEntry.typed_of_integer read tidy
    obtain ⟨accepted, accept, starts⟩ := settable.mp ⟨event, result, done⟩
    obtain ⟨m, same, inside, rfl⟩ := (ScalarType.accept_integer_iff rfl).mp accept
    obtain rfl := Option.some.inj (known.symm.trans same)
    exact ⟨n, typed, inside, starts, (stores read known ⟨event, result, done⟩).2⟩

/-- A count below zero is held, so that the list can start. -/
theorem setText_typed_sample : ∃ record place held,
    decode (Template.tally true) {} [0, 0] = .ok record ∧
      record.locate [.name "kind"] = .ok place ∧
      place.field = some (.scalar "kind" (.int ⟨false, .byte⟩)) ∧
      place.node.scalar? = some held ∧ record.countedBy? [.name "kind"] = none ∧
      Numeral.Typed (Text.trim " +0x1f ".toList) 31 ∧ IntType.contains ⟨false, .byte⟩ 31 = true ∧
      (∀ group ∈ place.owner, group.Turns "kind" held.value (.uint 31) true →
        group.CanStart place.owner) ∧
      record.Stores {} [.name "kind"] " +0x1f " held.value 31 := by
  obtain ⟨record, place, held, decoded, located, declared, owner, holder, free⟩ :
      ∃ record place held, decode (Template.tally true) {} [0, 0] = .ok record ∧
        record.locate [.name "kind"] = .ok place ∧
        place.field = some (.scalar "kind" (.int ⟨false, .byte⟩)) ∧
        place.owner = Template.tally true ∧
        place.node.scalar? = some held ∧ record.countedBy? [.name "kind"] = none :=
    ⟨_, _, _, by cbv, by cbv, by cbv, by cbv, by cbv, by cbv⟩
  have typed : Numeral.Typed (Text.trim " +0x1f ".toList) 31 :=
    .plus (@Numeral.Unsigned.hexadecimal ['0', 'x'] _ _ (by decide) ⟨by decide, by decide⟩)
  have starts : ∀ group ∈ place.owner, group.Turns "kind" held.value (.uint 31) true →
      group.CanStart place.owner := by
    rw [owner]
    rintro group member ⟨condition, conditional, _⟩
    simp only [Template.tally, List.mem_cons, List.not_mem_nil, or_false] at member
    rcases member with rfl | rfl | rfl
    · contradiction
    · contradiction
    · exact ⟨⟨_, ⟨true, .byte⟩, List.mem_cons_self .., rfl, by decide⟩, by simp [Field.Opens, Repetition.filling]⟩
  have inside : IntType.contains ⟨false, .byte⟩ 31 = true := by decide
  obtain ⟨stored, _⟩ :=
    setText_typed (by decide +kernel) decoded located declared holder free {} " +0x1f "
  exact ⟨record, place, held, decoded, located, declared, holder, free, typed, inside, starts,
    stored 31 typed inside starts⟩

/-- The list would start with a count below zero. -/
theorem setText_typed_refused : (Template.tally false).WellFormed ∧ ∃ record,
    decode (Template.tally false) {} [0, 0] = .ok record ∧
      (∃ place, record.locate [.name "kind"] = .ok place ∧
        place.field = some (.scalar "kind" (.int ⟨false, .byte⟩))) ∧
      record.countedBy? [.name "kind"] = none ∧
      Numeral.Typed (Text.trim "1".toList) 1 ∧ IntType.contains ⟨false, .byte⟩ 1 = true ∧
      record.setText {} [.name "kind"] "1" = .error (.invalidCount [.name "list"] 0 (-1)) := by
  refine ⟨by decide +kernel, _, by cbv, ⟨_, by cbv, by cbv⟩, by cbv, ?_, by decide, by cbv⟩
  exact .written (.plain (.decimal ⟨by decide, by decide⟩))

end Record
end ResourceTemplate
