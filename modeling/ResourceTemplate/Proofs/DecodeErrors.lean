import ResourceTemplate.Proofs.Failures

/-! How decoding fails. An error names a field that the template declares, the place in the data
where reading stopped, and what was missing there. No reference of a checked template is missing,
so that these are all the errors there are. -/
namespace ResourceTemplate

/-- A path leads to a field of a list, or of a list further in. An index stands after each group
that it passes, and nowhere else. -/
inductive Declares : List Field → Path → Field → Prop where
  | here {fields : List Field} {field : Field} (member : field ∈ fields) :
    Declares fields [.name field.name] field
  | composite {fields inner : List Field} {name : String} {path : Path} {field : Field}
      (member : .composite name inner ∈ fields) (below : Declares inner path field) :
    Declares fields (.name name :: path) field
  | item {fields inner : List Field} {name : String} {repetition : Repetition}
      {condition : Option Condition} {path : Path} {field : Field} (index : Nat)
      (member : .group name inner repetition condition ∈ fields)
      (below : Declares inner path field) :
    Declares fields (.name name :: .index index :: path) field

/-- What stops a decoder at the field at a path. -/
inductive Stops (bytes : Bytes) (path : Path) : Field → CodecError → Prop where
  /-- A scalar needs more bytes than are left. -/
  | truncated {name : String} {type : ScalarType} {offset need : Nat} (place : offset ≤ bytes.length)
      (short : bytes.length - offset < need) :
    Stops bytes path (.scalar name type) (.truncated path offset need (bytes.length - offset))
  /-- A field that takes up bytes comes after the last one. -/
  | endedEarly {field : Field} (needs : 0 < field.minWidth) :
    Stops bytes path field (.mismatch path bytes.length .endedEarly)
  /-- A list goes on to the last byte without its end. -/
  | unterminated {name : String} {fields : List Field} {condition : Option Condition} :
    Stops bytes path (.group name fields .zeroTerminated condition)
      (.mismatch path bytes.length .unterminatedList)
  /-- There cannot be as many items as are asked for. -/
  | miscounted {name : String} {fields : List Field} {repetition : Repetition}
      {condition : Option Condition} {offset : Nat} {count : Int}
      (asked : (∃ n : Nat, repetition = .fixed n ∧ count = n) ∨
        ∃ reference zeroBased, repetition = .counted reference zeroBased)
      (place : offset ≤ bytes.length)
      (wrong : count < 0 ∨ (bytes.length - offset : Nat) < count * max 1 (Field.minWidths fields)) :
    Stops bytes path (.group name fields repetition condition) (.invalidCount path offset count)
  /-- A list without a count comes to an item that takes up no bytes. -/
  | idle {name : String} {fields : List Field} {repetition : Repetition}
      {condition : Option Condition} {offset index : Nat} {children : List Node}
      (listed : repetition = .untilEnd ∨ repetition = .zeroTerminated) (place : offset ≤ bytes.length)
      (stays : decodeFields CountBound.fitting fields [] (path.index index)
        ⟨offset, bytes.drop offset⟩ = .ok (children, ⟨offset, bytes.drop offset⟩)) :
    Stops bytes path (.group name fields repetition condition)
      (.invalidCount path offset (index + 1))

def Explained (bytes : Bytes) (parent : Path) (fields : List Field) (error : CodecError) : Prop :=
  ∃ way field, Declares fields way field ∧ Stops bytes (parent ++ way) field error

structure Input.Within (bytes : Bytes) (input : Input) : Prop where
  place : input.offset ≤ bytes.length
  left : input.bytes = bytes.drop input.offset

section Within

variable {bytes : Bytes} {input rest : Input}

theorem Input.Within.remaining (within : input.Within bytes) :
    input.remaining = bytes.length - input.offset := by
  rw [Input.remaining, within.left, List.length_drop]

theorem Input.Within.ended (within : input.Within bytes) (ended : input.atEnd = true) :
    input.offset = bytes.length := by
  have none : input.remaining = 0 := by simpa [Input.atEnd, Input.remaining] using ended
  have place := within.place
  rw [within.remaining] at none
  omega

theorem Input.Within.after (within : input.Within bytes) {taken : Bytes}
    (same : input.bytes = taken ++ rest.bytes) (place : rest.offset = input.offset + taken.length) :
    rest.Within bytes := by
  have split : bytes.drop input.offset = taken ++ rest.bytes := within.left.symm.trans same
  have length := congrArg List.length split
  rw [List.length_drop, List.length_append] at length
  have before := within.place
  constructor
  · omega
  · rw [place, ← List.drop_drop, split, List.drop_left]

theorem FieldRead.after {field : Field} {earlier : List Node} {node : Node}
    (read : FieldRead field earlier input node rest) (within : input.Within bytes) :
    rest.Within bytes := by
  refine within.after read.bytes ?_
  rw [← read.stop, read.laid.stop_eq, Field.Laid.length_bytes field _ node read.laid]

theorem FieldsRead.after {fields : List Field} {earlier nodes : List Node}
    (read : FieldsRead fields earlier input nodes rest) (within : input.Within bytes) :
    rest.Within bytes :=
  within.after read.bytes (Field.LaidAll.length_bytes _ _ _ _ read.laid)

end Within

section Scalars

variable {bytes : Bytes} {input : Input} (path : Path) (name : String)

theorem take_stops (type : ScalarType) (within : input.Within bytes) (n : Nat) :
    FailsWith (Stops bytes path (.scalar name type)) (input.take n path) := by
  unfold Input.take
  cases taken : input.take? n with
  | some taken => exact .ok _
  | none =>
    have short : input.remaining < n := by
      simpa [Input.take?, Bytes.split?, Input.remaining] using taken
    rw [within.remaining] at short ⊢
    exact .throw (.truncated within.place short)

theorem decodeScalar_stops (type : ScalarType) (within : input.Within bytes) :
    FailsWith (Stops bytes path (.scalar name type)) (decodeScalar type path input) := by
  refine FailsWith.bind ?_ fun _ _ => .ok _
  have takes := take_stops path name type within
  cases type with
  | int format | enumeration format _ => exact (takes _).bind fun _ _ => .ok _
  | fixedString length => exact (takes length).bind fun _ _ => .ok _
  | boolean wide => exact (takes _).bind fun _ _ => .ok _
  | pascalString =>
    refine (takes 1).bind ?_
    rintro ⟨length, body⟩ taken
    obtain ⟨same, one, place⟩ := take_eq_ok.mp taken
    have after := within.after same (by rw [place, one])
    exact (take_stops path name _ after _).bind fun _ _ => .ok _

end Scalars

section Items

variable {bytes : Bytes} {fields : List Field} {name : String} {condition : Option Condition}
  {path : Path} {errors : CodecError → Prop}

/-- The items of a group are read from what is left of the bytes, and what is left after them is
what they leave. -/
theorem decodeItem_after {index : Nat} {input rest : Input} {node : Node}
    (read : decodeItem CountBound.fitting fields path index input = .ok (node, rest))
    (within : input.Within bytes) : rest.Within bytes ∧ input.offset ≤ rest.offset := by
  obtain ⟨children, read, _⟩ := decodeItem_eq_ok.mp read
  have read := decodeFields_reads CountBound.natural_fitting _ _ _ _ _ _ read
  exact ⟨read.after within, read.laid.le⟩

theorem decodeTimes_fails
    (each : ∀ index input, input.Within bytes →
      FailsWith errors (decodeItem CountBound.fitting fields path index input))
    {count index : Nat} {input : Input} (within : input.Within bytes) :
    FailsWith errors
      (decodeTimes (decodeItem CountBound.fitting fields path) count index input) := by
  induction count generalizing index input with
  | zero => exact .ok _
  | succ count ih =>
    refine (each index input within).bind ?_
    rintro ⟨node, rest⟩ read
    exact (ih (decodeItem_after read within).1).bind fun _ _ => .ok _

/-- An item that leaves as many bytes as there were has read none. -/
theorem idle_fails {repetition : Repetition}
    (stops : ∀ error, Stops bytes path (.group name fields repetition condition) error → errors error)
    {index : Nat} {input rest : Input} {node : Node}
    (listed : repetition = .untilEnd ∨ repetition = .zeroTerminated) (within : input.Within bytes)
    (read : decodeItem CountBound.fitting fields path index input = .ok (node, rest))
    (stays : ¬ rest.remaining < input.remaining) :
    errors (.invalidCount path input.offset (index + 1)) := by
  obtain ⟨further, onward⟩ := decodeItem_after read within
  obtain ⟨children, read, _⟩ := decodeItem_eq_ok.mp read
  have place := further.place
  rw [within.remaining, further.remaining] at stays
  have same : rest.offset = input.offset := by omega
  obtain ⟨start, left⟩ := input
  obtain ⟨stop, last⟩ := rest
  obtain rfl : stop = start := same
  obtain rfl : left = bytes.drop stop := within.left
  obtain rfl : last = bytes.drop stop := further.left
  exact stops _ (.idle listed within.place read)

variable {repetition : Repetition}
  (each : ∀ index input, input.Within bytes →
    FailsWith errors (decodeItem CountBound.fitting fields path index input))
  (stops : ∀ error, Stops bytes path (.group name fields repetition condition) error → errors error)
include each stops

theorem decodeToEnd_fails (listed : repetition = .untilEnd ∨ repetition = .zeroTerminated)
    {index : Nat} {input : Input} (within : input.Within bytes) :
    FailsWith errors
      (decodeToEnd (decodeItem CountBound.fitting fields path) path index input) := by
  fun_induction decodeToEnd (decodeItem CountBound.fitting fields path) path index input with
  | case1 => exact .ok _
  | case2 index input _ ih =>
    refine (each index input within).bind ?_
    rintro ⟨node, rest⟩ read
    dsimp only
    split
    · next shorter =>
      exact (ih rest shorter (decodeItem_after read within).1).bind fun _ _ => .ok _
    · next stays => exact .throw (idle_fails stops listed within read stays)

theorem decodeToZero_fails (listed : repetition = .zeroTerminated) {index : Nat} {input : Input}
    (within : input.Within bytes) :
    FailsWith errors
      (decodeToZero (decodeItem CountBound.fitting fields path) path index input) := by
  subst listed
  fun_induction decodeToZero (decodeItem CountBound.fitting fields path) path index input with
  | case1 index input none =>
    have ended := within.ended (by simp [Input.atEnd, none])
    rw [ended]
    exact .throw (stops _ .unterminated)
  | case2 => exact .ok _
  | case3 index input _ _ ih =>
    refine (each index input within).bind ?_
    rintro ⟨node, rest⟩ read
    dsimp only
    split
    · next shorter =>
      exact (ih rest shorter (decodeItem_after read within).1).bind fun _ _ => .ok _
    · next stays => exact .throw (idle_fails stops (.inr rfl) within read stays)

theorem decodeCount_fails {count : Int}
    (asked : (∃ n : Nat, repetition = .fixed n ∧ count = n) ∨
      ∃ reference zeroBased, repetition = .counted reference zeroBased)
    {input : Input} (within : input.Within bytes) :
    FailsWith errors
      (decodeCount CountBound.fitting (Field.minWidths fields) count
        (decodeItem CountBound.fitting fields path) path input) := by
  unfold decodeCount
  split
  · exact decodeTimes_fails each within
  · next misfit =>
    refine .throw (stops _ (.miscounted asked within.place ?_))
    rw [CountBound.fitting, within.remaining, Nat.max_comm, Bool.and_eq_true, decide_eq_true_eq,
      decide_eq_true_eq, Classical.not_and_iff_not_or_not, Int.not_le, Int.not_le] at misfit
    exact misfit

theorem decodeItems_fails {siblings : List Node}
    (counted : ∀ reference zeroBased, repetition = .counted reference zeroBased →
      ∃ n, siblingInteger? siblings reference = some n)
    {input : Input} (within : input.Within bytes) :
    FailsWith errors
      (decodeItems CountBound.fitting (Field.minWidths fields) repetition siblings
        (decodeItem CountBound.fitting fields path) path input) := by
  cases repetition with
  | fixed count => exact decodeCount_fails each stops (.inl ⟨count, rfl, rfl⟩) within
  | counted reference zeroBased =>
    obtain ⟨n, integer⟩ := counted reference zeroBased rfl
    rw [decodeItems, storedCount_eq_ok.mpr ⟨n, integer, rfl⟩, ok_bind]
    exact decodeCount_fails each stops (.inr ⟨reference, zeroBased, rfl⟩) within
  | untilEnd => exact decodeToEnd_fails each stops (.inl rfl) within
  | zeroTerminated => exact decodeToZero_fails each stops rfl within

end Items

section Explained

variable {bytes : Bytes} {parent : Path} {error : CodecError} {name : String} {fields : List Field}

theorem Declares.among {field target : Field} {way : Path} (declares : Declares [field] way target)
    (member : field ∈ fields) : Declares fields way target := by
  cases declares with
  | here only => exact .here (List.mem_singleton.mp only ▸ member)
  | composite only below => exact .composite (List.mem_singleton.mp only ▸ member) below
  | item index only below => exact .item index (List.mem_singleton.mp only ▸ member) below

theorem Declares.later {field target : Field} {way : Path} (declares : Declares fields way target) :
    Declares (field :: fields) way target := by
  cases declares with
  | here member => exact .here (List.mem_cons_of_mem _ member)
  | composite member below => exact .composite (List.mem_cons_of_mem _ member) below
  | item index member below => exact .item index (List.mem_cons_of_mem _ member) below

theorem Explained.among {field : Field} (explained : Explained bytes parent [field] error)
    (member : field ∈ fields) : Explained bytes parent fields error := by
  obtain ⟨way, target, declares, stops⟩ := explained
  exact ⟨way, target, declares.among member, stops⟩

theorem Stops.explained {field : Field} (stops : Stops bytes (parent.child field.name) field error) :
    Explained bytes parent [field] error :=
  ⟨[.name field.name], field, .here (List.mem_singleton_self field), stops⟩

theorem Explained.composite (explained : Explained bytes (parent.child name) fields error) :
    Explained bytes parent [.composite name fields] error := by
  obtain ⟨way, target, declares, stops⟩ := explained
  refine ⟨.name name :: way, target, .composite (List.mem_singleton_self _) declares, ?_⟩
  rwa [Path.child, List.append_assoc] at stops

theorem Explained.item {repetition : Repetition} {condition : Option Condition} {index : Nat}
    (explained : Explained bytes ((parent.child name).index index) fields error) :
    Explained bytes parent [.group name fields repetition condition] error := by
  obtain ⟨way, target, declares, stops⟩ := explained
  refine ⟨.name name :: .index index :: way, target,
    .item index (List.mem_singleton_self _) declares, ?_⟩
  rwa [Path.index, Path.child, List.append_assoc, List.append_assoc] at stops

theorem checkStart_fails (field : Field) {input : Input} (within : input.Within bytes) :
    FailsWith (Explained bytes parent [field])
      (checkStart field (parent.child field.name) input) := by
  unfold checkStart
  split
  · next early =>
    rw [within.ended early.2]
    exact .throw (Stops.endedEarly early.1).explained
  · exact .ok ()

end Explained

mutual
theorem decodeField_fails {bytes : Bytes} :
    (field : Field) → field.Nested (·.check = .ok ()) → (earlier : List Field) →
      Template.Follows earlier field → (origin : Nat) → (before : List Node) → (input : Input) →
      Field.LaidAll Settled earlier origin before input.offset → input.Within bytes →
      (parent : Path) → FailsWith (Explained bytes parent [field])
        (decodeField CountBound.fitting field before (parent.child field.name) input)
  | .scalar name type, _, _, _, _, before, input, _, within, parent => by
    rw [decodeField]
    refine (checkStart_fails _ within).bind fun _ _ => ?_
    have scalar := decodeScalar_stops (parent.child name) name type within
    exact (scalar.imp fun _ stops => stops.explained).bind fun _ _ => .ok _
  | .composite name fields, ⟨checked, nested⟩, _, _, _, before, input, _, within, parent => by
    rw [decodeField]
    refine (checkStart_fails _ within).bind fun _ _ => ?_
    have inner := decodeFields_fails fields nested [] checked input.offset [] input ⟨rfl, rfl⟩ within
      (parent.child name)
    exact (inner.imp fun _ explained => explained.composite).bind fun _ _ => .ok _
  | .group name fields repetition condition, ⟨checked, nested⟩, earlier, follows, _, before, input,
      already, within, parent => by
    rw [decodeField]
    refine (checkStart_fails _ within).bind fun _ _ => ?_
    -- The fields that the group refers to have been read, so its condition and count are known.
    obtain ⟨present, verdict⟩ := follows.verdict? already
    have verdict : verdict? condition before = some present := verdict
    rw [isPresent_eq_ok.mpr verdict, ok_bind]
    cases present with
    | false => exact .ok _
    | true =>
      have counted : ∀ reference zeroBased, repetition = .counted reference zeroBased →
          ∃ n, siblingInteger? before reference = some n := by
        rintro reference zeroBased rfl
        exact follows.siblingInteger? already rfl
      refine FailsWith.bind ?_ fun _ _ => .ok _
      have stops : ∀ error, Stops bytes (parent.child name) (.group name fields repetition condition)
          error → Explained bytes parent [.group name fields repetition condition] error :=
        fun _ stops => stops.explained
      refine decodeItems_fails ?_ stops counted within
      intro index input within
      have inner := decodeFields_fails fields nested [] checked input.offset [] input ⟨rfl, rfl⟩
        within ((parent.child name).index index)
      exact (inner.imp fun _ explained => explained.item).bind fun _ _ => .ok _

theorem decodeFields_fails {bytes : Bytes} :
    (fields : List Field) → Field.AllNested (·.check = .ok ()) fields → (earlier : List Field) →
      Template.checkFrom earlier fields = .ok () → (origin : Nat) → (before : List Node) →
      (input : Input) → Field.LaidAll Settled earlier origin before input.offset →
      input.Within bytes → (parent : Path) → FailsWith (Explained bytes parent fields)
        (decodeFields CountBound.fitting fields before parent input)
  | [], _, _, _, _, _, _, _, _, _ => .ok _
  | field :: fields, ⟨formed, nested⟩, earlier, checked, origin, before, input, already, within,
      parent => by
    obtain ⟨follows, checked⟩ := Template.checkFrom_cons.mp checked
    have first := decodeField_fails field formed earlier follows origin before input already within
      parent
    rw [decodeFields]
    refine (first.imp fun _ explained => explained.among (List.mem_cons_self ..)).bind ?_
    rintro ⟨node, rest⟩ read
    have read := decodeField_reads CountBound.natural_fitting field before _ input node rest read
    have others := decodeFields_fails fields nested (earlier ++ [field]) checked origin
      (before ++ [node]) rest (read.stop ▸ already.append read.laid) (read.after within) parent
    refine (others.imp ?_).bind fun _ _ => .ok _
    rintro error ⟨way, target, declares, stops⟩
    exact ⟨way, target, declares.later, stops⟩
end

section Errors

variable {bytes : Bytes} {path : Path} {field : Field} {error : CodecError}

theorem Stops.path_eq (stops : Stops bytes path field error) : error.path = path := by
  cases stops <;> rfl

theorem Stops.offset_le (stops : Stops bytes path field error) :
    ∃ offset, error.offset? = some offset ∧ offset ≤ bytes.length := by
  cases stops with
  | truncated place => exact ⟨_, rfl, place⟩
  | endedEarly | unterminated => exact ⟨_, rfl, Nat.le_refl _⟩
  | miscounted _ place => exact ⟨_, rfl, place⟩
  | idle _ place => exact ⟨_, rfl, place⟩

end Errors

namespace Record

/-- Data that a template does not describe is refused at a place within it, for one of the reasons
that stop a decoder at the field where the path of the error leads. Strict reading refuses data that
goes on after the last field too, as the record's own fault. -/
theorem decode_error_explained {template : Template} (formed : template.WellFormed)
    {settings : Settings} {bytes : Bytes} {error : CodecError}
    (failed : decode template settings bytes = .error error) :
    (∃ offset, error.offset? = some offset ∧ offset ≤ bytes.length) ∧
      ((∃ field, Declares template error.path field ∧ Stops bytes error.path field error) ∨
        settings.strict = true ∧ ∃ offset, offset < bytes.length ∧
          error = .mismatch Path.root offset (.trailingBytes (bytes.length - offset))) := by
  have within : Input.Within bytes ⟨0, bytes⟩ := ⟨Nat.zero_le _, rfl⟩
  have fails := decodeFields_fails template formed.2 [] formed.1 0 [] ⟨0, bytes⟩ ⟨rfl, rfl⟩ within
    Path.root
  unfold decode decodeWith at failed
  cases read : decodeFields CountBound.fitting template [] Path.root ⟨0, bytes⟩ with
  | error other =>
    obtain ⟨way, field, declares, stops⟩ := fails.among other read
    obtain rfl : other = error := by simpa [read, bind, Except.bind] using failed
    have stops : Stops bytes way field other := stops
    exact ⟨stops.offset_le, .inl ⟨field, stops.path_eq.symm ▸ declares, stops.path_eq.symm ▸ stops⟩⟩
  | ok result =>
    obtain ⟨nodes, rest⟩ := result
    have after : rest.Within bytes :=
      (decodeFields_reads CountBound.natural_fitting _ _ _ _ _ _ read).after within
    rw [read, ok_bind] at failed
    dsimp only at failed
    split at failed
    · next strict =>
      have more : rest.remaining ≠ 0 := by simpa [Input.atEnd, Input.remaining] using strict.2
      obtain rfl := Except.error.inj failed
      rw [after.remaining] at more ⊢
      exact ⟨⟨_, rfl, after.place⟩, .inr ⟨strict.1, rest.offset, by omega, rfl⟩⟩
    · contradiction

theorem decode_error_explained_sample : ∃ field,
    decode Template.sample {} [1, 0, 0, 1, 0, 2, 0, 3, 97, 98, 1, 65, 5, 66] =
        .error (.truncated [.name "names", .index 1, .name "text"] 13 5 1) ∧
      Declares Template.sample [.name "names", .index 1, .name "text"] field ∧
      Stops [1, 0, 0, 1, 0, 2, 0, 3, 97, 98, 1, 65, 5, 66] [.name "names", .index 1, .name "text"]
        field (.truncated [.name "names", .index 1, .name "text"] 13 5 1) := by
  have failed : decode Template.sample {} [1, 0, 0, 1, 0, 2, 0, 3, 97, 98, 1, 65, 5, 66] =
      .error (.truncated [.name "names", .index 1, .name "text"] 13 5 1) := by cbv
  rcases (decode_error_explained Template.sample_wellFormed failed).2 with
    ⟨field, declares, stops⟩ | ⟨strict, _⟩
  · exact ⟨field, failed, declares, stops⟩
  · contradiction

end Record
end ResourceTemplate
