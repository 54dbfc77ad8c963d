import ResourceTemplate.Proofs.FieldSteps

/-! A decoded tree is laid out and settled, and it stands for exactly the bytes that were read.
This holds of every template, checked or not, and of every bound that lets no negative count
pass. -/
namespace ResourceTemplate

def CountBound.Natural (bound : CountBound) : Prop :=
  ∀ minWidth count remaining, bound minWidth count remaining = true → 0 ≤ count

theorem CountBound.natural_fitting : CountBound.fitting.Natural := by
  intro minWidth count remaining fits
  simp only [CountBound.fitting, Bool.and_eq_true, decide_eq_true_eq] at fits
  exact fits.1

theorem countValue_toNat {zeroBased : Bool} {stored count : Int}
    (counted : (if zeroBased then stored + 1 else stored) = count) (natural : 0 ≤ count) :
    countValue zeroBased count.toNat = stored := by
  cases zeroBased <;> simp only [countValue, Bool.false_eq_true, if_true, if_false] at * <;> omega

theorem firstZero_eq_none {within : Node → Option Path} {starts : Node → Bool} {index : Nat}
    {nodes : List Node} :
    firstZero within starts index nodes = none ↔
      ∀ node ∈ nodes, within node = none ∧ starts node = false := by
  induction nodes generalizing index with
  | nil => simp [firstZero]
  | cons node nodes ih =>
    rw [firstZero, Option.or_eq_none_iff, Option.map_eq_none_iff, List.forall_mem_cons, and_assoc]
    cases starts node <;> simp [ih]

/-- What was read of a field list after some siblings. -/
structure FieldsRead (fields : List Field) (earlier : List Node) (input : Input)
    (nodes : List Node) (rest : Input) : Prop where
  settled : ∀ pair ∈ fields.zip nodes, pair.1.Settled (earlier ++ nodes) pair.2
  laid : Field.LaidAll Settled fields input.offset nodes rest.offset
  bytes : input.bytes = Field.bytesAll fields nodes ++ rest.bytes
  clean : Field.zeroItems? fields nodes = none

structure FieldRead (field : Field) (earlier : List Node) (input : Input) (node : Node)
    (rest : Input) : Prop where
  settled : field.Settled earlier node
  laid : field.Laid Settled input.offset node
  stop : node.stop = rest.offset
  bytes : input.bytes = field.bytes node ++ rest.bytes
  clean : field.zeroItem? node = none

def ItemDecoder.Reads (item : ItemDecoder) (fields : List Field) : Prop :=
  ∀ index input node rest, item index input = .ok (node, rest) →
    ∃ children, node = .branch (toString index) (input.spanTo rest) .item children ∧
      FieldsRead fields [] input children rest

structure ItemsRead (fields : List Field) (index : Nat) (input : Input) (items : List Node)
    (stop : Nat) (rest : Bytes) : Prop where
  laid : ItemsLaid (Field.LevelLaid Settled fields) index input.offset items stop
  bytes : input.bytes = items.flatMap (fun item => Field.bytesAll fields item.children) ++ rest
  clean : ∀ item ∈ items, Field.zeroItems? fields item.children = none

namespace ItemsRead

variable {fields : List Field} {index stop : Nat} {input rest : Input} {items : List Node}
  {last : Bytes}

theorem nil : ItemsRead fields index input [] input.offset input.bytes :=
  ⟨rfl, rfl, by simp⟩

theorem cons {children : List Node} (read : FieldsRead fields [] input children rest)
    (follow : ItemsRead fields (index + 1) rest items stop last) :
    ItemsRead fields index input
      (.branch (toString index) (input.spanTo rest) .item children :: items) stop last := by
  refine ⟨.cons ⟨read.settled, read.laid⟩ follow.laid, ?_, ?_⟩
  · rw [read.bytes, follow.bytes, List.flatMap_cons, List.append_assoc]
    rfl
  · exact List.forall_mem_cons.mpr ⟨read.clean, follow.clean⟩

end ItemsRead

section Items

variable {fields : List Field} {item : ItemDecoder} (reads : item.Reads fields)
include reads

theorem decodeTimes_reads {count index : Nat} {input rest : Input} {items : List Node}
    (read : decodeTimes item count index input = .ok (items, rest)) :
    items.length = count ∧ ItemsRead fields index input items rest.offset rest.bytes := by
  induction count generalizing index input items with
  | zero =>
    simp only [decodeTimes, pure_eq_ok, Prod.mk.injEq] at read
    obtain ⟨rfl, rfl⟩ := read
    exact ⟨rfl, .nil⟩
  | succ count ih =>
    simp only [decodeTimes, bind_eq_ok, pure_eq_ok, Prod.mk.injEq, Prod.exists] at read
    obtain ⟨node, middle, first, nodes, _, follow, rfl, rfl⟩ := read
    obtain ⟨children, rfl, level⟩ := reads _ _ _ _ first
    obtain ⟨length, follow⟩ := ih follow
    exact ⟨congrArg (· + 1) length, .cons level follow⟩

theorem decodeToEnd_reads {path : Path} {index : Nat} {input rest : Input} {items : List Node}
    (read : decodeToEnd item path index input = .ok (items, rest)) :
    ItemsRead fields index input items rest.offset rest.bytes := by
  fun_induction decodeToEnd item path index input generalizing items rest with
  | case1 index input ended =>
    simp only [pure_eq_ok, Prod.mk.injEq] at read
    obtain ⟨rfl, rfl⟩ := read
    exact .nil
  | case2 index input ended ih =>
    obtain ⟨⟨node, middle⟩, first, read⟩ := bind_eq_ok.mp read
    dsimp only at read
    split at read
    · next shorter =>
      simp only [bind_eq_ok, pure_eq_ok, Prod.mk.injEq, Prod.exists] at read
      obtain ⟨nodes, _, follow, rfl, rfl⟩ := read
      obtain ⟨children, rfl, level⟩ := reads _ _ _ _ first
      exact .cons level (ih _ shorter follow)
    · contradiction

/-- No item of a zero-terminated list starts with the byte that would end the list. -/
theorem decodeToZero_reads {path : Path} {index : Nat} {input rest : Input} {items : List Node}
    (read : decodeToZero item path index input = .ok (items, rest)) :
    ∃ stop, ItemsRead fields index input items stop (0 :: rest.bytes) ∧
      rest.offset = stop + 1 ∧
      ∀ item ∈ items, (Field.bytesAll fields item.children).head? ≠ some 0 := by
  fun_induction decodeToZero item path index input generalizing items rest with
  | case1 => contradiction
  | case2 index input bytes starts =>
    simp only [pure_eq_ok, Prod.mk.injEq] at read
    obtain ⟨rfl, rfl⟩ := read
    exact ⟨input.offset, starts ▸ .nil, rfl, by simp⟩
  | case3 index input nonempty nonzero ih =>
    obtain ⟨⟨node, middle⟩, first, read⟩ := bind_eq_ok.mp read
    dsimp only at read
    split at read
    · next shorter =>
      simp only [bind_eq_ok, pure_eq_ok, Prod.mk.injEq, Prod.exists] at read
      obtain ⟨nodes, _, follow, rfl, rfl⟩ := read
      obtain ⟨children, rfl, level⟩ := reads _ _ _ _ first
      obtain ⟨stop, follow, moved, apart⟩ := ih _ shorter follow
      refine ⟨stop, .cons level follow, moved, List.forall_mem_cons.mpr ⟨?_, apart⟩⟩
      intro zero
      obtain ⟨tail, start⟩ := List.head?_eq_some_iff.mp zero
      have whole := level.bytes
      rw [Node.children_branch] at start
      rw [start, List.cons_append] at whole
      exact nonzero _ whole
    · contradiction

theorem decodeCount_reads {bound : CountBound} (natural : bound.Natural) {minWidth : Nat}
    {count : Int} {path : Path} {input rest : Input} {items : List Node}
    (read : decodeCount bound minWidth count item path input = .ok (items, rest)) :
    0 ≤ count ∧ items.length = count.toNat ∧
      ItemsRead fields 0 input items rest.offset rest.bytes := by
  unfold decodeCount at read
  split at read
  · next fits => exact ⟨natural _ _ _ fits, decodeTimes_reads reads read⟩
  · nomatch read

/-- The items of a group that is present, with all that its repetition asks for. -/
theorem decodeItems_reads {bound : CountBound} (natural : bound.Natural) {minWidth : Nat}
    {repetition : Repetition} {siblings : List Node} {path : Path} {input rest : Input}
    {items : List Node}
    (read : decodeItems bound minWidth repetition siblings item path input = .ok (items, rest)) :
    ∃ stop, ItemsRead fields 0 input items stop (repetition.ending ++ rest.bytes) ∧
      rest.offset = stop + repetition.ending.length ∧
      (repetition = .zeroTerminated →
        ∀ item ∈ items, (Field.bytesAll fields item.children).head? ≠ some 0) ∧
      (∀ count, repetition = .fixed count → items.length = count) ∧
      ∀ countField zeroBased, repetition = .counted countField zeroBased →
        siblingInteger? siblings countField = some (countValue zeroBased items.length) := by
  cases repetition with
  | fixed count =>
    obtain ⟨_, length, items⟩ := decodeCount_reads reads natural read
    exact ⟨_, items, rfl, nofun, fun _ same => by cases same; simpa using length, nofun⟩
  | counted countField zeroBased =>
    obtain ⟨count, found, read⟩ := bind_eq_ok.mp read
    obtain ⟨stored, found, counted⟩ := storedCount_eq_ok.mp found
    obtain ⟨nonneg, length, items⟩ := decodeCount_reads reads natural read
    refine ⟨_, items, rfl, nofun, nofun, ?_⟩
    rintro _ _ ⟨⟩
    rw [found, length, countValue_toNat counted nonneg]
  | untilEnd => exact ⟨_, decodeToEnd_reads reads read, rfl, nofun, nofun, nofun⟩
  | zeroTerminated =>
    obtain ⟨stop, items, moved, apart⟩ := decodeToZero_reads reads read
    exact ⟨stop, items, moved, fun _ => apart, nofun, nofun⟩

end Items

mutual
theorem decodeField_reads {bound : CountBound} (natural : bound.Natural) :
    (field : Field) → (earlier : List Node) → (path : Path) → (input : Input) →
      (node : Node) → (rest : Input) →
      decodeField bound field earlier path input = .ok (node, rest) →
      FieldRead field earlier input node rest
  | .scalar name type, earlier, path, input, node, rest, read => by
    obtain ⟨_, held, taken, rfl⟩ := decodeField_scalar.mp read
    obtain ⟨holds, bytes, moved⟩ := ScalarType.of_decodeScalar taken
    have span : input.spanTo rest = ⟨input.offset, type.encodedLength held.value⟩ := by
      simp [Input.spanTo, moved]
    exact ⟨trivial, ⟨held, by rw [span], holds⟩, by simp [Node.stop, span, moved], bytes, rfl⟩
  | .composite name fields, earlier, path, input, node, rest, read => by
    obtain ⟨_, children, inner, rfl⟩ := decodeField_composite.mp read
    have level := decodeFields_reads natural fields [] path input children rest inner
    exact ⟨trivial, Field.LevelLaid.composite ⟨level.settled, level.laid⟩,
      Nat.add_sub_cancel' level.laid.le, level.bytes, level.clean⟩
  | .group name fields repetition condition, earlier, path, input, node, rest, read => by
    obtain ⟨_, ⟨verdict, rfl, rfl⟩ | ⟨verdict, items, several, rfl⟩⟩ := decodeField_group.mp read
    · exact ⟨GroupSettled.of_absent verdict rfl rfl, Field.laid_absent, rfl, rfl, rfl⟩
    · have reads : (decodeItem bound fields path).Reads fields := by
        intro index input node rest read
        obtain ⟨children, inner, rfl⟩ := decodeItem_eq_ok.mp read
        exact ⟨children, rfl, decodeFields_reads natural fields [] _ input children rest inner⟩
      obtain ⟨stop, read, moved, apart, fixed, counted⟩ := decodeItems_reads reads natural several
      have after := read.laid.le
      have length : input.offset + (rest.offset - input.offset) = rest.offset := by omega
      have present : repetition = .zeroTerminated → 0 < rest.offset - input.offset := by
        rintro rfl
        rw [moved]
        simp only [Repetition.ending, if_true, List.length_singleton]
        omega
      refine ⟨⟨.of_present verdict fixed present, fun _ => counted⟩, ?_, length, ?_, ?_⟩
      · rw [Input.spanTo, moved]
        exact read.laid.group
      · rw [read.bytes, Field.bytes, Node.children_branch, Node.length_branch, Input.spanTo,
          Repetition.closing_eq_ending present, List.append_assoc]
      · rw [Field.zeroItem?, firstZero_eq_none]
        intro item member
        exact ⟨read.clean item member, by simpa using fun zero => apart zero item member⟩

theorem decodeFields_reads {bound : CountBound} (natural : bound.Natural) :
    (fields : List Field) → (earlier : List Node) → (parent : Path) → (input : Input) →
      (nodes : List Node) → (rest : Input) →
      decodeFields bound fields earlier parent input = .ok (nodes, rest) →
      FieldsRead fields earlier input nodes rest
  | [], earlier, parent, input, nodes, rest, read => by
    simp only [decodeFields, pure_eq_ok, Prod.mk.injEq] at read
    obtain ⟨rfl, rfl⟩ := read
    exact ⟨by simp, ⟨rfl, rfl⟩, rfl, rfl⟩
  | field :: fields, earlier, parent, input, nodes, rest, read => by
    obtain ⟨node, middle, nodes, first, follow, rfl⟩ := decodeFields_cons.mp read
    have first := decodeField_reads natural field earlier _ input node middle first
    have follow := decodeFields_reads natural fields (earlier ++ [node]) parent middle nodes _ follow
    refine ⟨?_, ⟨node, nodes, rfl, first.laid, first.stop ▸ follow.laid⟩, ?_, ?_⟩
    · rw [List.zip_cons_cons, List.forall_mem_cons]
      exact ⟨first.settled.append, by simpa using follow.settled⟩
    · rw [first.bytes, follow.bytes, Field.bytesAll, List.append_assoc]
    · simp [Field.zeroItems?, first.clean, follow.clean]
end

end ResourceTemplate
