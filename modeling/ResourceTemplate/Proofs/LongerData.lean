import ResourceTemplate.Proofs.Runs

/-! Reading the same tree from more bytes, or under another bound on counts. What a template reads
without looking at the end of the data it reads again when bytes follow, and leaves these as well. -/
namespace ResourceTemplate

namespace Input

def followedBy (more : Bytes) (input : Input) : Input := ⟨input.offset, input.bytes ++ more⟩

variable {more : Bytes} {input rest : Input}

@[simp] theorem followedBy_nil (input : Input) : input.followedBy [] = input := by
  simp [followedBy]

@[simp] theorem remaining_followedBy (more : Bytes) (input : Input) :
    (input.followedBy more).remaining = input.remaining + more.length := by
  simp [followedBy, remaining]

theorem take_followedBy {n : Nat} {path : Path} {bytes : Bytes}
    (taken : input.take n path = .ok (bytes, rest)) :
    (input.followedBy more).take n path = .ok (bytes, rest.followedBy more) := by
  obtain ⟨whole, length, moved⟩ := take_eq_ok.mp taken
  exact take_eq_ok.mpr ⟨by simp [followedBy, whole], length, moved⟩

end Input

section Scalars

variable {more : Bytes} {path : Path} {input rest : Input}

theorem ScalarType.read_followedBy {type : ScalarType} {value : Value} {raw : Option Nat}
    (read : type.read path input = .ok (value, raw, rest)) :
    type.read path (input.followedBy more) = .ok (value, raw, rest.followedBy more) := by
  cases type with
  | int | enumeration | fixedString | boolean =>
    obtain ⟨⟨bytes, last⟩, taken, made⟩ := bind_eq_ok.mp read
    obtain ⟨rfl, rfl, rfl⟩ : _ ∧ _ ∧ _ := by simpa using pure_eq_ok.mp made
    exact bind_eq_ok.mpr ⟨_, Input.take_followedBy taken, rfl⟩
  | pascalString =>
    obtain ⟨⟨length, body⟩, first, read⟩ := bind_eq_ok.mp read
    obtain ⟨⟨bytes, last⟩, second, made⟩ := bind_eq_ok.mp read
    obtain ⟨rfl, rfl, rfl⟩ : _ ∧ _ ∧ _ := by simpa using pure_eq_ok.mp made
    exact bind_eq_ok.mpr ⟨_, Input.take_followedBy first,
      bind_eq_ok.mpr ⟨_, Input.take_followedBy second, rfl⟩⟩

theorem decodeScalar_followedBy {type : ScalarType} {held : Scalar}
    (read : decodeScalar type path input = .ok (held, rest)) :
    decodeScalar type path (input.followedBy more) = .ok (held, rest.followedBy more) := by
  obtain ⟨⟨value, raw, last⟩, parts, made⟩ := bind_eq_ok.mp read
  obtain ⟨rfl, rfl⟩ := Prod.mk.inj (pure_eq_ok.mp made)
  exact bind_eq_ok.mpr ⟨_, ScalarType.read_followedBy parts, rfl⟩

theorem checkStart_followedBy {field : Field} (started : checkStart field path input = .ok ()) :
    checkStart field path (input.followedBy more) = .ok () := by
  unfold checkStart at started ⊢
  split at started
  · contradiction
  · next early =>
    rw [if_neg]
    · rfl
    · rintro ⟨wide, ended⟩
      exact early ⟨wide, by simp_all [Input.atEnd, Input.followedBy]⟩

end Scalars

/-- Every item that the one reads, the other reads as well when more bytes follow, and it leaves these
bytes. -/
def ItemDecoder.ReadsOn (more : Bytes) (item other : ItemDecoder) : Prop :=
  ∀ index input node rest, item index input = .ok (node, rest) →
    other index (input.followedBy more) = .ok (node, rest.followedBy more)

section Items

variable {more : Bytes} {item other : ItemDecoder} {path : Path} {index : Nat} {input rest : Input}
  {items : List Node}

theorem decodeTimes_followedBy (readsOn : item.ReadsOn more other) {count : Nat}
    (read : decodeTimes item count index input = .ok (items, rest)) :
    decodeTimes other count index (input.followedBy more) = .ok (items, rest.followedBy more) := by
  induction count generalizing index input items with
  | zero =>
    obtain ⟨rfl, rfl⟩ := Prod.mk.inj (pure_eq_ok.mp read)
    rfl
  | succ count ih =>
    obtain ⟨⟨node, middle⟩, first, read⟩ := bind_eq_ok.mp read
    obtain ⟨⟨nodes, last⟩, follow, made⟩ := bind_eq_ok.mp read
    obtain ⟨rfl, rfl⟩ := Prod.mk.inj (pure_eq_ok.mp made)
    exact bind_eq_ok.mpr ⟨_, readsOn _ _ _ _ first, bind_eq_ok.mpr ⟨_, ih follow, rfl⟩⟩

/-- A list without an end of its own ends with the data, so that no bytes may follow. -/
theorem decodeToEnd_again (readsOn : item.ReadsOn [] other)
    (read : decodeToEnd item path index input = .ok (items, rest)) :
    decodeToEnd other path index input = .ok (items, rest) := by
  fun_induction decodeToEnd item path index input generalizing items rest with
  | case1 index input ended =>
    rw [decodeToEnd, if_pos ended]
    exact read
  | case2 index input ended ih =>
    obtain ⟨⟨node, middle⟩, first, read⟩ := bind_eq_ok.mp read
    dsimp only at read
    split at read
    · next shorter =>
      obtain ⟨⟨nodes, last⟩, follow, made⟩ := bind_eq_ok.mp read
      obtain ⟨rfl, rfl⟩ := Prod.mk.inj (pure_eq_ok.mp made)
      have again : other index input = .ok (node, middle) := by
        simpa using readsOn _ _ _ _ first
      rw [decodeToEnd, if_neg ended, again, ok_bind]
      dsimp only
      rw [dif_pos shorter, ih _ shorter follow]
      rfl
    · contradiction

theorem decodeToZero_followedBy (readsOn : item.ReadsOn more other)
    (read : decodeToZero item path index input = .ok (items, rest)) :
    decodeToZero other path index (input.followedBy more) = .ok (items, rest.followedBy more) := by
  fun_induction decodeToZero item path index input generalizing items rest with
  | case1 => contradiction
  | case2 index input bytes starts =>
    obtain ⟨rfl, rfl⟩ := Prod.mk.inj (pure_eq_ok.mp read)
    rw [decodeToZero]
    simp [Input.followedBy, starts, pure, Except.pure]
  | case3 index input nonempty nonzero ih =>
    obtain ⟨⟨node, middle⟩, first, read⟩ := bind_eq_ok.mp read
    dsimp only at read
    split at read
    · next shorter =>
      obtain ⟨⟨nodes, last⟩, follow, made⟩ := bind_eq_ok.mp read
      obtain ⟨rfl, rfl⟩ := Prod.mk.inj (pure_eq_ok.mp made)
      obtain ⟨b, bytes, starts⟩ := List.exists_cons_of_ne_nil fun empty => nonempty empty
      have nonzero : b ≠ 0 := by
        rintro rfl
        exact nonzero bytes starts
      have shorter : (middle.followedBy more).remaining < (input.followedBy more).remaining := by
        simpa using shorter
      rw [decodeToZero]
      simp only [readsOn _ _ _ _ first, ok_bind, dif_pos shorter, ih _ (by simpa using shorter) follow]
      simp [Input.followedBy, starts, nonzero]
    · contradiction

end Items

/-- A count of items that the one bound lets pass, and that can be read, the other lets pass when more
bytes follow. -/
def CountBound.PassesOn (bound other : CountBound) (more : Bytes) (fields : List Field) : Prop :=
  ∀ path count input items rest, bound (Field.minWidths fields) count input.remaining = true →
    decodeTimes (decodeItem bound fields path) count.toNat 0 input = .ok (items, rest) →
    other (Field.minWidths fields) count (input.remaining + more.length) = true

/-- The repetition of the field, if it is a group, ends where it did when more bytes follow. -/
def Field.ReadsOn (bound other : CountBound) (more : Bytes) : Field → Prop
  | .group _ fields (.fixed _) _ | .group _ fields (.counted ..) _ => bound.PassesOn other more fields
  | .group _ _ .untilEnd _ => more = []
  | _ => True

def Template.ReadsOn (bound other : CountBound) (more : Bytes) (template : Template) : Prop :=
  ∀ field ∈ template, field.ReadsOn bound other more

section Fields

variable {bound other : CountBound} {more : Bytes}

theorem decodeCount_followedBy {fields : List Field} (passes : bound.PassesOn other more fields)
    {count : Int} {path : Path} {input rest : Input} {items : List Node}
    (readsOn : (decodeItem bound fields path).ReadsOn more (decodeItem other fields path))
    (read : decodeCount bound (Field.minWidths fields) count (decodeItem bound fields path) path input =
      .ok (items, rest)) :
    decodeCount other (Field.minWidths fields) count (decodeItem other fields path) path
      (input.followedBy more) = .ok (items, rest.followedBy more) := by
  unfold decodeCount at read ⊢
  split at read
  · next fits =>
    rw [if_pos (by simpa using passes path count input items rest fits read)]
    exact decodeTimes_followedBy readsOn read
  · contradiction

mutual
/-- A field that is read before some bytes is read in the same way after which these bytes follow. -/
theorem decodeField_followedBy :
    (field : Field) → field.ReadsOn bound other more →
      field.Nested (Template.ReadsOn bound other more) → (earlier : List Node) → (path : Path) →
      (input : Input) → (node : Node) → (rest : Input) →
      decodeField bound field earlier path input = .ok (node, rest) →
      decodeField other field earlier path (input.followedBy more) = .ok (node, rest.followedBy more)
  | .scalar name type, _, _, earlier, path, input, node, rest, read => by
    obtain ⟨started, held, taken, rfl⟩ := decodeField_scalar.mp read
    exact decodeField_scalar.mpr
      ⟨checkStart_followedBy started, held, decodeScalar_followedBy taken, rfl⟩
  | .composite name fields, _, ⟨kept, nested⟩, earlier, path, input, node, rest, read => by
    obtain ⟨started, children, inner, rfl⟩ := decodeField_composite.mp read
    exact decodeField_composite.mpr ⟨checkStart_followedBy started, children,
      decodeFields_followedBy fields kept nested [] path input children rest inner, rfl⟩
  | .group name fields repetition condition, own, ⟨kept, nested⟩, earlier, path, input, node, rest,
      read => by
    obtain ⟨started, absent | ⟨present, items, several, rfl⟩⟩ := decodeField_group.mp read
    · obtain ⟨absent, rfl, rfl⟩ := absent
      exact decodeField_group.mpr ⟨checkStart_followedBy started, .inl ⟨absent, rfl, rfl⟩⟩
    · have readsOn : (decodeItem bound fields path).ReadsOn more (decodeItem other fields path) := by
        intro index input node rest read
        obtain ⟨children, inner, rfl⟩ := decodeItem_eq_ok.mp read
        exact decodeItem_eq_ok.mpr
          ⟨children, decodeFields_followedBy fields kept nested [] _ input children rest inner, rfl⟩
      refine decodeField_group.mpr
        ⟨checkStart_followedBy started, .inr ⟨present, items, ?_, rfl⟩⟩
      cases repetition with
      | fixed count => exact decodeCount_followedBy own readsOn several
      | counted countField zeroBased =>
        obtain ⟨count, stored, several⟩ := bind_eq_ok.mp several
        exact bind_eq_ok.mpr ⟨count, stored, decodeCount_followedBy own readsOn several⟩
      | untilEnd =>
        obtain rfl : more = [] := own
        rw [Input.followedBy_nil, Input.followedBy_nil]
        exact decodeToEnd_again readsOn several
      | zeroTerminated => exact decodeToZero_followedBy readsOn several

theorem decodeFields_followedBy :
    (fields : List Field) → Template.ReadsOn bound other more fields →
      Field.AllNested (Template.ReadsOn bound other more) fields → (earlier : List Node) →
      (parent : Path) → (input : Input) → (nodes : List Node) → (rest : Input) →
      decodeFields bound fields earlier parent input = .ok (nodes, rest) →
      decodeFields other fields earlier parent (input.followedBy more) =
        .ok (nodes, rest.followedBy more)
  | [], _, _, earlier, parent, input, nodes, rest, read => by
    obtain ⟨rfl, rfl⟩ := Prod.mk.inj (pure_eq_ok.mp read)
    rfl
  | field :: fields, kept, ⟨formed, nested⟩, earlier, parent, input, nodes, rest, read => by
    obtain ⟨own, kept⟩ := List.forall_mem_cons.mp kept
    obtain ⟨node, middle, nodes, first, follow, rfl⟩ := decodeFields_cons.mp read
    exact decodeFields_cons.mpr ⟨node, middle.followedBy more, nodes,
      decodeField_followedBy field own formed earlier _ input node middle first,
      decodeFields_followedBy fields kept nested _ parent middle nodes rest follow, rfl⟩
end

end Fields

/-- A record that is read before some bytes, or under another bound, is read in the same way when these
bytes follow, unless nothing may follow. -/
theorem Record.decodeWith_followedBy {bound other : CountBound} {more : Bytes} {template : Template}
    (readsOn : template.Everywhere (Template.ReadsOn bound other more)) {settings : Settings}
    (ends : settings.strict = true → more = []) {bytes : Bytes} {record : Record}
    (decoded : decodeWith bound template settings bytes = .ok record) :
    decodeWith other template settings (bytes ++ more) =
      .ok { record with trailing := record.trailing ++ more } := by
  obtain ⟨⟨fields, rest⟩, read, made⟩ := bind_eq_ok.mp decoded
  have again := decodeFields_followedBy template readsOn.1 readsOn.2 [] Path.root ⟨0, bytes⟩ fields
    rest read
  refine bind_eq_ok.mpr ⟨_, again, ?_⟩
  dsimp only at made ⊢
  split at made
  · contradiction
  · next allowed =>
    obtain rfl := pure_eq_ok.mp made
    rw [if_neg]
    · rfl
    · rintro ⟨strict, left⟩
      obtain rfl := ends strict
      exact allowed ⟨strict, by simpa using left⟩

/-- A bound that fits still does when more bytes follow. -/
theorem CountBound.passesOn_fitting (more : Bytes) (fields : List Field) :
    CountBound.fitting.PassesOn .fitting more fields := by
  intro path count input items rest fits _
  simp only [CountBound.fitting, Bool.and_eq_true, decide_eq_true_eq] at fits ⊢
  omega

theorem Template.LeavesRest.readsOn {template : Template} (leaves : template.LeavesRest)
    (more : Bytes) : template.ReadsOn .fitting .fitting more := by
  intro field member
  match field with
  | .scalar .. | .composite .. | .group _ _ .zeroTerminated _ => exact trivial
  | .group _ fields (.fixed _) _ | .group _ fields (.counted ..) _ =>
    exact CountBound.passesOn_fitting more fields
  | .group _ _ .untilEnd _ => exact absurd trivial (leaves _ member)

namespace Record

/-- Bytes that follow never change what was read, where no group takes all bytes: they are kept behind
the record as they are. So no fewer bytes than the fields take up can be read at all. -/
theorem decode_append {template : Template} (leaves : template.Everywhere Template.LeavesRest)
    {settings : Settings} (lenient : settings.strict = false) {bytes : Bytes} {record : Record}
    (decoded : decode template settings bytes = .ok record) :
    (∀ more, decode template settings (bytes ++ more) =
      .ok { record with trailing := record.trailing ++ more }) ∧
    ∀ front, front <+: bytes → front.length < record.laidOut →
      ∃ error, decode template settings front = .error error := by
  have longer {front : Bytes} {shorter : Record}
      (decoded : decode template settings front = .ok shorter) (more : Bytes) :
      decode template settings (front ++ more) =
        .ok { shorter with trailing := shorter.trailing ++ more } :=
    decodeWith_followedBy (Template.Everywhere.imp (fun _ leaves => leaves.readsOn more) leaves)
      (fun strict => absurd (strict.symm.trans lenient) nofun) decoded
  refine ⟨longer decoded, fun front before short => ?_⟩
  cases outcome : decode template settings front with
  | error error => exact ⟨error, rfl⟩
  | ok shorter =>
    -- The front would be read as the same tree, which takes up more bytes than the front has.
    obtain ⟨more, rfl⟩ := before
    obtain rfl := Except.ok.inj ((longer outcome more).symm.trans decoded)
    have sized := (laidOut_of_decode outcome).length_bytes
    rw [bytes_of_decode outcome, length] at sized
    dsimp only at short
    omega

/-- The zero byte that ends the names is needed, and more bytes are kept behind it. -/
theorem decode_append_sample : ∃ record,
    decode Template.sample.dropLast {} [1, 0, 0, 1, 0, 2, 0, 3, 97, 98, 1, 65, 0] = .ok record ∧
      decode Template.sample.dropLast {} [1, 0, 0, 1, 0, 2, 0, 3, 97, 98, 1, 65, 0, 7, 8] =
        .ok { record with trailing := record.trailing ++ [7, 8] } ∧
      ∃ error, decode Template.sample.dropLast {} [1, 0, 0, 1, 0, 2, 0, 3, 97, 98, 1, 65] =
        .error error := by
  obtain ⟨record, decoded, laidOut⟩ : ∃ record,
      decode Template.sample.dropLast {} [1, 0, 0, 1, 0, 2, 0, 3, 97, 98, 1, 65, 0] = .ok record ∧
        record.laidOut = 13 :=
    ⟨_, by cbv, by cbv⟩
  obtain ⟨longer, shorter⟩ := decode_append (by decide +kernel) rfl decoded
  exact ⟨record, decoded, longer [7, 8], shorter _ (by decide) (by rw [laidOut]; decide)⟩

end Record
end ResourceTemplate
