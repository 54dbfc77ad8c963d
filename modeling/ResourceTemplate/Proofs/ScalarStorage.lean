import ResourceTemplate.Proofs.References
import ResourceTemplate.Proofs.StoredIntegers
import ResourceTemplate.Record.Decode
import ResourceTemplate.Record.Edit

/-! Scalars and their bytes. A scalar that holds a value of its type has one stored form, which
encoding writes and decoding reads back; whatever was read, accepted or made by default is such
a scalar. -/
namespace ResourceTemplate

namespace ScalarType

def Admits : ScalarType → Value → Prop
  | .int format, value => ∃ n, format.contains n = true ∧ value = format.value n
  | .enumeration format _, value => ∃ n, format.contains n = true ∧ value = format.value n
  | .fixedString length, value => ∃ bytes, value = .text bytes ∧ bytes.length = length
  | .pascalString, value => ∃ bytes, value = .text bytes ∧ bytes.length ≤ pascalLimit
  | .boolean _, value => ∃ b, value = .bool b

/-- Booleans may keep the bits that they were read from, and other scalars keep none. -/
def Keeps : ScalarType → Option Nat → Prop
  | .boolean wide, raw =>
    ∀ bits, raw = some bits → bits < Bytes.patterns (ScalarType.boolean wide).minWidth
  | _, raw => raw = none

structure Holds (type : ScalarType) (held : Scalar) : Prop where
  tag : held.tag = type.tag
  value : type.Admits held.value
  label : held.label = type.label? held.value
  raw : type.Keeps held.raw

def stored (type : ScalarType) (held : Scalar) : Bytes :=
  match type with
  | .int format | .enumeration format _ =>
    Bytes.ofNat format.bytes (format.toBits (held.value.integer?.getD 0))
  | .fixedString length => (held.value.bytes?.getD []).resize length
  | .pascalString =>
    let bytes := held.value.bytes?.getD []
    UInt8.ofNat bytes.length :: bytes
  | .boolean wide =>
    Bytes.ofNat type.minWidth (booleanBits wide held.raw (held.value.bool?.getD false))

@[simp] theorem length_stored (type : ScalarType) (held : Scalar) :
    (type.stored held).length = type.encodedLength held.value := by
  cases type <;> simp [stored, encodedLength, minWidth, Nat.add_comm]

theorem minWidth_le_encodedLength (type : ScalarType) (value : Value) :
    type.minWidth ≤ type.encodedLength value := by
  cases type <;> simp [encodedLength, minWidth]

/-- Only strings with a length byte take up more or fewer bytes with their value. -/
theorem encodedLength_eq {type : ScalarType} (sized : type ≠ .pascalString) (value : Value) :
    type.encodedLength value = type.minWidth := by
  cases type <;> simp_all [encodedLength]

end ScalarType

theorem take_eq_ok {n : Nat} {path : Path} {input rest : Input} {bytes : Bytes} :
    input.take n path = .ok (bytes, rest) ↔
      input.bytes = bytes ++ rest.bytes ∧ bytes.length = n ∧ rest.offset = input.offset + n := by
  rw [← Input.take?_eq_some_iff, Input.take]
  cases input.take? n <;> simp

theorem take_append (n : Nat) (path : Path) (offset : Nat) (bytes rest : Bytes)
    (length : bytes.length = n) :
    Input.take n path ⟨offset, bytes ++ rest⟩ = .ok (bytes, ⟨offset + n, rest⟩) :=
  take_eq_ok.mpr ⟨rfl, length, rfl⟩

section Booleans

variable {wide : Bool}

theorem trueBits_lt : trueBits wide < Bytes.patterns (ScalarType.boolean wide).minWidth := by
  cases wide <;> decide

theorem booleanBits_lt {raw : Option Nat} (b : Bool)
    (kept : (ScalarType.boolean wide).Keeps raw) :
    booleanBits wide raw b < Bytes.patterns (ScalarType.boolean wide).minWidth := by
  have zero : 0 < Bytes.patterns (ScalarType.boolean wide).minWidth :=
    Nat.lt_of_le_of_lt (Nat.zero_le _) (@trueBits_lt wide)
  have fresh : (if b then trueBits wide else 0) <
      Bytes.patterns (ScalarType.boolean wide).minWidth := by
    cases b
    · exact zero
    · exact trueBits_lt
  unfold booleanBits
  split
  · next bits =>
    split
    · exact kept bits rfl
    · exact fresh
  · exact fresh

/-- Zero alone is false. -/
theorem booleanBits_ne_zero (raw : Option Nat) (b : Bool) :
    (booleanBits wide raw b != 0) = b := by
  have fresh : ((if b then trueBits wide else 0) != 0) = b := by
    cases b <;> cases wide <;> rfl
  unfold booleanBits
  split
  · split
    · assumption
    · exact fresh
  · exact fresh

theorem booleanBits_read (bits : Nat) : booleanBits wide (some bits) (bits != 0) = bits := by
  simp [booleanBits]

end Booleans

namespace ScalarType

/-- A count field may be written with its count, which is then the value it holds. -/
theorem encodeScalar_eq {type : ScalarType} {held : Scalar} (holds : type.Holds held)
    {count : Option Int} (agrees : ∀ n, count = some n → held.value.integer? = some n)
    (path : Path) (offset : Nat) :
    encodeScalar type held count path offset = .ok (type.stored held) := by
  have integer (format : IntType)
      (value : ∃ n, format.contains n = true ∧ held.value = format.value n) :
      storedInteger type format held.value count path offset =
        .ok (held.value.integer?.getD 0) := by
    obtain ⟨n, inside, same⟩ := value
    have known : held.value.integer? = some n := same ▸ format.integer?_value n inside
    cases count with
    | none => simp [storedInteger, known, checkRange, inside, pure, Except.pure, ok_bind]
    | some counted =>
      obtain rfl : n = counted := Option.some.inj (known.symm.trans (agrees counted rfl))
      simp [storedInteger, known, inside, pure, Except.pure]
  cases type with
  | int format | enumeration format _ =>
    simp [encodeScalar, integer format holds.value, ok_bind, stored, pure, Except.pure]
  | fixedString length =>
    obtain ⟨bytes, same, fits⟩ := holds.value
    simp [encodeScalar, textOf, checkLength, same, Value.bytes?, fits, stored, ok_bind, pure,
      Except.pure]
  | pascalString =>
    obtain ⟨bytes, same, fits⟩ := holds.value
    simp [encodeScalar, textOf, checkLength, same, Value.bytes?, Nat.not_lt_of_le fits, stored,
      ok_bind, pure, Except.pure]
  | boolean wide =>
    obtain ⟨b, same⟩ := holds.value
    simp [encodeScalar, same, Value.bool?, stored, pure, Except.pure]

/-- What was read is a scalar of the type, and its stored form is the bytes that were taken. -/
theorem of_decodeScalar {type : ScalarType} {path : Path} {input rest : Input} {held : Scalar}
    (read : decodeScalar type path input = .ok (held, rest)) :
    type.Holds held ∧ input.bytes = type.stored held ++ rest.bytes ∧
      rest.offset = input.offset + type.encodedLength held.value := by
  simp only [decodeScalar, bind_eq_ok, pure_eq_ok, Prod.mk.injEq, Prod.exists] at read
  obtain ⟨value, raw, _, read, rfl, rfl⟩ := read
  have integer (format : IntType) (bytes : Bytes) (length : bytes.length = format.bytes) :
      Bytes.ofNat format.bytes (format.toBits
        ((format.value (format.ofBits bytes.toNat)).integer?.getD 0)) = bytes := by
    have small := format.patterns_bytes ▸ length ▸ bytes.toNat_lt
    rw [format.integer?_value _ (format.contains_ofBits _), Option.getD_some,
      format.toBits_ofBits _ small, ← length, Bytes.ofNat_toNat]
  cases type with
  | int format | enumeration format _ =>
    simp only [ScalarType.read, bind_eq_ok, take_eq_ok, pure_eq_ok, Prod.mk.injEq,
      Prod.exists] at read
    obtain ⟨bytes, _, ⟨same, length, moved⟩, rfl, rfl, rfl⟩ := read
    refine ⟨⟨rfl, ⟨_, format.contains_ofBits _, rfl⟩, rfl, rfl⟩, ?_, moved⟩
    simpa only [stored, integer format bytes length] using same
  | fixedString length =>
    simp only [ScalarType.read, bind_eq_ok, take_eq_ok, pure_eq_ok, Prod.mk.injEq,
      Prod.exists] at read
    obtain ⟨bytes, _, ⟨same, rfl, moved⟩, rfl, rfl, rfl⟩ := read
    refine ⟨⟨rfl, ⟨bytes, rfl, rfl⟩, rfl, rfl⟩, ?_, moved⟩
    simpa [stored, Value.bytes?, Bytes.resize] using same
  | pascalString =>
    simp only [ScalarType.read, bind_eq_ok, pure_eq_ok, Prod.mk.injEq, Prod.exists] at read
    obtain ⟨size, body, first, bytes, _, second, rfl, rfl, rfl⟩ := read
    obtain ⟨start, single, moved⟩ := take_eq_ok.mp first
    obtain ⟨follows, length, last⟩ := take_eq_ok.mp second
    obtain ⟨b, rfl⟩ := List.length_eq_one_iff.mp single
    have size : Bytes.toNat [b] = b.toNat := by simp [Bytes.toNat]
    rw [size] at length last
    have fits : bytes.length ≤ pascalLimit := by
      have := b.toNat_lt
      simp only [pascalLimit]
      omega
    refine ⟨⟨rfl, ⟨bytes, rfl, fits⟩, rfl, rfl⟩, ?_, ?_⟩
    · simpa [stored, Value.bytes?, length, follows] using start
    · simp only [encodedLength, Value.bytes?, Option.getD_some]
      omega
  | boolean wide =>
    simp only [ScalarType.read, bind_eq_ok, take_eq_ok, pure_eq_ok, Prod.mk.injEq,
      Prod.exists] at read
    obtain ⟨bytes, _, ⟨same, length, moved⟩, rfl, rfl, rfl⟩ := read
    have small := length ▸ bytes.toNat_lt
    refine ⟨⟨rfl, ⟨_, rfl⟩, rfl, fun bits kept => Option.some.inj kept ▸ small⟩, ?_, moved⟩
    simpa only [stored, Value.bool?, Option.getD_some, booleanBits_read, ← length,
      Bytes.ofNat_toNat] using same

end ScalarType

def Scalar.forgetBits (held : Scalar) : Scalar :=
  if held.tag = .boolean then { held with raw := none } else held

@[simp] theorem Scalar.forgetBits_value (held : Scalar) : held.forgetBits.value = held.value := by
  unfold forgetBits; split <;> rfl

namespace ScalarType

/-- The stored form of a scalar reads as that scalar, but for the bits that a boolean keeps. -/
theorem decodeScalar_stored {type : ScalarType} {held : Scalar} (holds : type.Holds held)
    (path : Path) (offset : Nat) (rest : Bytes) :
    ∃ again, decodeScalar type path ⟨offset, type.stored held ++ rest⟩ =
        .ok (again, ⟨offset + type.encodedLength held.value, rest⟩) ∧
      again.forgetBits = held.forgetBits := by
  obtain ⟨tag, value, label, raw⟩ := held
  obtain ⟨rfl, admits, labelled, keeps⟩ := holds
  dsimp only at admits labelled keeps ⊢
  subst labelled
  cases type with
  | int format | enumeration format _ =>
    obtain rfl : raw = none := keeps
    obtain ⟨n, inside, rfl⟩ := admits
    refine ⟨_, ?_, rfl⟩
    have small : format.toBits n < Bytes.patterns format.bytes :=
      format.patterns_bytes ▸ format.toBits_lt n
    simp only [decodeScalar, ScalarType.read, stored, format.integer?_value n inside,
      Option.getD_some]
    rw [take_append _ _ _ _ _ (Bytes.length_ofNat ..), ok_bind, Bytes.toNat_ofNat _ _ small,
      format.ofBits_toBits n inside]
    rfl
  | fixedString length =>
    obtain rfl : raw = none := keeps
    obtain ⟨bytes, rfl, rfl⟩ := admits
    refine ⟨_, ?_, rfl⟩
    have whole : Bytes.resize bytes.length bytes = bytes := by simp [Bytes.resize]
    simp only [decodeScalar, ScalarType.read, stored, Value.bytes?, Option.getD_some, whole]
    rw [take_append _ _ _ _ _ rfl]
    rfl
  | pascalString =>
    obtain rfl : raw = none := keeps
    obtain ⟨bytes, rfl, fits⟩ := admits
    refine ⟨_, ?_, rfl⟩
    have size : Bytes.toNat [UInt8.ofNat bytes.length] = bytes.length := by
      simp only [pascalLimit] at fits
      simp only [Bytes.toNat, List.foldl_cons, List.foldl_nil, UInt8.toNat_ofNat']
      omega
    simp only [decodeScalar, ScalarType.read, stored, Value.bytes?, Option.getD_some,
      List.cons_append]
    rw [← List.singleton_append, take_append 1 _ _ [_] _ rfl, ok_bind]
    simp only [size]
    rw [take_append _ _ _ _ _ rfl, Nat.add_assoc]
    rfl
  | boolean wide =>
    obtain ⟨b, rfl⟩ := admits
    refine ⟨⟨.boolean, .bool b, none, some (booleanBits wide raw b)⟩, ?_, rfl⟩
    have small := booleanBits_lt b keeps
    simp only [decodeScalar, ScalarType.read, stored, Value.bool?, Option.getD_some]
    rw [take_append _ _ _ _ _ (Bytes.length_ofNat ..), ok_bind, Bytes.toNat_ofNat _ _ small,
      booleanBits_ne_zero]
    rfl

/-- Integers in range are accepted, whatever their form, and nothing else is. -/
theorem accept_integer_iff {type : ScalarType} {base : IntType}
    (integer : type.intType? = some base) {value accepted : Value} {path : Path} :
    type.accept value path = .ok accepted ↔
      ∃ n, value.integer? = some n ∧ base.contains n = true ∧ accepted = base.value n := by
  have taken : type.accept value path = .ok accepted ↔
      ∃ n, value.integer? = some n ∧ checkRange base n path = .ok () ∧ accepted = base.value n := by
    cases type with
    | int format | enumeration format _ =>
      obtain rfl : format = base := Option.some.inj integer
      rw [ScalarType.accept]
      cases value.integer? with
      | none => simp
      | some n => simp only [unit_bind_eq_ok, pure_eq_ok, Option.some.injEq, exists_eq_left',
          @eq_comm Value accepted]
    | fixedString | pascalString | boolean => contradiction
  rw [taken]
  apply exists_congr
  intro n
  apply and_congr_right
  intro _
  apply and_congr_left
  intro _
  unfold checkRange
  by_cases inside : base.contains n = true <;> simp [inside]

/-- Whatever is accepted is kept in a form that the type admits. -/
theorem admits_of_accept {type : ScalarType} {value accepted : Value} {path : Path}
    (accept : type.accept value path = .ok accepted) : type.Admits accepted := by
  cases type with
  | int | enumeration =>
    obtain ⟨n, _, inside, rfl⟩ := (accept_integer_iff rfl).mp accept
    exact ⟨n, inside, rfl⟩
  | fixedString length =>
    simp only [ScalarType.accept] at accept
    cases value with
    | text bytes =>
      simp only [unit_bind_eq_ok, pure_eq_ok] at accept
      exact ⟨_, accept.2.symm, Bytes.length_resize ..⟩
    | _ => contradiction
  | pascalString =>
    simp only [ScalarType.accept] at accept
    cases value with
    | text bytes =>
      simp only [unit_bind_eq_ok, pure_eq_ok] at accept
      refine ⟨bytes, accept.2.symm, ?_⟩
      by_cases long : pascalLimit < bytes.length
      · simp [checkLength, long] at accept
      · omega
    | _ => contradiction
  | boolean wide =>
    simp only [ScalarType.accept] at accept
    cases value with
    | bool b => exact ⟨b, (pure_eq_ok.mp accept).symm⟩
    | _ => contradiction

/-- A value that the type admits is accepted as it is. -/
theorem accept_of_admits {type : ScalarType} {value : Value} (admits : type.Admits value)
    (path : Path) : type.accept value path = .ok value := by
  cases type with
  | int format | enumeration format _ =>
    obtain ⟨n, inside, rfl⟩ := admits
    exact (accept_integer_iff rfl).mpr ⟨n, format.integer?_value n inside, inside, rfl⟩
  | fixedString length =>
    obtain ⟨bytes, rfl, rfl⟩ := admits
    simp [ScalarType.accept, checkLength, ok_bind, Bytes.resize, pure, Except.pure]
  | pascalString =>
    obtain ⟨bytes, rfl, fits⟩ := admits
    simp [ScalarType.accept, checkLength, Nat.not_lt_of_le fits, ok_bind, pure, Except.pure]
  | boolean wide =>
    obtain ⟨b, rfl⟩ := admits
    rfl

/-- Integers in range are accepted in either signedness. -/
theorem integer?_of_accept {type : ScalarType} {n : Int} {accepted : Value} {path : Path}
    (accept : type.accept (.int n) path = .ok accepted) : accepted.integer? = some n := by
  cases type with
  | int format | enumeration format _ =>
    obtain ⟨m, same, inside, rfl⟩ := (accept_integer_iff rfl).mp accept
    rw [format.integer?_value m inside]
    exact same.symm
  | _ => contradiction

/-- Integers and enumerations hold integers. -/
theorem Holds.integer? {type : ScalarType} {held : Scalar} (holds : type.Holds held)
    (integral : type.intType?.isSome = true) : ∃ n, held.value.integer? = some n := by
  have admits := holds.value
  cases type with
  | int format | enumeration format _ =>
    obtain ⟨n, inside, same⟩ := admits
    exact ⟨n, same ▸ format.integer?_value n inside⟩
  | _ => nomatch integral

theorem admits_default (type : ScalarType) : type.Admits type.defaultValue := by
  cases type with
  | int format | enumeration format _ => exact ⟨0, format.contains_zero, rfl⟩
  | fixedString length => exact ⟨_, rfl, by simp⟩
  | pascalString => exact ⟨[], rfl, by simp⟩
  | boolean wide => exact ⟨false, rfl⟩

theorem keeps_none (type : ScalarType) : type.Keeps none := by
  cases type <;> simp [Keeps]

theorem holds_default (type : ScalarType) : type.Holds type.default :=
  ⟨rfl, type.admits_default, rfl, type.keeps_none⟩

/-- An edit puts a value of the type and its label into a scalar. -/
theorem holds_put {type : ScalarType} {held : Scalar} {value : Value} (holds : type.Holds held)
    (admits : type.Admits value) : type.Holds (held.put value (type.label? value)) := by
  refine ⟨holds.tag, admits, rfl, ?_⟩
  simp only [Scalar.put]
  split
  · exact holds.raw
  · exact type.keeps_none

end ScalarType
end ResourceTemplate
