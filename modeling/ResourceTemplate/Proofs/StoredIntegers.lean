import ResourceTemplate.Text.Numeral
import ResourceTemplate.Value

/-! Integers and their stored bytes. Within the range of a format, an integer and its bit
pattern, and a bit pattern and its bytes, determine each other. -/
namespace ResourceTemplate

namespace Bytes

def patterns : Nat → Nat
  | 0 => 1
  | width + 1 => 256 * patterns width

theorem toNat_lt (bytes : Bytes) : bytes.toNat < patterns bytes.length := by
  generalize same : bytes.length = width
  induction width generalizing bytes with
  | zero => simp [List.length_eq_zero_iff.mp same, toNat, patterns]
  | succ width ih =>
    rcases List.eq_nil_or_concat bytes with rfl | ⟨front, last, rfl⟩
    · simp at same
    · have bound := ih front (by simpa using same)
      have digit := last.toNat_lt
      simp only [List.concat_eq_append, toNat_append_singleton, patterns]
      omega

/-- Reading a number and writing it at the same width preserves the bytes. -/
theorem ofNat_toNat (bytes : Bytes) : ofNat bytes.length bytes.toNat = bytes := by
  generalize same : bytes.length = width
  induction width generalizing bytes with
  | zero => rw [List.length_eq_zero_iff.mp same]; rfl
  | succ width ih =>
    rcases List.eq_nil_or_concat bytes with rfl | ⟨front, last, rfl⟩
    · simp at same
    · have digit := last.toNat_lt
      have quotient : (toNat front * 256 + last.toNat) / 256 = toNat front := by omega
      have digits : UInt8.ofNat (toNat front * 256 + last.toNat) = last := by
        apply UInt8.toNat_inj.mp
        simp only [UInt8.toNat_ofNat']
        omega
      simp only [List.concat_eq_append, toNat_append_singleton, ofNat, quotient, digits,
        ih front (by simpa using same)]

/-- Writing a number that fits the width and reading it preserves the number. -/
theorem toNat_ofNat (width n : Nat) (small : n < patterns width) : toNat (ofNat width n) = n := by
  induction width generalizing n with
  | zero => simp [patterns] at small; simp [small, ofNat, toNat]
  | succ width ih =>
    simp only [patterns] at small
    rw [ofNat, toNat_append_singleton, ih (n / 256) (by omega), UInt8.toNat_ofNat']
    omega

end Bytes

theorem Width.patterns_bytes (width : Width) : Bytes.patterns width.bytes = width.patterns := by
  cases width <;> rfl

namespace IntType

theorem patterns_bytes (type : IntType) : Bytes.patterns type.bytes = type.patterns :=
  type.width.patterns_bytes

theorem half_twice (type : IntType) : type.patterns = 2 * type.half := by
  cases width : type.width <;> simp [half, patterns, width, Width.patterns]

theorem half_pos (type : IntType) : 0 < type.half := by
  cases width : type.width <;> simp [half, patterns, width, Width.patterns]

theorem contains_iff (type : IntType) (n : Int) :
    type.contains n = true ↔ type.min ≤ n ∧ n ≤ type.max := by
  simp [contains]

/-- No format is wider than a word with or without a sign. -/
theorem word_bounds {type : IntType} {n : Int} (inside : type.contains n = true) :
    Numeral.minSigned ≤ n ∧ n ≤ Numeral.maxWord := by
  obtain ⟨low, high⟩ := (type.contains_iff n).mp inside
  obtain ⟨signed, width⟩ := type
  cases signed <;> cases width <;>
    simp only [IntType.min, IntType.max, half, patterns, Width.patterns, Numeral.minSigned,
      Numeral.maxWord, if_true, Bool.false_eq_true, if_false] at * <;>
    omega

theorem toBits_lt (type : IntType) (n : Int) : type.toBits n < type.patterns := by
  have := type.half_twice
  have := type.half_pos
  have := Int.emod_lt_of_pos n (b := type.patterns) (by omega)
  simp only [toBits]
  omega

/-- What a bit pattern stands for is always in range. -/
theorem contains_ofBits (type : IntType) (pattern : Nat) :
    type.contains (type.ofBits pattern) = true := by
  have twice := type.half_twice
  have positive := type.half_pos
  rw [contains_iff]
  cases sign : type.signed with
  | true =>
    have low := Int.le_bmod (x := pattern) (m := type.patterns) (by omega)
    have high := Int.bmod_lt (x := pattern) (m := type.patterns) (by omega)
    simp only [min, max, ofBits, sign, if_true]
    omega
  | false =>
    have bound := Nat.mod_lt pattern (y := type.patterns) (by omega)
    simp only [min, max, ofBits, sign]
    simp only [Bool.false_eq_true, if_false]
    omega

theorem toBits_ofBits (type : IntType) (pattern : Nat) (small : pattern < type.patterns) :
    type.toBits (type.ofBits pattern) = pattern := by
  cases sign : type.signed with
  | true =>
    simp only [toBits, ofBits, sign, if_true, Int.bmod_emod]
    rw [Int.emod_eq_of_lt (by omega) (by omega), Int.toNat_natCast]
  | false =>
    simp only [toBits, ofBits, sign, Bool.false_eq_true, if_false, Int.emod_emod]
    rw [Int.emod_eq_of_lt (by omega) (by omega), Int.toNat_natCast]

theorem ofBits_toBits (type : IntType) (n : Int) (inside : type.contains n = true) :
    type.ofBits (type.toBits n) = n := by
  have twice := type.half_twice
  have positive := type.half_pos
  obtain ⟨low, high⟩ := (type.contains_iff n).mp inside
  have natural : ((type.toBits n : Nat) : Int) = n % type.patterns := by
    have := Int.emod_nonneg n (b := type.patterns) (by omega)
    simp only [toBits]
    omega
  cases sign : type.signed with
  | true =>
    simp only [min, max, sign, if_true] at low high
    simp only [ofBits, sign, if_true, natural, Int.emod_bmod]
    apply Int.bmod_eq_of_le <;> omega
  | false =>
    simp only [min, max, sign, Bool.false_eq_true, if_false] at low high
    simp only [ofBits, sign, Bool.false_eq_true, if_false, natural, Int.emod_emod]
    exact Int.emod_eq_of_lt low (by omega)

/-- An integer in range is what its value holds. -/
theorem integer?_value (type : IntType) (n : Int) (inside : type.contains n = true) :
    (type.value n).integer? = some n := by
  obtain ⟨low, _⟩ := (type.contains_iff n).mp inside
  cases sign : type.signed with
  | true => simp [value, sign, Value.integer?]
  | false =>
    simp only [min, sign, Bool.false_eq_true, if_false] at low
    simp only [value, sign, Bool.false_eq_true, if_false, Value.integer?]
    rw [Int.toNat_of_nonneg low]

theorem contains_zero (type : IntType) : type.contains 0 = true := by
  have := type.half_twice
  have := type.half_pos
  rw [contains_iff]
  cases sign : type.signed <;> simp [min, max, sign] <;> omega

end IntType
end ResourceTemplate
