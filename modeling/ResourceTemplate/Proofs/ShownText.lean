import ResourceTemplate.Proofs.PathText
import ResourceTemplate.Record.TextEntry

/-! The texts that scalars are shown as, and what typing them in again does: decimal numbers, truth
values, strings in an encoding of one byte a character, and the names of an enumeration. -/
namespace ResourceTemplate

namespace TextEntry

section Numbers

variable {text : List Char}

theorem splitSign_digits (digits : ∀ c ∈ text, c.isDigit = true) : splitSign text = (false, text) := by
  unfold splitSign
  split
  · exact absurd (digits '-' (List.mem_cons_self ..)) (by decide)
  · exact absurd (digits '+' (List.mem_cons_self ..)) (by decide)
  · rfl

theorem hexDigits?_digits (digits : ∀ c ∈ text, c.isDigit = true) : hexDigits? text = none := by
  unfold hexDigits?
  split
  · exact absurd (digits 'x' (by simp)) (by decide)
  · exact absurd (digits 'X' (by simp)) (by decide)
  · exact absurd (digits '$' (by simp)) (by decide)
  · rfl

theorem magnitude_toDigits {n : Nat} (fits : n ≤ Numeral.maxWord) :
    magnitude (Nat.toDigits 10 n) = .ok n := by
  have read := Numeral.word?_toDigits fits
  rw [magnitude, hexDigits?_digits fun _ => Decimal.isDigit_of_mem]
  unfold Numeral.word? at read
  cases outcome : Numeral.natural 10 Numeral.maxWord (Nat.toDigits 10 n) with
  | error => simp [outcome, Except.toOption] at read
  | ok found => simpa [outcome, Except.toOption] using read

/-- Every integer of 64 bits is read from its decimal text, signed or not, the extremes included. -/
theorem integer_toString {n : Int} (low : Numeral.minSigned ≤ n) (high : n ≤ Numeral.maxWord) :
    ∃ value, integer (toString n).toList = .ok value ∧ value.integer? = some n := by
  cases n with
  | ofNat m =>
    have digits : (toString (Int.ofNat m)).toList = Nat.toDigits 10 m := Decimal.toList_toString m
    refine ⟨.uint m, ?_, rfl⟩
    rw [digits, integer, splitSign_digits fun _ => Decimal.isDigit_of_mem]
    simp [magnitude_toDigits (Int.ofNat_le.mp high), pure, Except.pure]
  | negSucc m =>
    have fits : m + 1 ≤ Numeral.maxWord := by
      simp only [Numeral.minSigned, Numeral.maxWord] at *
      omega
    have least : Numeral.minSigned ≤ -((m + 1 : Nat) : Int) := low
    refine ⟨.int (-((m + 1 : Nat) : Int)), ?_, rfl⟩
    rw [Decimal.toList_toString_negSucc, integer, splitSign]
    simp only [magnitude_toDigits fits]
    rw [if_neg (by simp), if_pos least]
    rfl

/-- No blank stands in a number. -/
theorem trim_toString (n : Int) : Text.trim (toString n).toList = (toString n).toList := by
  apply Text.trim_eq
  intro c member
  cases n with
  | ofNat m =>
    have digits : (toString (Int.ofNat m)).toList = Nat.toDigits 10 m := Decimal.toList_toString m
    rw [digits] at member
    exact Text.isBlank_of_isDigit (Decimal.isDigit_of_mem member)
  | negSucc m =>
    rw [Decimal.toList_toString_negSucc] at member
    rcases List.mem_cons.mp member with rfl | member
    · decide
    · exact Text.isBlank_of_isDigit (Decimal.isDigit_of_mem member)

end Numbers

section Names

variable {entries : List EnumEntry} {entry : EnumEntry} {text : List Char}

theorem entryNamed?_eq_none (others : ∀ entry ∈ entries, Text.equalFold entry.name.toList text = false) :
    entryNamed? entries text = none := by
  have exact : entries.find? (·.name.toList == text) = none := by
    rw [List.find?_eq_none]
    intro entry member same
    have folded := others entry member
    rw [eq_of_beq same] at folded
    simp [Text.equalFold] at folded
  have folded : entries.find? (fun entry => Text.equalFold entry.name.toList text) = none := by
    rw [List.find?_eq_none]
    intro entry member
    simp [others entry member]
  rw [entryNamed?, exact, folded, Option.or_none]

/-- Among distinct names an entry is found by its own, whatever others differ in case only. -/
theorem entryNamed?_of_mem (distinct : (entries.map (·.name)).Nodup) (member : entry ∈ entries) :
    entryNamed? entries entry.name.toList = some entry := by
  have exact : entries.find? (·.name.toList == entry.name.toList) = some entry := by
    induction entries with
    | nil => nomatch member
    | cons first entries ih =>
      obtain ⟨fresh, distinct⟩ := List.nodup_cons.mp distinct
      rcases List.mem_cons.mp member with rfl | member
      · simp
      · have other : first.name ≠ entry.name := fun same =>
          fresh (List.mem_map.mpr ⟨entry, member, same.symm⟩)
        have apart : first.name.toList ≠ entry.name.toList := fun same =>
          other (String.toList_injective same)
        simpa [apart] using ih distinct member
  rw [entryNamed?, exact, Option.some_or]

end Names
end TextEntry

section Characters

namespace Charset

/-- Each byte has a character of its own. -/
def Bijective (upper : List Nat) : Prop := ∀ b : UInt8, encodeChar? upper (decodeByte upper b) = some b

theorem bijective_of_all {upper : List Nat}
    (all : (List.range 256).all fun n =>
      encodeChar? upper (decodeByte upper (UInt8.ofNat n)) == some (UInt8.ofNat n)) :
    Bijective upper := by
  intro b
  have here := List.all_eq_true.mp all b.toNat (List.mem_range.mpr b.toNat_lt)
  simpa using here

theorem macRoman_bijective : Bijective macRomanUpper := bijective_of_all (by decide +kernel)

theorem windows1252_bijective : Bijective windows1252Upper := bijective_of_all (by decide +kernel)

theorem Bijective.mapM_map {upper : List Nat} (bijective : Bijective upper) (bytes : Bytes) :
    (bytes.map (decodeByte upper)).mapM (encodeChar? upper) = some bytes := by
  induction bytes with
  | nil => rfl
  | cons b bytes ih => rw [List.map_cons, List.mapM_cons, bijective b, ih]; rfl

/-- In an encoding of one byte a character all bytes can be shown and typed in again. -/
theorem encode?_decode {charset : Charset} (single : charset = .macRoman ∨ charset = .windows1252)
    (bytes : Bytes) : charset.encode? (charset.decode bytes) = some bytes := by
  rcases single with rfl | rfl
  · exact macRoman_bijective.mapM_map bytes
  · exact windows1252_bijective.mapM_map bytes

end Charset
end Characters
end ResourceTemplate
