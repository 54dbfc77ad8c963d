import ResourceTemplate.Json.Number

/-! Numbers in decimal, as they are written and as they are read. In a longer text they are spans of
digits, and a span ends where something else follows. -/
namespace ResourceTemplate

section Spans

variable {α : Type} {holds : α → Bool} {span rest : List α}

theorem takeWhile_span (all : ∀ a ∈ span, holds a = true) (stops : ∀ a ∈ rest.head?, holds a = false) :
    (span ++ rest).takeWhile holds = span := by
  rw [List.takeWhile_append_of_pos all]
  cases rest with
  | nil => simp
  | cons a rest => simp [stops a rfl]

theorem dropWhile_span (all : ∀ a ∈ span, holds a = true) (stops : ∀ a ∈ rest.head?, holds a = false) :
    (span ++ rest).dropWhile holds = rest := by
  rw [List.dropWhile_append_of_pos all]
  cases rest with
  | nil => rfl
  | cons a rest => simp [stops a rfl]

/-- Where a span ends is seen from what follows it. -/
theorem span_inj {other more : List α} (all : ∀ a ∈ span, holds a = true)
    (stops : ∀ a ∈ rest.head?, holds a = false) (others : ∀ a ∈ other, holds a = true)
    (ends : ∀ a ∈ more.head?, holds a = false) (same : span ++ rest = other ++ more) :
    span = other ∧ rest = more := by
  constructor
  · rw [← takeWhile_span all stops, same, takeWhile_span others ends]
  · rw [← dropWhile_span all stops, same, dropWhile_span others ends]

end Spans

namespace Decimal

theorem toList_toString (n : Nat) : (toString n).toList = Nat.toDigits 10 n := by
  rw [Nat.toString_eq_ofList_toDigits, String.toList_ofList]

theorem toList_toString_negSucc (n : Nat) :
    (toString (Int.negSucc n)).toList = '-' :: Nat.toDigits 10 (n + 1) := by
  have signed : toString (Int.negSucc n) = "-" ++ toString (n + 1) := rfl
  rw [signed, String.toList_append, toList_toString]
  rfl

theorem toString_inj {m n : Nat} : toString m = toString n ↔ m = n := by
  refine ⟨fun same => ?_, congrArg toString⟩
  have digits : Nat.toDigits 10 m = Nat.toDigits 10 n := by
    rw [← toList_toString, ← toList_toString, same]
  calc
    m = Nat.ofDigitChars 10 (Nat.toDigits 10 m) 0 := Nat.ofDigitChars_ten_toDigits.symm
    _ = Nat.ofDigitChars 10 (Nat.toDigits 10 n) 0 := by rw [digits]
    _ = n := Nat.ofDigitChars_ten_toDigits

theorem isDigit_of_mem {n : Nat} {c : Char} (member : c ∈ Nat.toDigits 10 n) : c.isDigit = true :=
  Nat.isDigit_of_mem_toDigits (by decide) (by decide) member

theorem not_mem_toDigits {n : Nat} {c : Char} (other : c.isDigit = false) :
    c ∉ Nat.toDigits 10 n := by
  intro member
  rw [isDigit_of_mem member] at other
  contradiction

theorem digit_bounds {c : Char} (digit : c.isDigit = true) : 48 ≤ c.toNat ∧ c.toNat ≤ 57 := by
  simpa [Char.isDigit, UInt32.le_iff_toNat_le] using digit

/-- Only zero is written with a zero in front. -/
theorem head_toDigits {n : Nat} (positive : 0 < n) :
    ∃ c rest, Nat.toDigits 10 n = c :: rest ∧ c ≠ '0' := by
  induction n using Nat.strongRecOn with
  | ind n ih =>
    by_cases small : n < 10
    · refine ⟨n.digitChar, [], Nat.toDigits_of_lt_base small, fun zero => ?_⟩
      have := Nat.digitChar_eq_zero.mp zero
      omega
    · obtain ⟨c, rest, digits, nonzero⟩ := ih (n / 10) (by omega) (by omega)
      refine ⟨c, rest ++ [(n % 10).digitChar], ?_, nonzero⟩
      rw [Nat.toDigits_of_base_le (by decide) (by omega), digits, List.cons_append]

theorem natOfDigits_toDigits (n : Nat) : Json.natOfDigits (Nat.toDigits 10 n) = n :=
  Nat.ofDigitChars_ten_toDigits

end Decimal
end ResourceTemplate
