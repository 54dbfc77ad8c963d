import ResourceTemplate.Proofs.Outcomes
import ResourceTemplate.Record.TextEntry

/-! Integers as they are written, and the readers of them. A reader takes the integers that it has
room for, and a plus sign wherever it begins to read digits. -/
namespace ResourceTemplate.Numeral

def denoted? (radix : Nat) : (value : Nat) → List Char → Option Nat
  | value, [] => some value
  | value, c :: text => (digit? radix c).bind fun d => denoted? radix (value * radix + d) text

/-- One digit or more, and nothing else. -/
def Spells (radix : Nat) (text : List Char) (n : Nat) : Prop :=
  text ≠ [] ∧ denoted? radix 0 text = some n

def marks : List (List Char) := [['0', 'x'], ['0', 'X'], ['$']]

/-- Decimal digits, or hexadecimal ones behind a mark. -/
inductive Unsigned : List Char → Nat → Prop
  | decimal {text : List Char} {n : Nat} (spelled : Spells 10 text n) : Unsigned text n
  | hexadecimal {mark text : List Char} {n : Nat} (marked : mark ∈ marks)
      (spelled : Spells 16 text n) : Unsigned (mark ++ text) n

inductive Written : List Char → Int → Prop
  | plain {text : List Char} {n : Nat} (unsigned : Unsigned text n) : Written text n
  | minus {text : List Char} {n : Nat} (unsigned : Unsigned text n) : Written ('-' :: text) (-n)

/-- An integer with one sign at most. -/
inductive Typed : List Char → Int → Prop
  | written {text : List Char} {n : Int} (written : Written text n) : Typed text n
  | plus {text : List Char} {n : Nat} (unsigned : Unsigned text n) : Typed ('+' :: text) n

/-- Digits behind a plus sign that a sign or a mark of hexadecimal is in front of. -/
def StrayPlus (text : List Char) : Prop :=
  ∃ sign ∈ [[], ['+'], ['-']], ∃ mark ∈ [] :: marks, ∃ rest n, sign ++ mark ≠ [] ∧
    text = sign ++ mark ++ '+' :: rest ∧ Spells (if mark = [] then 10 else 16) rest n

section Digits

variable {radix limit value n : Nat} {text : List Char}

theorem le_of_denoted (positive : 0 < radix) (denoted : denoted? radix value text = some n) :
    value ≤ n := by
  induction text generalizing value with
  | nil => exact Nat.le_of_eq (Option.some.inj denoted)
  | cons c text ih =>
    obtain ⟨d, _, denoted⟩ := Option.bind_eq_some_iff.mp denoted
    have := Nat.le_mul_of_pos_right value positive
    have := ih denoted
    omega

/-- The number only grows from digit to digit, so it passes the limit at the end or not at all. -/
theorem digits_eq_ok_iff (positive : 0 < radix) (within : value ≤ limit) :
    digits radix limit value text = .ok n ↔ denoted? radix value text = some n ∧ n ≤ limit := by
  induction text generalizing value with
  | nil =>
    simp only [digits, denoted?, Except.ok.injEq, Option.some.injEq]
    constructor
    · rintro rfl
      exact ⟨rfl, within⟩
    · rintro ⟨rfl, _⟩
      rfl
  | cons c text ih =>
    rw [digits, denoted?]
    cases digit? radix c with
    | none => simp
    | some d =>
      rw [Option.bind_some]
      dsimp only
      split
      · next passed =>
        constructor
        · intro impossible
          contradiction
        · rintro ⟨denoted, fits⟩
          have := le_of_denoted positive denoted
          omega
      · next fits => exact ih (Nat.not_lt.mp fits)

theorem Spells.digits_eq (spelled : Spells radix text n) (positive : 0 < radix) (fits : n ≤ limit) :
    digits radix limit 0 text = .ok n :=
  (digits_eq_ok_iff positive (Nat.zero_le limit)).mpr ⟨spelled.2, fits⟩

/-- Digits begin with no sign. -/
theorem Spells.head (spelled : Spells radix text n) :
    ∃ c rest d, text = c :: rest ∧ digit? radix c = some d := by
  obtain ⟨nonempty, denoted⟩ := spelled
  cases text with
  | nil => contradiction
  | cons c rest =>
    obtain ⟨d, digit, _⟩ := Option.bind_eq_some_iff.mp denoted
    exact ⟨c, rest, d, rfl, digit⟩

theorem Spells.natural_eq (spelled : Spells radix text n) (positive : 0 < radix) (fits : n ≤ limit) :
    natural radix limit text = .ok n := by
  obtain ⟨c, rest, d, rfl, digit⟩ := spelled.head
  rw [← spelled.digits_eq positive fits]
  unfold natural
  split
  · contradiction
  · next sign =>
    cases sign
    contradiction
  · next sign =>
    cases sign
    contradiction
  · rfl

/-- A number is read from digits that it has room for, or from a plus sign and such digits. -/
theorem natural_eq_ok (positive : 0 < radix) :
    natural radix limit text = .ok n ↔
      n ≤ limit ∧ (Spells radix text n ∨ ∃ rest, text = '+' :: rest ∧ Spells radix rest n) := by
  have read {text : List Char} (nonempty : text ≠ []) :
      digits radix limit 0 text = .ok n ↔ n ≤ limit ∧ Spells radix text n := by
    rw [digits_eq_ok_iff positive (Nat.zero_le limit), Spells, and_comm]
    simp [nonempty]
  have signed (rest : List Char) : ¬ Spells radix ('+' :: rest) n := by
    rintro ⟨_, denoted⟩
    contradiction
  unfold natural
  split
  · simp [Spells]
  · constructor
    · intro impossible
      contradiction
    · rintro ⟨_, spelled | ⟨rest, same, nonempty, _⟩⟩
      · exact absurd spelled (signed [])
      · obtain rfl : [] = rest := (List.cons.inj same).2
        contradiction
  · next rest more =>
    rw [read (by simpa using more)]
    simp [signed]
  · next first _ later =>
    rw [read first]
    constructor
    · rintro ⟨fits, spelled⟩
      exact ⟨fits, .inl spelled⟩
    · rintro ⟨fits, spelled | ⟨rest, rfl, _⟩⟩
      · exact ⟨fits, spelled⟩
      · exact absurd rfl (later rest)

end Digits

section Marks

variable {mark text rest : List Char} {n : Nat}

/-- Behind a mark stands no decimal number, and no sign in front of it. -/
theorem marked_head (marked : mark ∈ marks) (rest : List Char) :
    (∀ n, ¬ Spells 10 (mark ++ rest) n) ∧
      (∀ more, mark ++ rest ≠ '+' :: more) ∧ ∀ more, mark ++ rest ≠ '-' :: more := by
  simp only [marks, List.mem_cons, List.not_mem_nil, or_false] at marked
  refine ⟨?_, ?_, ?_⟩
  · rintro n ⟨_, denoted⟩
    rcases marked with rfl | rfl | rfl <;> contradiction
  · intro more same
    rcases marked with rfl | rfl | rfl <;> cases same
  · intro more same
    rcases marked with rfl | rfl | rfl <;> cases same

/-- An unsigned number has no sign. -/
theorem Unsigned.head (unsigned : Unsigned text n) :
    (∀ more, text ≠ '+' :: more) ∧ ∀ more, text ≠ '-' :: more := by
  cases unsigned with
  | decimal spelled =>
    obtain ⟨c, rest, d, rfl, digit⟩ := spelled.head
    refine ⟨?_, ?_⟩
    · intro more same
      cases same
      contradiction
    · intro more same
      cases same
      contradiction
  | hexadecimal marked spelled => exact (marked_head marked _).2

end Marks

end ResourceTemplate.Numeral

namespace ResourceTemplate.TextEntry

open Numeral

section Magnitudes

variable {mark text rest : List Char} {n : Nat}

theorem hexDigits?_marked (marked : mark ∈ marks) (rest : List Char) :
    hexDigits? (mark ++ rest) = some rest := by
  simp only [marks, List.mem_cons, List.not_mem_nil, or_false] at marked
  rcases marked with rfl | rfl | rfl <;> rfl

theorem hexDigits?_eq_some (found : hexDigits? text = some rest) :
    ∃ mark ∈ marks, text = mark ++ rest := by
  unfold hexDigits? at found
  split at found
  · cases found
    exact ⟨['0', 'x'], by decide, rfl⟩
  · cases found
    exact ⟨['0', 'X'], by decide, rfl⟩
  · cases found
    exact ⟨['$'], by decide, rfl⟩
  · contradiction

theorem hexDigits?_decimal (spelled : Spells 10 text n) : hexDigits? text = none := by
  cases found : hexDigits? text with
  | none => rfl
  | some rest =>
    obtain ⟨mark, marked, rfl⟩ := hexDigits?_eq_some found
    exact absurd spelled ((marked_head marked rest).1 n)

theorem magnitude_of_unsigned (unsigned : Unsigned text n) (fits : n ≤ maxWord) :
    magnitude text = .ok n := by
  unfold magnitude
  cases unsigned with
  | decimal spelled =>
    rw [hexDigits?_decimal spelled]
    exact spelled.natural_eq (by decide) fits
  | hexadecimal marked spelled =>
    rw [hexDigits?_marked marked]
    exact spelled.natural_eq (by decide) fits

/-- What is read is an unsigned number, or has a plus sign where its digits should begin. -/
theorem unsigned_of_magnitude (read : magnitude text = .ok n) :
    n ≤ maxWord ∧ (Unsigned text n ∨ ∃ mark ∈ [] :: marks, ∃ rest, text = mark ++ '+' :: rest ∧
      Spells (if mark = [] then 10 else 16) rest n) := by
  unfold magnitude at read
  split at read
  · next digits found =>
    obtain ⟨mark, marked, rfl⟩ := hexDigits?_eq_some found
    have nonempty : mark ≠ [] := by
      rintro rfl
      revert marked
      decide
    obtain ⟨fits, spelled | ⟨rest, rfl, spelled⟩⟩ := (natural_eq_ok (by decide)).mp read
    · exact ⟨fits, .inl (.hexadecimal marked spelled)⟩
    · exact ⟨fits, .inr ⟨mark, List.mem_cons_of_mem _ marked, rest, rfl, by rwa [if_neg nonempty]⟩⟩
  · obtain ⟨fits, spelled | ⟨rest, rfl, spelled⟩⟩ := (natural_eq_ok (by decide)).mp read
    · exact ⟨fits, .inl (.decimal spelled)⟩
    · exact ⟨fits, .inr ⟨[], List.mem_cons_self .., rest, rfl, spelled⟩⟩

end Magnitudes

section Integers

variable {text : List Char} {value : Value} {n : Int}

theorem splitSign_cases (text : List Char) :
    (∃ rest, text = '-' :: rest ∧ splitSign text = (true, rest)) ∨
      (∃ rest, text = '+' :: rest ∧ splitSign text = (false, rest)) ∨
      (∀ rest, text ≠ '+' :: rest) ∧ splitSign text = (false, text) := by
  unfold splitSign
  split
  · exact .inl ⟨_, rfl, rfl⟩
  · exact .inr (.inl ⟨_, rfl, rfl⟩)
  · next _ unsigned => exact .inr (.inr ⟨unsigned, rfl⟩)

theorem integer_eq_ok :
    integer text = .ok value ↔ ∃ m, magnitude (splitSign text).2 = .ok m ∧
      ((splitSign text).1 = false ∧ value = .uint m ∨
        (splitSign text).1 = true ∧ minSigned ≤ -(m : Int) ∧ value = .int (-m)) := by
  unfold integer
  cases splitSign text with | mk negative rest =>
  dsimp only
  cases magnitude rest with
  | error => simp [throw, throwThe, MonadExceptOf.throw]
  | ok m =>
    cases negative with
    | false => simp [pure, Except.pure, eq_comm]
    | true =>
      by_cases fits : minSigned ≤ -(m : Int)
      · simp [fits, pure, Except.pure, eq_comm]
      · simp [fits, throw, throwThe, MonadExceptOf.throw]

theorem splitSign_unsigned {n : Nat} (unsigned : Unsigned text n) : splitSign text = (false, text) := by
  obtain ⟨plus, minus⟩ := unsigned.head
  rcases splitSign_cases text with ⟨rest, same, _⟩ | ⟨rest, same, _⟩ | ⟨_, split⟩
  · exact absurd same (minus rest)
  · exact absurd same (plus rest)
  · exact split

/-- Every typed integer with 64 bits is read. -/
theorem integer_of_typed (typed : Typed text n) (low : minSigned ≤ n) (high : n ≤ maxWord) :
    ∃ value, integer text = .ok value ∧ value.integer? = some n := by
  cases typed with
  | written written =>
    cases written with
    | @plain text n unsigned =>
      refine ⟨.uint n, integer_eq_ok.mpr ⟨n, ?_, .inl ?_⟩, rfl⟩
      · rw [splitSign_unsigned unsigned]
        exact magnitude_of_unsigned unsigned (Int.ofNat_le.mp high)
      · rw [splitSign_unsigned unsigned]
        exact ⟨rfl, rfl⟩
    | @minus text n unsigned =>
      have room : n ≤ maxWord := by
        simp only [minSigned, maxWord] at low ⊢
        omega
      exact ⟨.int (-n), integer_eq_ok.mpr ⟨n, magnitude_of_unsigned unsigned room,
        .inr ⟨rfl, low, rfl⟩⟩, rfl⟩
  | @plus text n unsigned =>
    exact ⟨.uint n, integer_eq_ok.mpr ⟨n, magnitude_of_unsigned unsigned (Int.ofNat_le.mp high),
      .inl ⟨rfl, rfl⟩⟩, rfl⟩

/-- What is read is a typed integer, but for digits with a plus sign that stand behind a sign or a mark. -/
theorem typed_of_integer (read : integer text = .ok value) (tidy : ¬ StrayPlus text) :
    ∃ n, Typed text n ∧ value.integer? = some n := by
  have unsigned (sign : List Char) {rest : List Char} {m : Nat} (signed : sign ∈ [[], ['+'], ['-']])
      (same : text = sign ++ rest) (bare : sign = [] → ∀ more, rest ≠ '+' :: more)
      (read : magnitude rest = .ok m) : Unsigned rest m := by
    obtain ⟨_, unsigned | ⟨mark, marked, more, rfl, spelled⟩⟩ := unsigned_of_magnitude read
    · exact unsigned
    · refine absurd ⟨sign, signed, mark, marked, more, m, fun none => ?_, by simpa using same, spelled⟩
        tidy
      obtain ⟨rfl, rfl⟩ := List.append_eq_nil_iff.mp none
      exact bare rfl more rfl
  obtain ⟨m, magnitude, outcome⟩ := integer_eq_ok.mp read
  rcases splitSign_cases text with ⟨rest, same, split⟩ | ⟨rest, same, split⟩ | ⟨bare, split⟩
  · rw [split] at magnitude outcome
    obtain ⟨impossible, _⟩ | ⟨_, _, rfl⟩ := outcome
    · contradiction
    · have number := unsigned ['-'] (by decide) same (by rintro ⟨⟩) magnitude
      exact ⟨-m, same ▸ .written (.minus number), rfl⟩
  · rw [split] at magnitude outcome
    obtain ⟨_, rfl⟩ | ⟨impossible, _⟩ := outcome
    · have number := unsigned ['+'] (by decide) same (by rintro ⟨⟩) magnitude
      exact ⟨m, same ▸ .plus number, rfl⟩
    · contradiction
  · rw [split] at magnitude outcome
    obtain ⟨_, rfl⟩ | ⟨impossible, _⟩ := outcome
    · have number := unsigned [] (by decide) rfl (fun _ => bare) magnitude
      exact ⟨m, .written (.plain number), rfl⟩
    · contradiction

end Integers

end ResourceTemplate.TextEntry
