import Mathlib
import ResourceTemplate.Proofs.StoredIntegers
import ResourceTemplate.Proofs.WrittenIntegers
import ResourceTemplate.Template.Label

/-! The labels of bitmasks. A value is called by each entry of the table that has no bits but those
of the value, and the number behind the names is made of the bits that none of the names accounts
for. Bits are those of two's complement, cut off at the width of the format. -/
namespace ResourceTemplate

theorem Width.patterns_eq_two_pow (width : Width) : width.patterns = 2 ^ width.bits := by
  cases width <;> rfl

namespace IntType

/-- Of the bits of an integer, which go on for ever with its sign, a format has the lowest. -/
def HasBit (base : IntType) (n : Int) (i : Nat) : Prop := i < base.bits ∧ n.testBit i = true

/-- In the format `part` has a bit, and none that `n` does not have. -/
def Within (base : IntType) (part n : Int) : Prop :=
  (∃ i, base.HasBit part i) ∧ ∀ i, base.HasBit part i → base.HasBit n i

section Patterns

variable {base : IntType} {part n : Int}

theorem testBit_toBits (base : IntType) (n : Int) (i : Nat) :
    (base.toBits n).testBit i = true ↔ base.HasBit n i := by
  have width : base.patterns = 2 ^ base.bits := base.width.patterns_eq_two_pow
  have positive : 0 < base.patterns := by rw [width]; exact Nat.two_pow_pos _
  cases n with
  | ofNat m =>
    have pattern : base.toBits (Int.ofNat m) = m % 2 ^ base.bits := by
      rw [← width]
      exact Int.toNat_natCast (m % base.patterns)
    rw [pattern, Nat.testBit_mod_two_pow, Bool.and_eq_true, decide_eq_true_eq]
    rfl
  | negSucc m =>
    -- The bits of a negative integer are those of its complement, turned over.
    have small : m % base.patterns < base.patterns := Nat.mod_lt m positive
    have pattern : base.toBits (Int.negSucc m) = 2 ^ base.bits - (m % base.patterns + 1) := by
      rw [toBits, Int.negSucc_emod m (by omega), ← width]
      omega
    rw [pattern, Nat.testBit_two_pow_sub_succ (width ▸ small), width, Nat.testBit_mod_two_pow,
      Bool.and_eq_true, decide_eq_true_eq, HasBit, Int.testBit, and_congr_right_iff]
    intro low
    simp [low]

theorem toBits_ne_zero : base.toBits n ≠ 0 ↔ ∃ i, base.HasBit n i := by
  constructor
  · intro nonzero
    obtain ⟨i, bit⟩ := Nat.exists_testBit_of_ne_zero nonzero
    exact ⟨i, (base.testBit_toBits n i).mp bit⟩
  · rintro ⟨i, bit⟩ zero
    have bit := (base.testBit_toBits n i).mpr bit
    rw [zero, Nat.zero_testBit] at bit
    contradiction

/-- Patterns are compared as a whole. -/
theorem within_iff : base.Within part n ↔
    base.toBits part ≠ 0 ∧ base.toBits n &&& base.toBits part = base.toBits part := by
  rw [Within, ← toBits_ne_zero, and_congr_right_iff]
  rintro -
  simp only [← testBit_toBits]
  constructor
  · intro bits
    apply Nat.eq_of_testBit_eq
    intro i
    rw [Nat.testBit_and, Bool.and_eq_right_iff_imp]
    exact bits i
  · intro whole i bit
    rw [← whole, Nat.testBit_and, Bool.and_eq_true] at bit
    exact bit.1

instance : Decidable (base.Within part n) := decidable_of_iff _ within_iff.symm

end Patterns
end IntType

namespace Numeral

section Hexadecimal

variable {radix value n : Nat} {text : List Char}

theorem denoted?_concat {c : Char} (denoted : denoted? radix value text = some n) :
    denoted? radix value (text ++ [c]) = (digit? radix c).map (n * radix + ·) := by
  induction text generalizing value with
  | nil =>
    cases denoted
    cases digit : digit? radix c <;> simp [denoted?, digit]
  | cons first text ih =>
    obtain ⟨d, digit, denoted⟩ := Option.bind_eq_some_iff.mp denoted
    rw [List.cons_append, denoted?, digit, Option.bind_some]
    exact ih denoted

theorem digit?_toUpper_digitChar {d : Nat} (small : d < 16) :
    digit? 16 d.digitChar.toUpper = some d := by
  have all : (List.range 16).all fun d => digit? 16 d.digitChar.toUpper == some d := by decide
  simpa using List.all_eq_true.mp all d (List.mem_range.mpr small)

/-- A number is read off its hexadecimal digits. -/
theorem spells_upperHex (n : Nat) : Spells 16 (upperHex n).toList n := by
  rw [upperHex, String.toList_ofList]
  refine ⟨by simp [Nat.toDigits_ne_nil], ?_⟩
  induction n using Nat.strongRecOn with
  | ind n ih =>
    by_cases small : n < 16
    · rw [Nat.toDigits_of_lt_base small]
      simp [denoted?, digit?_toUpper_digitChar small]
    · rw [Nat.toDigits_of_base_le (by decide) (by omega), List.map_append,
        List.map_singleton, denoted?_concat (ih (n / 16) (by omega)),
        digit?_toUpper_digitChar (Nat.mod_lt n (by decide)), Option.map_some, Option.some.injEq]
      omega

end Hexadecimal
end Numeral

namespace NameTable

/-- The entries that `n` is called by, in the order of the table. -/
def named (table : NameTable) (base : IntType) (n : Int) : List EnumEntry :=
  table.entries.filter fun entry => base.Within entry.value.toInt n

/-- Each bit of `n` is a bit of an entry that it is called by, or else of the number that is left over. -/
structure Accounts (base : IntType) (n : Int) (named : List EnumEntry) (leftover : Nat) : Prop where
  bits : ∀ i, base.HasBit n i ↔
    (∃ entry ∈ named, base.HasBit entry.value.toInt i) ∨ leftover.testBit i = true
  apart : ∀ i, leftover.testBit i = true → ∀ entry ∈ named, ¬ base.HasBit entry.value.toInt i

section Masks

variable {table : NameTable} {base : IntType} {n : Int}

theorem covering_toBits (table : NameTable) (base : IntType) (n : Int) :
    table.covering base (base.toBits n) =
      (table.named base n).map fun entry => (entry.name, base.toBits entry.value.toInt) := by
  rw [covering, named, ← List.filterMap_eq_map, List.filterMap_filter]
  apply List.filterMap_congr
  intro entry _
  by_cases within : base.Within entry.value.toInt n
  · simp [within, IntType.within_iff.mp within]
  · simp [within, mt IntType.within_iff.mpr within]

def union (covers : List (String × Nat)) : Nat :=
  covers.foldl (fun bits cover => bits ||| cover.2) 0

/-- The bits of `n` that no cover has. -/
def leftover (table : NameTable) (base : IntType) (n : Int) : Nat :=
  base.toBits n ^^^ union (table.covering base (base.toBits n))

/-- Bits are gathered from cover to cover, on top of those that are there. -/
theorem testBit_foldl_or (covers : List (String × Nat)) (bits i : Nat) :
    (covers.foldl (fun bits cover => bits ||| cover.2) bits).testBit i = true ↔
      bits.testBit i = true ∨ ∃ cover ∈ covers, cover.2.testBit i = true := by
  induction covers generalizing bits with
  | nil => simp
  | cons cover covers ih =>
    rw [List.foldl_cons, ih, Nat.testBit_or, Bool.or_eq_true, or_assoc, List.exists_mem_cons_iff]

theorem testBit_union (table : NameTable) (base : IntType) (n : Int) (i : Nat) :
    (union (table.covering base (base.toBits n))).testBit i = true ↔
      ∃ entry ∈ table.named base n, base.HasBit entry.value.toInt i := by
  simp [union, testBit_foldl_or, covering_toBits, IntType.testBit_toBits]

theorem hasBit_of_named {entry : EnumEntry} (member : entry ∈ table.named base n) {i : Nat}
    (bit : base.HasBit entry.value.toInt i) : base.HasBit n i := by
  obtain ⟨_, within⟩ := List.mem_filter.mp member
  exact (of_decide_eq_true within).2 i bit

/-- The union lies within the pattern, so what differs is what the union lacks. -/
theorem testBit_leftover (table : NameTable) (base : IntType) (n : Int) (i : Nat) :
    (table.leftover base n).testBit i = true ↔ base.HasBit n i ∧
      ¬ ∃ entry ∈ table.named base n, base.HasBit entry.value.toInt i := by
  have inside : (∃ entry ∈ table.named base n, base.HasBit entry.value.toInt i) → base.HasBit n i := by
    rintro ⟨entry, member, bit⟩
    exact hasBit_of_named member bit
  rw [← testBit_union, ← IntType.testBit_toBits] at inside ⊢
  rw [leftover, Nat.testBit_xor, Bool.xor_iff_ne]
  cases pattern : (base.toBits n).testBit i with
  | false => simpa [pattern] using inside
  | true => simp

theorem accounts_leftover (table : NameTable) (base : IntType) (n : Int) :
    Accounts base n (table.named base n) (table.leftover base n) := by
  constructor
  · intro i
    rw [testBit_leftover]
    constructor
    · intro bit
      by_cases covered : ∃ entry ∈ table.named base n, base.HasBit entry.value.toInt i
      · exact .inl covered
      · exact .inr ⟨bit, covered⟩
    · rintro (⟨entry, member, bit⟩ | ⟨bit, _⟩)
      · exact hasBit_of_named member bit
      · exact bit
  · intro i left entry member bit
    exact ((table.testBit_leftover base n i).mp left).2 ⟨entry, member, bit⟩

theorem bitsLabel?_toBits (table : NameTable) (base : IntType) (n : Int) :
    table.bitsLabel? base (base.toBits n) =
      if table.named base n = [] then none
      else some ("|".intercalate ((table.named base n).map (·.name)) ++
        (if table.leftover base n = 0 then "" else "|0x" ++ upperHex (table.leftover base n))) := by
  have names : (table.covering base (base.toBits n)).map (·.1) =
      (table.named base n).map (·.name) := by
    rw [covering_toBits, List.map_map]
    rfl
  have empty : (table.covering base (base.toBits n)).isEmpty = true ↔ table.named base n = [] := by
    rw [covering_toBits, List.isEmpty_iff, List.map_eq_nil_iff]
  rw [← names]
  by_cases none : table.named base n = []
  · rw [if_pos none]
    exact if_pos (empty.mpr none)
  · rw [if_neg none]
    exact if_neg (mt empty.mp none)

end Masks

/-- The label of a value that has bits is made of the names of the entries within it, in the order of the
table, and of the hexadecimal number of the bits that are left over, unless there are none. Each bit of the
value is accounted for: by names, or else by the number. Without such an entry there is no label. -/
theorem label?_accounts {table : NameTable} (base : IntType) {n : Int} (mask : table.bitmask = true)
    (bits : ∃ i, base.HasBit n i) :
    (table.label? base n = none ↔ ∀ entry ∈ table.entries, ¬ base.Within entry.value.toInt n) ∧
      ∀ label, table.label? base n = some label → ∃ leftover,
        Accounts base n (table.named base n) leftover ∧
        label = "|".intercalate ((table.named base n).map (·.name)) ++
          (if leftover = 0 then "" else "|0x" ++ upperHex leftover) ∧
        Numeral.Spells 16 (upperHex leftover).toList leftover := by
  rw [label?, if_pos ⟨mask, IntType.toBits_ne_zero.mpr bits⟩, bitsLabel?_toBits]
  constructor
  · simp [named]
  · intro label found
    split at found
    · contradiction
    · cases found
      exact ⟨table.leftover base n, table.accounts_leftover base n, rfl, Numeral.spells_upperHex _⟩

/-- A signed byte with the bits 0x95, and a table with values that overlap, stand twice, have no bit in a
byte or stick out of it, or have more bits than the byte. -/
theorem label?_accounts_sample :
    let table : NameTable := ⟨[⟨0, "none"⟩, ⟨-128, "top"⟩, ⟨0x101, "low"⟩, ⟨0x100, "beyond"⟩,
      ⟨5, "five"⟩, ⟨2, "two"⟩, ⟨5, "again"⟩, ⟨-1, "all"⟩], true⟩
    let base : IntType := ⟨true, .byte⟩
    base.contains (-107) = true ∧ (∃ i, base.HasBit (-107) i) ∧
      table.label? base (-107) = some "top|low|five|again|0x10" ∧
      table.named base (-107) = [⟨-128, "top"⟩, ⟨0x101, "low"⟩, ⟨5, "five"⟩, ⟨5, "again"⟩] ∧
      ∃ leftover, Accounts base (-107) (table.named base (-107)) leftover ∧
        "top|low|five|again|0x10" = "|".intercalate ["top", "low", "five", "again"] ++
          (if leftover = 0 then "" else "|0x" ++ upperHex leftover) := by
  intro table base
  have bits : ∃ i, base.HasBit (-107) i := ⟨0, by decide, by decide⟩
  have label : table.label? base (-107) = some "top|low|five|again|0x10" := by decide +kernel
  have named : table.named base (-107) =
      [⟨-128, "top"⟩, ⟨0x101, "low"⟩, ⟨5, "five"⟩, ⟨5, "again"⟩] := by decide +kernel
  obtain ⟨leftover, accounts, text, _⟩ := (label?_accounts base rfl bits).2 _ label
  rw [named] at text
  exact ⟨by decide, bits, label, named, leftover, accounts, text⟩

end NameTable
end ResourceTemplate
