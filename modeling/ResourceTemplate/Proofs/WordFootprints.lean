import ResourceTemplate.Proofs.FewestBytes

/-! Footprints in machine words, where a sum or a product that no word holds is none at all. Nested
lists are checked before they are used, so that it makes no difference to add up without a limit. -/
namespace ResourceTemplate

namespace Word

def of? (n : Nat) : Option Nat := if n ≤ Numeral.maxWord then some n else none

def add? (m n : Nat) : Option Nat := of? (m + n)

def mul? (m n : Nat) : Option Nat := of? (m * n)

theorem of?_eq_some {n : Nat} (fits : n ≤ Numeral.maxWord) : of? n = some n := if_pos fits

theorem eq_of_of? {n word : Nat} (held : of? n = some word) : word = n := by
  by_cases fits : n ≤ Numeral.maxWord
  · rw [of?_eq_some fits] at held
    exact (Option.some.inj held).symm
  · rw [of?, if_neg fits] at held
    contradiction

theorem add?_eq_some {m n : Nat} (fits : m + n ≤ Numeral.maxWord) : add? m n = some (m + n) :=
  of?_eq_some fits

/-- A product that is no word is none after one more is added, either. -/
theorem mul?_succ (m n : Nat) : ((mul? m n).bind fun product => add? product 1) = of? (m * n + 1) := by
  by_cases fits : m * n ≤ Numeral.maxWord
  · rw [mul?, of?_eq_some fits]
    rfl
  · have large : ¬ m * n + 1 ≤ Numeral.maxWord := by omega
    rw [mul?, of?, if_neg fits, of?, if_neg large]
    rfl

end Word

mutual
def Field.footprint? : Field → Option Nat
  | .scalar _ type => Word.add? type.minWidth 1
  | .composite _ fields => footprints? 1 fields
  | .group _ fields (.fixed count) _ => do
    let item ← footprints? 1 fields
    let items ← Word.mul? count item
    Word.add? items 1
  | .group .. => some 1

def Field.footprints? : (total : Nat) → List Field → Option Nat
  | total, [] => some total
  | total, field :: fields => do
    let footprint ← field.footprint?
    let total ← Word.add? total footprint
    footprints? total fields
end

/-- One more than a checked template's footprints is still a word. -/
theorem Template.footprints_succ_le {template : Template} (checked : template.check = .ok ()) :
    1 + Field.footprints template ≤ Numeral.maxWord := by
  have small := footprints_le_maxFootprint checked
  simp only [maxFootprint, Numeral.maxWord] at *
  omega

mutual
theorem Field.footprint?_eq : (field : Field) → field.Nested (·.check = .ok ()) →
    field.footprint? = Word.of? field.footprint
  | .scalar .., _ => rfl
  | .composite _ fields, ⟨checked, nested⟩ => by
    have fits := Template.footprints_succ_le checked
    rw [Field.footprint?, Field.footprints?_eq fields 1 nested fits, Field.footprint,
      Word.of?_eq_some fits]
  | .group _ fields (.fixed count) _, ⟨checked, nested⟩ => by
    have fits := Template.footprints_succ_le checked
    rw [Field.footprint?, Field.footprints?_eq fields 1 nested fits, Field.footprint]
    exact Word.mul?_succ count _
  | .group _ _ (.counted ..) _, _ | .group _ _ .untilEnd _, _ | .group _ _ .zeroTerminated _, _ => rfl

theorem Field.footprints?_eq : (fields : List Field) → (total : Nat) →
    Field.AllNested (·.check = .ok ()) fields → total + Field.footprints fields ≤ Numeral.maxWord →
      Field.footprints? total fields = some (total + Field.footprints fields)
  | [], _, _, _ => rfl
  | field :: fields, total, ⟨first, follow⟩, fits => by
    rw [Field.footprints] at fits ⊢
    have alone : field.footprint ≤ Numeral.maxWord := by omega
    have front : total + field.footprint ≤ Numeral.maxWord := by omega
    have rest := Field.footprints?_eq fields (total + field.footprint) follow (by omega)
    rw [Field.footprints?, Field.footprint?_eq field first, Word.of?_eq_some alone]
    simp only [Option.bind_eq_bind, Option.bind_some, Word.add?_eq_some front, rest]
    rw [Nat.add_assoc]
end

end ResourceTemplate
