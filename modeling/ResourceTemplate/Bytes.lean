/-! Byte strings, numbers stored with the most significant byte first, and the place a
reader has reached. -/
namespace ResourceTemplate

abbrev Bytes := List UInt8

namespace Bytes

/-- The low `width` bytes of `n`, most significant first. -/
def ofNat : (width : Nat) → Nat → Bytes
  | 0, _ => []
  | width + 1, n => ofNat width (n / 256) ++ [UInt8.ofNat n]

def toNat (bytes : Bytes) : Nat := bytes.foldl (fun n b => n * 256 + b.toNat) 0

def split? (n : Nat) (bytes : Bytes) : Option (Bytes × Bytes) :=
  if n ≤ bytes.length then some (bytes.take n, bytes.drop n) else none

def resize (length : Nat) (bytes : Bytes) : Bytes :=
  bytes.take length ++ List.replicate (length - bytes.length) 0

@[simp] theorem length_ofNat (width n : Nat) : (ofNat width n).length = width := by
  induction width generalizing n with
  | zero => rfl
  | succ width ih => simp [ofNat, ih]

@[simp] theorem toNat_append_singleton (bytes : Bytes) (b : UInt8) :
    toNat (bytes ++ [b]) = toNat bytes * 256 + b.toNat := by
  simp [toNat]

@[simp] theorem length_resize (length : Nat) (bytes : Bytes) :
    (resize length bytes).length = length := by
  simp [resize]; omega

theorem split?_eq_some_iff {n : Nat} {bytes first rest : Bytes} :
    split? n bytes = some (first, rest) ↔ bytes = first ++ rest ∧ first.length = n := by
  constructor
  · intro h
    simp only [split?, Option.ite_none_right_eq_some, Option.some.injEq, Prod.mk.injEq] at h
    obtain ⟨enough, rfl, rfl⟩ := h
    simp [enough]
  · rintro ⟨rfl, rfl⟩
    simp [split?]

end Bytes

/-- The bytes that are left to read, and how many were read before them. -/
structure Input where
  offset : Nat
  bytes : Bytes
  deriving DecidableEq, Repr

namespace Input

def remaining (input : Input) : Nat := input.bytes.length

def atEnd (input : Input) : Bool := input.bytes.isEmpty

def take? (n : Nat) (input : Input) : Option (Bytes × Input) :=
  (Bytes.split? n input.bytes).map fun (first, rest) => (first, ⟨input.offset + n, rest⟩)

theorem take?_eq_some_iff {n : Nat} {input rest : Input} {taken : Bytes} :
    input.take? n = some (taken, rest) ↔
      input.bytes = taken ++ rest.bytes ∧ taken.length = n ∧ rest.offset = input.offset + n := by
  simp only [take?, Option.map_eq_some_iff, Prod.exists, Bytes.split?_eq_some_iff, Prod.mk.injEq]
  constructor
  · rintro ⟨first, left, ⟨same, length⟩, rfl, rfl⟩
    exact ⟨same, length, rfl⟩
  · rintro ⟨same, length, place⟩
    exact ⟨taken, rest.bytes, ⟨same, length⟩, rfl, by rw [← place]⟩

end Input
end ResourceTemplate
