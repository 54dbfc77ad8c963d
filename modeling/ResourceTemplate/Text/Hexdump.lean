import ResourceTemplate.Bytes

/-! Bytes for the eye: lines of sixteen with their address, in hexadecimal and as text. -/
namespace ResourceTemplate.Hexdump

def hex (width n : Nat) : String := String.ofList ((Nat.toDigits 16 n).leftpad width '0')

def isPrintable (b : UInt8) : Bool := 0x20 ≤ b.toNat && b.toNat ≤ 0x7E

def character (b : UInt8) : Char := if isPrintable b then Char.ofNat b.toNat else '.'

def lineLength : Nat := 16

def line (address : Nat) (bytes : Bytes) : String :=
  hex 8 address ++ ": " ++ String.join (bytes.map fun b => " " ++ hex 2 b.toNat) ++
    "".pushn ' ' (3 * (lineLength - bytes.length)) ++
    "  |" ++ String.ofList (bytes.map character) ++ "|\n"

def format (address : Nat) (bytes : Bytes) : String :=
  if bytes.isEmpty then ""
  else line address (bytes.take lineLength) ++ format (address + lineLength) (bytes.drop lineLength)
termination_by bytes.length
decreasing_by
  rename_i h
  have : bytes ≠ [] := by simpa using h
  have := List.length_pos_iff.2 this
  simp [lineLength]; omega

end ResourceTemplate.Hexdump
