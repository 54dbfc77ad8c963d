import ResourceTemplate.Bytes

/-! UTF-8. A byte string falls into well-formed characters and ill-formed pieces; a piece is
the longest start of a character at that place, or else a single byte. -/
namespace ResourceTemplate.Utf8

def encodeChar (c : Char) : Bytes :=
  let n := c.toNat
  if n < 0x80 then [UInt8.ofNat n]
  else if n < 0x800 then [UInt8.ofNat (0xC0 + n / 64), UInt8.ofNat (0x80 + n % 64)]
  else if n < 0x10000 then
    [UInt8.ofNat (0xE0 + n / 4096), UInt8.ofNat (0x80 + n / 64 % 64),
     UInt8.ofNat (0x80 + n % 64)]
  else
    [UInt8.ofNat (0xF0 + n / 262144), UInt8.ofNat (0x80 + n / 4096 % 64),
     UInt8.ofNat (0x80 + n / 64 % 64), UInt8.ofNat (0x80 + n % 64)]

def encode (text : List Char) : Bytes := text.flatMap encodeChar

/-- What a first byte promises: how many bytes follow, the bits it holds itself, and the range
of the second byte, which rules out overlong forms, surrogates and too large numbers. -/
structure Lead where
  following : Nat
  value : Nat
  low : Nat
  high : Nat

def lead? (byte : UInt8) : Option Lead :=
  let n := byte.toNat
  if n < 0x80 then some ⟨0, n, 0, 0⟩
  else if n < 0xC2 then none
  else if n < 0xE0 then some ⟨1, n - 0xC0, 0x80, 0xBF⟩
  else if n = 0xE0 then some ⟨2, 0, 0xA0, 0xBF⟩
  else if n = 0xED then some ⟨2, 13, 0x80, 0x9F⟩
  else if n < 0xF0 then some ⟨2, n - 0xE0, 0x80, 0xBF⟩
  else if n = 0xF0 then some ⟨3, 0, 0x90, 0xBF⟩
  else if n < 0xF4 then some ⟨3, n - 0xF0, 0x80, 0xBF⟩
  else if n = 0xF4 then some ⟨3, 4, 0x80, 0x8F⟩
  else none

/-- Takes the bytes that continue a character: the number so far, or nothing when one is
missing, with what is left either way. -/
def continuation (low high : Nat) : (following value : Nat) → Bytes → Option Nat × Bytes
  | 0, value, bytes => (some value, bytes)
  | _ + 1, _, [] => (none, [])
  | following + 1, value, b :: rest =>
    if low ≤ b.toNat ∧ b.toNat ≤ high then
      continuation 0x80 0xBF following (value * 64 + (b.toNat - 0x80)) rest
    else (none, b :: rest)

theorem length_continuation_le (low high following value : Nat) (bytes : Bytes) :
    (continuation low high following value bytes).2.length ≤ bytes.length := by
  induction bytes generalizing low high following value with
  | nil => cases following <;> simp [continuation]
  | cons b rest ih =>
    cases following with
    | zero => simp [continuation]
    | succ following =>
      simp only [continuation]
      split
      · exact Nat.le_succ_of_le (ih ..)
      · simp

def pieces (bytes : Bytes) : List (Option Char) :=
  match bytes with
  | [] => []
  | b :: rest =>
    match lead? b with
    | none => none :: pieces rest
    | some lead =>
      let found := continuation lead.low lead.high lead.following lead.value rest
      found.1.map Char.ofNat :: pieces found.2
termination_by bytes.length
decreasing_by
  · exact Nat.lt_succ_self _
  · exact Nat.lt_succ_of_le (length_continuation_le ..)

/-- Ill-formed pieces are shown as the replacement character. -/
def decodeLossy (bytes : Bytes) : List Char := (pieces bytes).map (·.getD '\uFFFD')

/-- Nothing is read from bytes that are not well formed throughout. -/
def decode? (bytes : Bytes) : Option (List Char) := (pieces bytes).mapM id

end ResourceTemplate.Utf8
