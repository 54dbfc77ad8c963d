import ResourceTemplate.Text.Charset
import ResourceTemplate.Text.Quoted

/-! Codes of four bytes, such as `STR#`, that name the types of resources. They are shown in
Mac Roman. -/
namespace ResourceTemplate

structure FourCharCode where
  bytes : Bytes
  length_bytes : bytes.length = 4
  deriving DecidableEq, Repr

namespace FourCharCode

def ofBytes? (bytes : Bytes) : Option FourCharCode :=
  if h : bytes.length = 4 then some ⟨bytes, h⟩ else none

def parse? (text : String) : Option FourCharCode := do
  ofBytes? (← Charset.macRoman.encode? text.toList)

def refusal (text : String) : String := s!"`{text}` is not a four character code"

def characters (code : FourCharCode) : List Char := Charset.macRoman.decode code.bytes

def display (code : FourCharCode) : String := String.ofList code.characters

def describe (code : FourCharCode) : String := "FourCharCode(" ++ Text.quoted code.characters ++ ")"

end FourCharCode
end ResourceTemplate
