/-! Blank characters, the ones with the Unicode property `White_Space`, and trimming. -/
namespace ResourceTemplate.Text

def isBlank (c : Char) : Bool :=
  let n := c.toNat
  (9 ≤ n && n ≤ 13) || n == 0x20 || n == 0x85 || n == 0xA0 || n == 0x1680 ||
    (0x2000 ≤ n && n ≤ 0x200A) || n == 0x2028 || n == 0x2029 || n == 0x202F ||
    n == 0x205F || n == 0x3000

def trimStart (text : List Char) : List Char := text.dropWhile isBlank

def trimEnd (text : List Char) : List Char := (trimStart text.reverse).reverse

def trim (text : List Char) : List Char := trimEnd (trimStart text)

/-- Letters are compared without regard to ASCII case. -/
def equalFold (a b : List Char) : Bool := a.map Char.toLower == b.map Char.toLower

end ResourceTemplate.Text
