import ResourceTemplate.Json.Number

/-! The tokens of JSON text. A token is taken from the front of a text without a look at what
follows it; text on which no token starts is malformed. -/
namespace ResourceTemplate.Json

inductive Token where
  | openArray
  | closeArray
  | openObject
  | closeObject
  | comma
  | colon
  | string (text : String)
  /-- A literal that is a value by itself: a number, a truth value or null. -/
  | literal (value : Json)

def isSpace (c : Char) : Bool := c == ' ' || c == '\n' || c == '\t' || c == '\r'

def skipSpace (text : List Char) : List Char := text.dropWhile isSpace

def hex4? : List Char → Option (Nat × List Char)
  | a :: b :: c :: d :: rest => do
    let digits ← [a, b, c, d].mapM (Numeral.digit? 16)
    return (digits.foldl (16 * · + ·) 0, rest)
  | _ => none

/-- A character above `FFFF` is escaped as a high and a low half, which stand together only. -/
def unicodeEscape? (text : List Char) : Option (Char × List Char) := do
  let (unit, rest) ← hex4? text
  if 0xDC00 ≤ unit ∧ unit ≤ 0xDFFF then none
  else if 0xD800 ≤ unit ∧ unit ≤ 0xDBFF then
    match rest with
    | '\\' :: 'u' :: rest =>
      let (low, rest) ← hex4? rest
      if 0xDC00 ≤ low ∧ low ≤ 0xDFFF then
        some (Char.ofNat (0x10000 + (unit - 0xD800) * 0x400 + (low - 0xDC00)), rest)
      else none
    | _ => none
  else some (Char.ofNat unit, rest)

def unescape? : List Char → Option (Char × List Char)
  | '"' :: rest => some ('"', rest)
  | '\\' :: rest => some ('\\', rest)
  | '/' :: rest => some ('/', rest)
  | 'b' :: rest => some ('\x08', rest)
  | 'f' :: rest => some ('\x0C', rest)
  | 'n' :: rest => some ('\n', rest)
  | 'r' :: rest => some ('\r', rest)
  | 't' :: rest => some ('\t', rest)
  | 'u' :: rest => unicodeEscape? rest
  | _ => none

def stringBody? (text : List Char) : Option (List Char × List Char) :=
  match text with
  | [] => none
  | '"' :: rest => some ([], rest)
  | '\\' :: escaped =>
    match unescape? escaped with
    | some (c, rest) =>
      if _ : rest.length ≤ escaped.length then
        (stringBody? rest).map fun (body, rest) => (c :: body, rest)
      else none
    | none => none
  | c :: rest =>
    if c.toNat < 0x20 then none
    else (stringBody? rest).map fun (body, rest) => (c :: body, rest)
termination_by text.length

def word? (word : String) (text : List Char) : Option (List Char) :=
  if word.toList.isPrefixOf text then some (text.drop word.length) else none

def Token.scan? : List Char → Option (Token × List Char)
  | [] => none
  | c :: rest =>
    match c with
    | '[' => some (openArray, rest)
    | ']' => some (closeArray, rest)
    | '\x7b' => some (openObject, rest)
    | '\x7d' => some (closeObject, rest)
    | ',' => some (comma, rest)
    | ':' => some (colon, rest)
    | '"' => (stringBody? rest).map fun (body, rest) => (string (String.ofList body), rest)
    | 't' => (word? "true" (c :: rest)).map fun rest => (literal (.bool true), rest)
    | 'f' => (word? "false" (c :: rest)).map fun rest => (literal (.bool false), rest)
    | 'n' => (word? "null" (c :: rest)).map fun rest => (literal .null, rest)
    | _ =>
      if c = '-' ∨ c.isDigit then
        (number? (c :: rest)).map fun (value, rest) => (literal value, rest)
      else none

def Token.next? (text : List Char) : Option (Token × List Char) :=
  Token.scan? (skipSpace text)

end ResourceTemplate.Json
