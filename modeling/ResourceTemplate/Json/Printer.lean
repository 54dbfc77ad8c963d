import ResourceTemplate.Json.Basic

/-! The two printed forms of a JSON value: compact, and indented by two spaces a level. -/
namespace ResourceTemplate.Json

def hexDigit (n : Nat) : Char := Nat.digitChar (n % 16)

def escape (c : Char) : List Char :=
  match c with
  | '"' => ['\\', '"']
  | '\\' => ['\\', '\\']
  | '\x08' => ['\\', 'b']
  | '\x0C' => ['\\', 'f']
  | '\n' => ['\\', 'n']
  | '\r' => ['\\', 'r']
  | '\t' => ['\\', 't']
  | c =>
    if c.toNat < 0x20 then
      ['\\', 'u', '0', '0', hexDigit (c.toNat / 16), hexDigit c.toNat]
    else [c]

def printString (text : String) : String :=
  String.ofList ('"' :: text.toList.flatMap escape ++ ['"'])

mutual
def compact : Json → String
  | null => "null"
  | bool b => toString b
  | integer n => toString n
  | real literal => literal
  | string text => printString text
  | array elements => "[" ++ compactElements "" elements ++ "]"
  | object entries => "\x7b" ++ compactEntries "" entries ++ "\x7d"

def compactElements (separator : String) : List Json → String
  | [] => ""
  | element :: rest => separator ++ element.compact ++ compactElements "," rest

def compactEntries (separator : String) : List (String × Json) → String
  | [] => ""
  | (key, value) :: rest =>
    separator ++ printString key ++ ":" ++ value.compact ++ compactEntries "," rest
end

def newline (depth : Nat) : String := String.ofList ('\n' :: List.replicate (2 * depth) ' ')

mutual
/-- `depth` is the level of the line that the value starts on. -/
def indented (depth : Nat) : Json → String
  | null => "null"
  | bool b => toString b
  | integer n => toString n
  | real literal => literal
  | string text => printString text
  | array [] => "[]"
  | array (element :: rest) =>
    "[" ++ newline (depth + 1) ++ element.indented (depth + 1) ++
      indentedElements (depth + 1) rest ++ newline depth ++ "]"
  | object [] => "\x7b\x7d"
  | object ((key, value) :: rest) =>
    "\x7b" ++ newline (depth + 1) ++ printString key ++ ": " ++ value.indented (depth + 1) ++
      indentedEntries (depth + 1) rest ++ newline depth ++ "\x7d"

def indentedElements (depth : Nat) : List Json → String
  | [] => ""
  | element :: rest =>
    "," ++ newline depth ++ element.indented depth ++ indentedElements depth rest

def indentedEntries (depth : Nat) : List (String × Json) → String
  | [] => ""
  | (key, value) :: rest =>
    "," ++ newline depth ++ printString key ++ ": " ++ value.indented depth ++
      indentedEntries depth rest
end

def pretty (json : Json) : String := json.indented 0

end ResourceTemplate.Json
