import ResourceTemplate.Json.Token

/-! Reading JSON values from text. Every reader returns what it has read together with the text
that follows; what it cannot read is malformed. -/
namespace ResourceTemplate.Json

abbrev Reader (ε α : Type) := List Char → Except ε (α × List Char)

/-- The elements of a list from the next one on, up to the closing mark. How an element is read
may depend on those before it. A reader uses up some of its text, or the list would not end. -/
def elements {ε α : Type} (malformed : ε) (isClosing : Token → Bool)
    (read : (earlier : List α) → Reader ε α) (earlier : List α) (text : List Char) :
    Except ε (List α × List Char) := do
  let (element, rest) ← read earlier text
  match Token.next? rest with
  | some (.comma, rest) =>
    if _ : rest.length < text.length then
      elements malformed isClosing read (earlier ++ [element]) rest
    else throw malformed
  | some (token, rest) =>
    if isClosing token then return (earlier ++ [element], rest) else throw malformed
  | none => throw malformed
termination_by text.length

def listBody {ε α : Type} (malformed : ε) (isClosing : Token → Bool)
    (read : (earlier : List α) → Reader ε α) : Reader ε (List α) := fun text =>
  match Token.next? text with
  | some (token, rest) =>
    if isClosing token then return ([], rest) else elements malformed isClosing read [] text
  | none => elements malformed isClosing read [] text

def Token.startsValue : Token → Bool
  | openArray => true
  | openObject => true
  | string _ => true
  | literal _ => true
  | _ => false

def Token.closesArray : Token → Bool
  | closeArray => true
  | _ => false

def Token.closesObject : Token → Bool
  | closeObject => true
  | _ => false

def readKey {ε : Type} (malformed : ε) : Reader ε String := fun text =>
  match Token.next? text with
  | some (.string key, rest) => return (key, rest)
  | _ => throw malformed

def readColon {ε : Type} (malformed : ε) (text : List Char) : Except ε (List Char) :=
  match Token.next? text with
  | some (.colon, rest) => return rest
  | _ => throw malformed

def readEntry {ε α : Type} (malformed : ε) (value : Reader ε α) : Reader ε (String × α) :=
  fun text => do
    let (key, rest) ← readKey malformed text
    let (value, rest) ← value (← readColon malformed rest)
    return ((key, value), rest)

/-- Reads one value that nests arrays and objects at most `depth` deep. -/
def readValue {ε : Type} (malformed : ε) : (depth : Nat) → Reader ε Json
  | 0 => fun text =>
    match Token.next? text with
    | some (.string s, rest) => return (.string s, rest)
    | some (.literal value, rest) => return (value, rest)
    | _ => throw malformed
  | depth + 1 => fun text =>
    match Token.next? text with
    | some (.string s, rest) => return (.string s, rest)
    | some (.literal value, rest) => return (value, rest)
    | some (.openArray, rest) => do
      let (elements, rest) ←
        listBody malformed Token.closesArray (fun _ => readValue malformed depth) rest
      return (.array elements, rest)
    | some (.openObject, rest) => do
      let (entries, rest) ←
        listBody malformed Token.closesObject
          (fun _ => readEntry malformed (readValue malformed depth)) rest
      return (.object entries, rest)
    | _ => throw malformed

def atEnd (text : List Char) : Bool := (skipSpace text).isEmpty

/-- Text may nest arrays and objects this deep. -/
def maxDepth : Nat := 127

end ResourceTemplate.Json
