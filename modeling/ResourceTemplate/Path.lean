import ResourceTemplate.Text.Blank
import ResourceTemplate.Text.Numeral

/-! Paths lead from a record to one of its fields. In text, names are separated by dots and
items are written `[2]`; a bare number between dots is read as an item too. -/
namespace ResourceTemplate

inductive Segment where
  | name (name : String)
  | index (index : Nat)
  deriving DecidableEq, Repr

abbrev Path := List Segment

namespace Path

def root : Path := []

def child (path : Path) (name : String) : Path := path ++ [.name name]

def index (path : Path) (index : Nat) : Path := path ++ [.index index]

def parent? (path : Path) : Option Path :=
  if path.isEmpty then none else some path.dropLast

def name? (path : Path) : Option String :=
  match path.getLast? with
  | some (.name name) => some name
  | _ => none

def splitDots : List Char → List (List Char)
  | [] => [[]]
  | c :: rest =>
    match splitDots rest with
    | [] => [[c]]
    | part :: parts => if c = '.' then [] :: part :: parts else (c :: part) :: parts

/-- A number is an item, and anything else a name as it stands. -/
def plainSegment (text : List Char) : Segment :=
  match Numeral.word? text with
  | some index => .index index
  | none => .name (String.ofList text)

/-- What stands in brackets may have blanks around its number. Without a number it is a name
that no field has, brackets included. -/
def bracketSegment (inner : List Char) : Segment :=
  match Numeral.word? (Text.trim inner) with
  | some index => .index index
  | none => .name (String.ofList ('[' :: inner ++ [']']))

/-- The bracket groups at the start of a text. A missing closing bracket is supplied, and text
that follows a group without a bracket of its own is dropped. -/
def brackets : List Char → List Segment
  | '[' :: text =>
    bracketSegment (text.takeWhile (· ≠ ']')) :: brackets ((text.dropWhile (· ≠ ']')).drop 1)
  | _ => []
termination_by text => text.length
decreasing_by
  have := (List.dropWhile_sublist (· ≠ ']') (l := text)).length_le
  simp at *; omega

def segments (part : List Char) : List Segment :=
  let name := part.takeWhile (· ≠ '[')
  (if name.isEmpty then [] else [plainSegment name]) ++ brackets (part.dropWhile (· ≠ '['))

def parse (text : String) : Path :=
  (splitDots text.toList).flatMap segments

/-- A path after its start: every name has a dot before it. -/
def displayRest : Path → String
  | [] => ""
  | .name name :: rest => "." ++ name ++ displayRest rest
  | .index index :: rest => "[" ++ toString index ++ "]" ++ displayRest rest

def display : Path → String
  | [] => "<record>"
  | .name name :: rest => name ++ displayRest rest
  | .index index :: rest => "[" ++ toString index ++ "]" ++ displayRest rest

end Path
end ResourceTemplate
