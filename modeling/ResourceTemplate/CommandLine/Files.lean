import ResourceTemplate.Bytes

/-! The files that a command reads and writes. A command needs few operations on them; the files
of one directory, given as a list, are one place where they can be had. -/
namespace ResourceTemplate.CommandLine

inductive FileError where
  | notFound
  | notDirectory
  | isDirectory
  | alreadyExists
  | other (text : String)
  deriving DecidableEq, Repr

def FileError.message : FileError → String
  | .notFound => "No such file or directory (os error 2)"
  | .notDirectory => "Not a directory (os error 20)"
  | .isDirectory => "Is a directory (os error 21)"
  | .alreadyExists => "File exists (os error 17)"
  | .other text => text

structure FileAccess (m : Type → Type) where
  read : (path : String) → m (Except FileError Bytes)
  isDirectory : (path : String) → m Bool
  isPresent : (path : String) → m Bool
  /-- Makes a directory and those that it lies in. -/
  makeDirectory : (path : String) → m (Except FileError Unit)
  write : (path : String) → Bytes → m (Except FileError Unit)

def splitSlashes : List Char → List (List Char)
  | [] => [[]]
  | c :: rest =>
    match splitSlashes rest with
    | [] => [[c]]
    | part :: parts => if c = '/' then [] :: part :: parts else (c :: part) :: parts

def pathNames (path : String) : List String :=
  ((splitSlashes path.toList).map String.ofList).filter (· ≠ "")

def startsAtRoot (path : String) : Bool := path.toList.head? == some '/'

def endsInSlash (path : String) : Bool := path.toList.getLast? == some '/'

def parentDirectory? (path : String) : Option String :=
  let names := (pathNames path).filter (· ≠ ".")
  let start := if startsAtRoot path then "/" else ""
  if names.length ≤ 1 then none else some (start ++ String.intercalate "/" names.dropLast)

abbrev FileTree := List (List String × Option Bytes)

inductive Place where
  | inside (names : List String)
  | outside (names : List String)
  deriving DecidableEq, Repr

def Place.start (path : String) : Place := if startsAtRoot path then outside [] else inside []

/-- The place that a name stands for in a directory. One dot is the directory itself, and two are
the one that it lies in. -/
def Place.step : Place → String → Place
  | place, "." => place
  | inside [], ".." => outside []
  | inside names, ".." => inside names.dropLast
  | outside names, ".." => outside names.dropLast
  | inside names, name => inside (names ++ [name])
  | outside names, name => outside (names ++ [name])

namespace FileTree

inductive Kind where
  | file (bytes : Bytes)
  | directory
  | absent
  deriving DecidableEq, Repr

/-- A directory need not be listed if anything in it is. Nothing is known of what lies outside of
the tree, but that there are directories around it. -/
def kind (tree : FileTree) : Place → Kind
  | .inside [] => .directory
  | .inside names =>
    match tree.lookup names with
    | some (some bytes) => .file bytes
    | some none => .directory
    | none => if tree.any fun entry => names.isPrefixOf entry.1 then .directory else .absent
  | .outside [] => .directory
  | .outside _ => .absent

/-- Where names lead from a directory. Only the last one may be missing, and whatever has names
after it must be a directory. -/
def walk (tree : FileTree) : Place → List String → Except FileError Place
  | place, [] => return place
  | place, [name] => return place.step name
  | place, name :: rest =>
    match tree.kind (place.step name) with
    | .directory => walk tree (place.step name) rest
    | .file _ => throw .notDirectory
    | .absent => throw .notFound

def resolve (tree : FileTree) (path : String) : Except FileError Place :=
  if path = "" then throw .notFound else tree.walk (Place.start path) (pathNames path)

/-- A path that ends in a slash asks for a directory. -/
def kindAt (tree : FileTree) (path : String) : Except FileError Kind := do
  match tree.kind (← tree.resolve path) with
  | .file bytes => if endsInSlash path then throw .notDirectory else return .file bytes
  | kind => return kind

def read (tree : FileTree) (path : String) : Except FileError Bytes := do
  match ← tree.kindAt path with
  | .file bytes => return bytes
  | .directory => throw .isDirectory
  | .absent => throw .notFound

def isDirectory (tree : FileTree) (path : String) : Bool :=
  match tree.kindAt path with
  | .ok .directory => true
  | _ => false

def isPresent (tree : FileTree) (path : String) : Bool :=
  match tree.kindAt path with
  | .ok .absent => false
  | .ok _ => true
  | .error _ => false

/-- Makes the directories along a path that are missing. `blocked` is what a file in the way
means: on a path that could be followed up to it, it is no directory, and behind a directory just
made, it takes the name of one. -/
def makeDirectories (tree : FileTree) (blocked : FileError) (place : Place) :
    List String → Except FileError FileTree
  | [] => return tree
  | name :: rest =>
    let next := place.step name
    match tree.kind next, next with
    | .directory, _ => makeDirectories tree blocked next rest
    | .file _, _ => throw blocked
    | .absent, .inside names => makeDirectories ((names, none) :: tree) .alreadyExists next rest
    | .absent, .outside _ => throw .notFound

/-- A path that ends in a slash cannot become a file, nor can one outside of the tree. -/
def write (tree : FileTree) (path : String) (bytes : Bytes) : Except FileError FileTree := do
  let place ← tree.resolve path
  if endsInSlash path then throw .isDirectory
  match tree.kind place, place with
  | .directory, _ => throw .isDirectory
  | _, .inside names => return (names, some bytes) :: tree.filter (·.1 ≠ names)
  | _, .outside _ => throw .notFound

def access : FileAccess (StateM FileTree) where
  read path := return (← get).read path
  isDirectory path := return (← get).isDirectory path
  isPresent path := return (← get).isPresent path
  makeDirectory path := do
    match (← get).makeDirectories .notDirectory (Place.start path) (pathNames path) with
    | .ok tree => set tree; return .ok ()
    | .error error => return .error error
  write path bytes := do
    match (← get).write path bytes with
    | .ok tree => set tree; return .ok ()
    | .error error => return .error error

end FileTree
end ResourceTemplate.CommandLine
