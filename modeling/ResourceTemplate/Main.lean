import ResourceTemplate.CommandLine.Run

/-! The program, on the files of the machine it runs on. -/
namespace ResourceTemplate.CommandLine

def FileError.ofSystem : IO.Error → FileError
  | .noFileOrDirectory .. => .notFound
  | .inappropriateType _ 20 _ => .notDirectory
  | .inappropriateType _ 21 _ => .isDirectory
  | .alreadyExists .. => .alreadyExists
  | error => .other (toString error)

def attempt {α : Type} (action : IO α) : IO (Except FileError α) := do
  match ← action.toBaseIO with
  | .ok a => return .ok a
  | .error error => return .error (FileError.ofSystem error)

def readFile (path : String) : IO (Except FileError Bytes) :=
  attempt do return (← IO.FS.readBinFile path).toList

def systemFiles : FileAccess IO where
  read := readFile
  isDirectory path := return (← readFile path) matches .error .isDirectory
  isPresent path := do
    match ← readFile path with
    | .error .notFound => return false
    | .error .notDirectory => return false
    | _ => return true
  makeDirectory path := attempt (IO.FS.createDirAll path)
  write path bytes := attempt (IO.FS.writeBinFile path ⟨bytes.toArray⟩)

end ResourceTemplate.CommandLine

def main (arguments : List String) : IO UInt32 := do
  let outcome ← ResourceTemplate.CommandLine.run ResourceTemplate.CommandLine.systemFiles arguments
  IO.print outcome.output
  IO.eprint outcome.errors
  return outcome.code.toUInt32
