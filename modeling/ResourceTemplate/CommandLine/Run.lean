import ResourceTemplate.CommandLine.Files
import ResourceTemplate.CommandLine.Listing
import ResourceTemplate.CommandLine.Options
import ResourceTemplate.Record.JsonForm
import ResourceTemplate.Template.JsonReader
import ResourceTemplate.Tmpl.Load

/-! Running a command: a resource is decoded and edited, and then shown or written to a file. -/
namespace ResourceTemplate

def JsonError.message : JsonError → String
  | .malformed => "the text is not JSON"
  | .shape => "the JSON does not describe a template"
  | .invalid error => error.message

namespace CommandLine

structure Outcome where
  code : Nat
  output : String
  errors : String
  deriving DecidableEq, Repr

structure Printed where
  output : String
  errors : String

/-- A run may fail with a message, and what was printed before stays printed. -/
abbrev Run (m : Type → Type) (α : Type) := ExceptT String (StateT Printed m) α

section

variable {m : Type → Type} [Monad m]

def print (text : String) : Run m Unit :=
  modify fun printed => { printed with output := printed.output ++ text }

def printError (text : String) : Run m Unit :=
  modify fun printed => { printed with errors := printed.errors ++ text }

def logInfo (verbosity : Nat) (message : String) : Run m Unit := do
  if 1 ≤ verbosity then printError ("[INFO] " ++ message ++ "\n")

def logDebug (verbosity : Nat) (origin message : String) : Run m Unit := do
  if 2 ≤ verbosity then
    printError ("[DEBUG] (1) restmpl::" ++ origin ++ ": " ++ message ++ "\n")

def orFail {ε α : Type} (context : String) (message : ε → String) : Except ε α → Run m α
  | .ok a => pure a
  | .error error => throw (context ++ ": " ++ message error)

def access {α : Type} (operation : m α) : Run m α := ExceptT.lift (StateT.lift operation)

def settings (command : Command) : Run m Settings :=
  match Charset.ofLabel? command.encoding with
  | some charset => pure ⟨charset, command.strict⟩
  | none => throw s!"unknown text encoding `{command.encoding}`"

def splitEdit (edit : String) : Run m (String × String) :=
  let text := edit.toList
  match (text.dropWhile (· ≠ '=')).tail? with
  | some value =>
    pure (String.ofList (Text.trim (text.takeWhile (· ≠ '='))), String.ofList value)
  | none => throw ("`--set " ++ edit ++ "` is not of the form PATH=VALUE")

def readJsonTemplate (files : FileAccess m) (path : String) : Run m Template := do
  let context := "Failed to read template " ++ path
  let bytes ← orFail context FileError.message (← access (files.read path))
  let some text := Utf8.decode? bytes
    | throw (context ++ ": stream did not contain valid UTF-8")
  orFail ("Invalid template " ++ path ++ ": Failed to read JSON template") JsonError.message
    (Template.ofJsonText (String.ofList text))

def readTmpl (files : FileAccess m) (verbosity : Nat) (path : String) : Run m Template := do
  let data ← orFail ("Failed to read TMPL " ++ path) FileError.message
    (← access (files.read path))
  let context := "Invalid TMPL resource " ++ path
  let fields ← orFail context TmplError.message (Tmpl.fields data)
  logDebug verbosity "template::tmpl" s!"Loaded TMPL with {fields.length} top-level fields"
  orFail context TmplError.message (Tmpl.check fields)
  return fields

def readTemplate (files : FileAccess m) (verbosity : Nat) : TemplateSource → Run m Template
  | .json path => readJsonTemplate files path
  | .tmpl path => readTmpl files verbosity path

/-- Where data does not decode, the lines around the place are shown first. -/
def decode (command : Command) (template : Template) (settings : Settings) (data : Bytes) :
    Run m Record := do
  match Record.decode template settings data with
  | .ok record =>
    let kept := record.trailing.length
    if 0 < kept then
      logDebug command.verbosity "codec" <|
        s!"Template consumed {record.laidOut} of {data.length} bytes, " ++
          s!"keeping {kept} trailing bytes"
    return record
  | .error error =>
    if let some offset := error.offset? then printError (Hexdump.around data offset)
    throw ("Failed to decode " ++ command.input ++ ": " ++ error.message)

def edit (verbosity : Nat) (settings : Settings) (record : Record) :
    String × String → Run m Record
  | (path, text) => do
    let (event, record) ← orFail ("Failed to set `" ++ path ++ "` to `" ++ text ++ "`")
      CodecError.message (record.setText settings (Path.parse path) text)
    if let .value old new := event.change then
      logDebug verbosity "record" <|
        "Set `" ++ event.path.display ++ "` from " ++ old.display ++ " to " ++ new.display
    logInfo verbosity event.display
    return record

/-- An existing file would have to be confirmed, for which there is no one to ask. -/
def confirmFailure : String :=
  "Failed to write confirmation prompt to term: IO error: not a terminal: not a terminal"

def writeFile (files : FileAccess m) (overwrite : Bool) (path : String) (bytes : Bytes) :
    Run m Unit := do
  if ← access (files.isDirectory path) then
    throw ("There is a directory at " ++ path ++ ", refusing to overwrite")
  if ¬ overwrite then
    if ← access (files.isPresent path) then throw confirmFailure
  if let some parent := parentDirectory? path then
    unless ← access (files.isPresent parent) do
      match ← access (files.makeDirectory parent) with
      | .ok () => pure ()
      | .error error => throw error.message
  orFail ("Failed to create " ++ path) FileError.message (← access (files.write path bytes))

def execute (files : FileAccess m) (command : Command) : Run m Unit := do
  let settings ← settings command
  let edits ← command.edits.mapM splitEdit
  if 3 < command.verbosity then
    printError "using more than -vvv does not affect verbosity level\n"
  let template ← readTemplate files command.verbosity command.source
  let data ← orFail ("Failed to read input file at " ++ command.input) FileError.message
    (← access (files.read command.input))
  let record ← decode command template settings data
  let record ← edits.foldlM (edit command.verbosity settings) record
  match command.output with
  | some path =>
    let bytes ← orFail "Failed to encode the edited record" CodecError.message record.encode
    writeFile files command.overwrite path bytes
  | none =>
    match command.format with
    | .text => print (record.listing settings)
    | .json => print ((record.toJson settings).pretty ++ "\n")

def version : String := "restmpl_dump 0.3.0\n"

def run (files : FileAccess m) (arguments : List String) : m Outcome := do
  match Command.parse arguments with
  | .error .usage => return ⟨2, "", "invalid arguments\n"⟩
  | .error .version => return ⟨0, version, ""⟩
  | .ok command =>
    let (result, printed) ← ((execute files command).run).run ⟨"", ""⟩
    match result with
    | .ok () => return ⟨0, printed.output, printed.errors⟩
    | .error message => return ⟨1, printed.output, printed.errors ++ message ++ "\n"⟩

end

end CommandLine
end ResourceTemplate
