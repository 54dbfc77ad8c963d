import ResourceTemplate.Bytes

/-! The command line: what may be asked for, and reading it from the arguments. -/
namespace ResourceTemplate.CommandLine

inductive TemplateSource where
  | json (path : String)
  | tmpl (path : String)
  deriving DecidableEq, Repr

inductive Format where
  | text
  | json
  deriving DecidableEq, Repr

inductive Setting where
  | template | tmpl | format | output | encoding | edit
  deriving DecidableEq, Repr

inductive Switch where
  | strict | overwrite | verbose | version
  deriving DecidableEq, Repr

inductive OptionKind where
  | setting (setting : Setting)
  | switch (switch : Switch)
  deriving DecidableEq, Repr

def longOptions : List (String × OptionKind) :=
  [("template", .setting .template), ("tmpl", .setting .tmpl), ("format", .setting .format),
   ("output", .setting .output), ("encoding", .setting .encoding), ("set", .setting .edit),
   ("strict", .switch .strict), ("no-confirm-overwrite", .switch .overwrite),
   ("version", .switch .version)]

def shortOptions : List (Char × OptionKind) :=
  [('t', .setting .template), ('T', .setting .tmpl), ('o', .setting .format),
   ('f', .setting .output), ('v', .switch .verbose), ('V', .switch .version)]

inductive Stop where
  | usage
  | version
  deriving DecidableEq, Repr

structure Arguments where
  input : Option String := none
  template : Option String := none
  tmpl : Option String := none
  format : Option Format := none
  output : Option String := none
  encoding : Option String := none
  edits : List String := []
  strict : Bool := false
  overwrite : Bool := false
  verbosity : Nat := 0
  deriving DecidableEq, Repr

namespace Arguments

def once {α : Type} (earlier : Option α) (value : α) : Except Stop (Option α) :=
  if earlier.isSome then throw .usage else return some value

def format? (text : String) : Except Stop Format :=
  match text with
  | "text" => return .text
  | "json" => return .json
  | _ => throw .usage

def set (arguments : Arguments) (setting : Setting) (value : String) :
    Except Stop Arguments := do
  match setting with
  | .template => return { arguments with template := ← once arguments.template value }
  | .tmpl => return { arguments with tmpl := ← once arguments.tmpl value }
  | .format => return { arguments with format := ← once arguments.format (← format? value) }
  | .output => return { arguments with output := ← once arguments.output value }
  | .encoding => return { arguments with encoding := ← once arguments.encoding value }
  | .edit => return { arguments with edits := arguments.edits ++ [value] }

def turnOn (arguments : Arguments) : Switch → Except Stop Arguments
  | .strict =>
    if arguments.strict then throw .usage else return { arguments with strict := true }
  | .overwrite =>
    if arguments.overwrite then throw .usage else return { arguments with overwrite := true }
  | .verbose => return { arguments with verbosity := arguments.verbosity + 1 }
  | .version => throw .version

def place (arguments : Arguments) (value : String) : Except Stop Arguments := do
  return { arguments with input := ← once arguments.input value }

/-- An argument that is no option: it has no dash in front, or is nothing but a dash. -/
def isValue (argument : String) : Bool :=
  match argument.toList with
  | '-' :: _ :: _ => false
  | _ => true

/-- Options of one letter behind one dash. One that takes a value takes the rest of the argument,
or else asks for the next argument. -/
def shorts (arguments : Arguments) : List Char → Except Stop (Arguments × Option Setting)
  | [] => return (arguments, none)
  | letter :: rest =>
    match shortOptions.lookup letter with
    | none => throw .usage
    | some (.switch switch) => do shorts (← arguments.turnOn switch) rest
    | some (.setting setting) =>
      match rest with
      | [] => return (arguments, some setting)
      | '=' :: value => return (← arguments.set setting (String.ofList value), none)
      | value => return (← arguments.set setting (String.ofList value), none)

/-- An option behind two dashes. Its value may stand behind an equals sign, and is the next
argument otherwise. -/
def long (arguments : Arguments) (text : List Char) :
    Except Stop (Arguments × Option Setting) :=
  let name := text.takeWhile (· ≠ '=')
  let value := (text.dropWhile (· ≠ '=')).tail?
  match longOptions.lookup (String.ofList name), value with
  | none, _ => throw .usage
  | some (.switch switch), none => return (← arguments.turnOn switch, none)
  | some (.switch _), some _ => throw .usage
  | some (.setting setting), none => return (arguments, some setting)
  | some (.setting setting), some value =>
    return (← arguments.set setting (String.ofList value), none)

def option (arguments : Arguments) (argument : String) :
    Except Stop (Arguments × Option Setting) :=
  if isValue argument then return (← arguments.place argument, none)
  else
    match argument.toList with
    | '-' :: '-' :: text => arguments.long text
    | text => arguments.shorts text.tail

/-- Two dashes alone end the options. An option that waits for its value has to get one. -/
def readAll : Arguments → (waiting : Option Setting) → List String → Except Stop Arguments
  | arguments, none, [] => return arguments
  | _, some _, [] => throw .usage
  | arguments, some setting, argument :: rest => do
    if isValue argument then readAll (← arguments.set setting argument) none rest
    else throw .usage
  | arguments, none, argument :: rest => do
    if argument = "--" then rest.foldlM place arguments
    else
      let (arguments, waiting) ← arguments.option argument
      readAll arguments waiting rest

end Arguments

structure Command where
  source : TemplateSource
  input : String
  format : Format
  encoding : String
  strict : Bool
  edits : List String
  output : Option String
  overwrite : Bool
  verbosity : Nat
  deriving DecidableEq, Repr

def Arguments.command? (arguments : Arguments) : Option Command := do
  let source ← match arguments.template, arguments.tmpl with
    | some path, none => some (.json path)
    | none, some path => some (.tmpl path)
    | _, _ => none
  return {
    source := source
    input := ← arguments.input
    format := arguments.format.getD .text
    encoding := arguments.encoding.getD "macintosh"
    strict := arguments.strict
    edits := arguments.edits
    output := arguments.output
    overwrite := arguments.overwrite
    verbosity := arguments.verbosity }

def Command.parse (arguments : List String) : Except Stop Command := do
  match (← Arguments.readAll {} none arguments).command? with
  | some command => return command
  | none => throw .usage

end ResourceTemplate.CommandLine
