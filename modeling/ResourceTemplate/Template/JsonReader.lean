import ResourceTemplate.Json.Reader
import ResourceTemplate.Template.WellFormed

/-! Reading templates from their JSON form. A list of fields is read field by field, and the
first fault met on the way is reported: text that is no JSON, a value of the wrong shape, or a
nested list that breaks the rules of templates. Unknown keys mean nothing. -/
namespace ResourceTemplate

inductive JsonError where
  | malformed
  /-- JSON, but not the form of a template. -/
  | shape
  | invalid (error : TemplateError)
  deriving DecidableEq, Repr

/-- An integer format by its name, which may also be the only key of an object with null. -/
def IntType.ofJson? : Json → Option IntType
  | .string name => ofName? name
  | .object [(name, .null)] => ofName? name
  | _ => none

namespace JsonForm

abbrev Result (α : Type) := Except JsonError α

def expected {α : Type} : Option α → Result α
  | some value => return value
  | none => throw .shape

/-- The value of a key that stands at most once among the entries of an object. -/
def optional (key : String) (entries : List (String × Json)) : Result (Option Json) :=
  match entries.filter (·.1 == key) with
  | [] => return none
  | [(_, value)] => return some value
  | _ => throw .shape

def required (key : String) (entries : List (String × Json)) : Result Json := do
  expected (← optional key entries)

def string (json : Json) : Result String := expected json.string?

def flag (json : Json) : Result Bool := expected json.bool?

def flagOrOff : Option Json → Result Bool
  | some json => flag json
  | none => return false

def natural (json : Json) : Result Nat := expected json.natural?

def int64 (json : Json) : Result Int64 := do
  let n ← expected json.integer?
  if Numeral.minSigned ≤ n ∧ n ≤ Numeral.maxSigned then return Int64.ofInt n else throw .shape

/-- An option is given by its name or by its position. -/
def choice {α : Type} (name : α → String) (options : List α) : Json → Result α
  | .string text => expected (options.find? (name · == text))
  | json => do expected options[← natural json]?

/-- A tag with its parameters, given by key in an object or in order in a list. -/
def tagged (tagKey : String) (options : List (String × List String)) :
    Json → Result (String × List (Option Json))
  | .object entries => do
    let (tag, keys) ← choice Prod.fst options (← required tagKey entries)
    return (tag, ← keys.mapM (optional · entries))
  | .array (tag :: values) => do
    let (tag, keys) ← choice Prod.fst options tag
    if keys.length < values.length then throw .shape
    return (tag, (List.range keys.length).map (values[·]?))
  | _ => throw .shape

def intType : Json → Result IntType
  | .object [(name, .object [])] => expected (IntType.ofName? name)
  | json => expected (IntType.ofJson? json)

def enumEntry : Json → Result EnumEntry
  | .object entries => do
    return ⟨← int64 (← required "value" entries), ← string (← required "name" entries)⟩
  | .array [value, name] => return ⟨← int64 value, ← string name⟩
  | _ => throw .shape

def enumEntries (json : Json) : Result (List EnumEntry) := do
  (← expected json.array?).mapM enumEntry

def repetition (json : Json) : Result Repetition := do
  let options := [("fixed", ["count"]), ("counted", ["count_field", "zero_based"]),
    ("until_end", []), ("zero_terminated", [])]
  match ← tagged "kind" options json with
  | ("fixed", [some count]) => return .fixed (← natural count)
  | ("counted", [some countField, zeroBased]) =>
    return .counted (← string countField) (← flagOrOff zeroBased)
  | ("until_end", _) => return .untilEnd
  | ("zero_terminated", _) => return .zeroTerminated
  | _ => throw .shape

def condition (json : Json) : Result (Option Condition) := do
  if let .null := json then return none
  match ← tagged "when" [("equals", ["field", "value"]), ("non_zero", ["field"])] json with
  | ("equals", [some field, some value]) => return some (.equals (← string field) (← int64 value))
  | ("non_zero", [some field]) => return some (.nonZero (← string field))
  | _ => throw .shape

def types : List Tag :=
  IntType.all.map (.scalar <| .int ·) ++
    [.scalar .fixedString, .scalar .pascalString, .scalar .boolean, .scalar .enumeration,
     .branch .composite, .branch .group]

def parameterKeys : Tag → List String
  | .scalar .fixedString => ["len"]
  | .scalar .boolean => ["wide"]
  | .scalar .enumeration => ["base", "entries", "bitmask"]
  | .branch .composite => ["fields"]
  | .branch .group => ["fields", "repeat", "condition"]
  | _ => []

structure Parameters where
  length : Option Nat
  wide : Option Bool
  base : Option IntType
  entries : Option (List EnumEntry)
  bitmask : Option Bool
  fields : Option Template
  repetition : Option Repetition
  condition : Option (Option Condition)

def Parameters.none : Parameters := ⟨.none, .none, .none, .none, .none, .none, .none, .none⟩

def once {α : Type} (earlier : Option α) (value : Result α) : Result (Option α) :=
  match earlier with
  | some _ => throw .shape
  | none => some <$> value

def Parameters.add (parameters : Parameters) (key : String) (value : Json) :
    Result Parameters := do
  match key with
  | "len" => return { parameters with length := ← once parameters.length (natural value) }
  | "wide" => return { parameters with wide := ← once parameters.wide (flag value) }
  | "base" => return { parameters with base := ← once parameters.base (intType value) }
  | "entries" =>
    return { parameters with entries := ← once parameters.entries (enumEntries value) }
  | "bitmask" => return { parameters with bitmask := ← once parameters.bitmask (flag value) }
  | "repeat" =>
    return { parameters with repetition := ← once parameters.repetition (JsonForm.repetition value) }
  | "condition" =>
    return { parameters with condition := ← once parameters.condition (JsonForm.condition value) }
  | _ => return parameters

def Parameters.field (parameters : Parameters) (name : String) : Tag → Result Field
  | .scalar (.int type) => return .scalar name (.int type)
  | .scalar .fixedString => return .scalar name (.fixedString (← expected parameters.length))
  | .scalar .pascalString => return .scalar name .pascalString
  | .scalar .boolean => return .scalar name (.boolean (parameters.wide.getD false))
  | .scalar .enumeration => do
    let names := ⟨parameters.entries.getD [], parameters.bitmask.getD false⟩
    return .scalar name (.enumeration (← expected parameters.base) names)
  | .branch .composite => return .composite name (← expected parameters.fields)
  | .branch .group =>
    return .group name (← expected parameters.fields) (← expected parameters.repetition)
      (parameters.condition.getD .none)
  | .branch .item => throw .shape

def checked (fields : List Field) : Result Template :=
  match Template.check fields with
  | .ok () => return fields
  | .error error => throw (.invalid error)

mutual
def template : Json → Result Template
  | .array descriptions => do checked (← fieldList descriptions)
  | _ => throw .shape

def fieldList : List Json → Result (List Field)
  | [] => return []
  | description :: descriptions => do
    let field ← field description
    return field :: (← fieldList descriptions)

def field : Json → Result Field
  | .object entries => do
    let name ← string (← required "name" entries)
    let type ← choice Tag.name types (← required "type" entries)
    (← addAll (parameterKeys type) .none entries).field name type
  | _ => throw .shape

/-- Entries are looked at in their order, as far as they are parameters of the type. -/
def addAll (keys : List String) : Parameters → List (String × Json) → Result Parameters
  | parameters, [] => return parameters
  | parameters, (key, value) :: entries => do
    if ¬ keys.contains key then addAll keys parameters entries
    else if key = "fields" then
      let fields ← once parameters.fields (template value)
      addAll keys { parameters with fields := fields } entries
    else addAll keys (← parameters.add key value) entries
end

def mismatch {α : Type} : Option (Json.Token × List Char) → Result α
  | some (token, _) => throw (if token.startsValue then .shape else .malformed)
  | none => throw .malformed

def readString : Json.Reader JsonError String := fun text =>
  match Json.Token.next? text with
  | some (.string text, rest) => return (text, rest)
  | token => mismatch token

/-- An entry of a description in the outermost list, which keeps an eye on the name. -/
def readEntry (earlier : List (String × Json)) : Json.Reader JsonError (String × Json) :=
  fun text => do
    let (key, rest) ← Json.readKey .malformed text
    if key = "name" then
      if earlier.any (·.1 == key) then throw .shape
      let (name, rest) ← readString (← Json.readColon .malformed rest)
      return ((key, .string name), rest)
    else
      let (value, rest) ←
        Json.readValue .malformed (Json.maxDepth - 2) (← Json.readColon .malformed rest)
      return ((key, value), rest)

def readField : Json.Reader JsonError Field := fun text =>
  match Json.Token.next? text with
  | some (.openObject, rest) => do
    let (entries, rest) ← Json.listBody .malformed Json.Token.closesObject readEntry rest
    return (← field (.object entries), rest)
  | token => mismatch token

def readFields : Json.Reader JsonError (List Field) := fun text =>
  match Json.Token.next? text with
  | some (.openArray, rest) =>
    Json.listBody .malformed Json.Token.closesArray (fun _ => readField) rest
  | token => mismatch token

end JsonForm

/-- The fields that a text lists. The nested lists keep the rules of templates, but the outermost
is not checked. -/
def Field.listOfJsonText (text : String) : Except JsonError (List Field) := do
  let (fields, rest) ← JsonForm.readFields text.toList
  if Json.atEnd rest then return fields else throw .malformed

def Template.ofJsonText (text : String) : Except JsonError Template := do
  let (fields, rest) ← JsonForm.readFields text.toList
  let template ← JsonForm.checked fields
  if Json.atEnd rest then return template else throw .malformed

end ResourceTemplate
