import ResourceTemplate.Template.WellFormed

/-! What can be wrong with a `TMPL` resource. Offsets are those of the entries. -/
namespace ResourceTemplate

inductive TmplError where
  | truncated (offset need available : Nat)
  | unknownCode (code : String) (offset : Nat)
  | unbalancedList (offset : Nat)
  | expectedListStart (code : String) (offset : Nat)
  | caseWithoutField (offset : Nat)
  | invalidCase (label : String) (offset : Nat)
  /-- The value is the one whose opposite no signed 64-bit integer is. -/
  | caseOverflow (offset : Nat)
  | invalidFixedCount (label : String) (offset : Nat)
  | invalid (error : TemplateError)
  deriving DecidableEq, Repr

def TmplError.message : TmplError → String
  | .truncated offset need available =>
    s!"TMPL entry at offset {offset} is truncated " ++
      s!"(need {need} bytes, have {available})"
  | .unknownCode code offset =>
    s!"TMPL entry at offset {offset} has unknown type code `{code}`"
  | .unbalancedList offset => s!"TMPL list marker at offset {offset} is unbalanced"
  | .expectedListStart code offset =>
    s!"TMPL count `{code}` at offset {offset} is not followed by `LSTC`"
  | .caseWithoutField offset =>
    s!"TMPL `CASE` at offset {offset} does not follow an integer field"
  | .invalidCase label offset =>
    s!"TMPL `CASE` label `{label}` at offset {offset} is not of the form `name=value`"
  | .caseOverflow offset => s!"TMPL `CASE` value at offset {offset} cannot be negated"
  | .invalidFixedCount label offset =>
    s!"TMPL `FCNT` label `{label}` at offset {offset} does not hold a count"
  | .invalid error => error.message

end ResourceTemplate
