import ResourceTemplate.Json.Printer
import ResourceTemplate.Template.Basic

/-! The JSON form of templates: a list of objects with the name, the type and the parameters of a
field. All parameters are written but for an absent condition. -/
namespace ResourceTemplate

def EnumEntry.toJson (entry : EnumEntry) : Json :=
  .object [("value", .integer entry.value.toInt), ("name", .string entry.name)]

def ScalarType.parametersToJson : ScalarType → List (String × Json)
  | .int _ => []
  | .enumeration base names =>
    [("base", .string base.name), ("entries", .array (names.entries.map EnumEntry.toJson)),
     ("bitmask", .bool names.bitmask)]
  | .fixedString length => [("len", .integer length)]
  | .pascalString => []
  | .boolean wide => [("wide", .bool wide)]

def Repetition.toJson : Repetition → Json
  | .fixed count => .object [("kind", .string "fixed"), ("count", .integer count)]
  | .counted countField zeroBased =>
    .object [("kind", .string "counted"), ("count_field", .string countField),
      ("zero_based", .bool zeroBased)]
  | .untilEnd => .object [("kind", .string "until_end")]
  | .zeroTerminated => .object [("kind", .string "zero_terminated")]

def Condition.toJson : Condition → Json
  | .equals field value =>
    .object [("when", .string "equals"), ("field", .string field),
      ("value", .integer value.toInt)]
  | .nonZero field => .object [("when", .string "non_zero"), ("field", .string field)]

mutual
def Field.parametersToJson : Field → List (String × Json)
  | .scalar _ type => type.parametersToJson
  | .composite _ fields => [("fields", .array (Field.listToJson fields))]
  | .group _ fields repetition condition =>
    [("fields", .array (Field.listToJson fields)), ("repeat", repetition.toJson)] ++
      (condition.map fun condition => ("condition", condition.toJson)).toList

def Field.listToJson : List Field → List Json
  | [] => []
  | field :: fields =>
    .object (("name", .string field.name) :: ("type", .string field.tag.name) ::
      field.parametersToJson) :: Field.listToJson fields
end

def Template.toJson (template : Template) : Json := .array (Field.listToJson template)

def Template.jsonText (template : Template) : String := template.toJson.pretty

end ResourceTemplate
