import ResourceTemplate.Record.Locate
import ResourceTemplate.Settings
import ResourceTemplate.Text.Hexdump

/-! Records as text: a line for each node, indented by its depth, and the bytes that are left
over as a hexdump. -/
namespace ResourceTemplate

namespace FieldView

def shownName (view : FieldView) : String :=
  match view.path.getLast? with
  | some (.name name) => name
  | some (.index index) => s!"[{index}]"
  | none => ""

def shownValue (settings : Settings) (view : FieldView) : String :=
  match view.value with
  | some (.text bytes) => Text.quoted (settings.charset.decode bytes)
  | some value =>
    match view.label with
    | some label => value.display ++ " (" ++ label ++ ")"
    | none => value.display
  | none => if view.tag = .branch .group then s!"{view.length} bytes" else ""

def line (settings : Settings) (view : FieldView) : String :=
  Hexdump.hex 8 view.offset ++ "  " ++ "".pushn ' ' (2 * (view.path.length - 1)) ++
    view.shownName ++ " = " ++ view.shownValue settings ++ " [" ++ view.tag.name ++ "]\n"

end FieldView

def Record.listing (settings : Settings) (record : Record) : String :=
  String.join (record.views.map (FieldView.line settings)) ++
    if record.trailing.isEmpty then ""
    else
      s!"{record.trailing.length} trailing bytes:\n" ++
        Hexdump.format record.laidOut record.trailing

def Hexdump.around (bytes : Bytes) (offset : Nat) : String :=
  let start := min (offset - offset % lineLength) bytes.length
  format start ((bytes.drop start).take (2 * lineLength))

end ResourceTemplate
