import ResourceTemplate.Text.Charset

/-! How records are read and how their strings are shown. -/
namespace ResourceTemplate

/-- Strict reading refuses bytes after the last field. -/
structure Settings where
  charset : Charset := .macRoman
  strict : Bool := false
  deriving DecidableEq, Repr

def Settings.describe (settings : Settings) : String :=
  "CodecSettings \x7b text_encoding: \"" ++ settings.charset.name ++ "\", strict: " ++
    toString settings.strict ++ " \x7d"

end ResourceTemplate
