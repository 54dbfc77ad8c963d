import ResourceTemplate.Record.Edit

/-! An editing session: a record with the settings it is shown by, whether it has changes that
are not saved, and the changes so far. -/
namespace ResourceTemplate

structure Session where
  record : Record
  settings : Settings
  dirty : Bool
  events : List Event
  deriving DecidableEq, Repr

namespace Session

def start (record : Record) (settings : Settings) : Session := ⟨record, settings, false, []⟩

def openBytes (template : Template) (bytes : Bytes) (settings : Settings) :
    Except CodecError Session :=
  return start (← Record.decode template settings bytes) settings

/-- A failed edit leaves the session as it was. -/
def edit (session : Session) (edit : Edit) : Except CodecError Event × Session :=
  match session.record.apply session.settings edit with
  | .error error => (.error error, session)
  | .ok (event, record) =>
    (.ok event,
      { session with record := record, dirty := true, events := session.events ++ [event] })

/-- The bytes to write back. A session that cannot be saved keeps its changes. -/
def save (session : Session) : Except CodecError Bytes × Session :=
  match session.record.encode with
  | .error error => (.error error, session)
  | .ok bytes => (.ok bytes, { session with dirty := false })

end Session
end ResourceTemplate
