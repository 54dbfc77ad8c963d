import ResourceTemplate.Proofs.EditedTrees
import ResourceTemplate.Proofs.SavedSessions

/-! The events of a session as its log. Every edit that is done gives an event, and asking for what
the event tells of does the same edit again. So the log of a session, replayed on a session that was
just opened on the same bytes, leads to the same record. -/
namespace ResourceTemplate

/-- The edit that an event tells of. Text is not read again: the event has the value that was set. -/
def Event.edit (event : Event) : Edit :=
  match event.change with
  | .value _ new => .setValue event.path new
  | .inserted index => .insertItem event.path index
  | .removed index => .removeItem event.path index

namespace Record

variable {record result : Record}

/-- A value is put in the form that its type accepts it in, and accepted in that form as it is. -/
theorem setValue_accepted {path : Path} {value : Value} {event : Event}
    (done : record.setValue path value = .ok (event, result)) :
    ∃ old new, event = ⟨path, .value old new⟩ ∧ record.setValue path new = .ok (event, result) := by
  obtain ⟨place, name, type, accepted, held, located, declared, free, accept, holder, committed,
    rfl⟩ := setValue_eq_ok.mp done
  have again := ScalarType.accept_of_admits (ScalarType.admits_of_accept accept) path
  exact ⟨held.value, accepted, rfl, setValue_eq_ok.mpr
    ⟨place, name, type, accepted, held, located, declared, free, again, holder, committed, rfl⟩⟩

/-- What an event tells of is done as the edit was that gave the event, under any settings. -/
theorem apply_event {settings asked : Settings} {edit : Edit} {event : Event}
    (done : record.apply settings edit = .ok (event, result)) :
    record.apply asked event.edit = .ok (event, result) := by
  cases edit with
  | setValue path value =>
    obtain ⟨_, _, rfl, again⟩ := setValue_accepted done
    exact again
  | setText path text =>
    obtain ⟨_, _, _, _, _, _, _, set⟩ := setText_eq_ok.mp done
    obtain ⟨_, _, rfl, again⟩ := setValue_accepted set
    exact again
  | insertItem path index =>
    obtain ⟨_, _, _, _, _, _, rfl⟩ := insertItem_eq_ok.mp done
    exact done
  | removeItem path index =>
    obtain ⟨_, _, _, _, _, _, rfl⟩ := removeItem_eq_ok.mp done
    exact done

end Record

namespace Session

/-- Asks for what the events tell of, one after the other, until an edit fails. -/
def replay (session : Session) : List Event → Except CodecError Session
  | [] => .ok session
  | event :: events =>
    match session.edit event.edit with
    | (.ok _, next) => next.replay events
    | (.error error, _) => .error error

variable {fresh session next : Session}

theorem edit_eq_ok {edit : Edit} {event : Event} :
    session.edit edit = (.ok event, next) ↔
      ∃ record, session.record.apply session.settings edit = .ok (event, record) ∧
        next = { session with
          record := record, dirty := true, events := session.events ++ [event] } := by
  unfold Session.edit
  cases session.record.apply session.settings edit with
  | error => simp
  | ok done =>
    obtain ⟨event, record⟩ := done
    simp only [Prod.mk.injEq, Except.ok.injEq]
    constructor
    · rintro ⟨rfl, rfl⟩
      exact ⟨record, ⟨rfl, rfl⟩, rfl⟩
    · rintro ⟨_, ⟨rfl, rfl⟩, rfl⟩
      exact ⟨rfl, rfl⟩

theorem edit_eq_error {edit : Edit} {error : CodecError}
    (failed : session.edit edit = (.error error, next)) : next = session := by
  unfold Session.edit at failed
  split at failed
  · exact (Prod.mk.inj failed).2.symm
  · nomatch failed

theorem replay_append {events more : List Event} (replayed : fresh.replay events = .ok session) :
    fresh.replay (events ++ more) = session.replay more := by
  induction events generalizing fresh with
  | nil =>
    obtain rfl := Except.ok.inj replayed
    rfl
  | cons event events ih =>
    rw [List.cons_append, replay]
    rw [replay] at replayed
    split at replayed
    · exact ih replayed
    · nomatch replayed

/-- The events of a session lead from a fresh session to its record, and are given again on the
way. -/
def Logged (fresh session : Session) : Prop :=
  ∃ final, fresh.replay session.events = .ok final ∧ final.record = session.record ∧
    final.events = session.events

/-- One more event takes the replay one edit further. -/
theorem Logged.edit (logged : fresh.Logged session) (edit : Edit) :
    fresh.Logged (session.edit edit).2 := by
  cases outcome : session.edit edit with
  | mk result next =>
    cases result with
    | error error =>
      obtain rfl := edit_eq_error outcome
      exact logged
    | ok event =>
      obtain ⟨record, done, rfl⟩ := edit_eq_ok.mp outcome
      obtain ⟨final, replayed, same, given⟩ := logged
      have again : final.record.apply final.settings event.edit = .ok (event, record) := by
        rw [same]
        exact Record.apply_event done
      refine ⟨{ final with record := record, dirty := true, events := final.events ++ [event] }, ?_,
        rfl, by rw [given]⟩
      have last := edit_eq_ok.mpr ⟨record, again, rfl⟩
      rw [replay_append replayed, replay]
      simp only [last, replay]

/-- Saving leaves the events as they are, whether it is done or not. -/
theorem Logged.ask {desk : Desk} (logged : fresh.Logged desk.session) (request : Request) :
    fresh.Logged (desk.ask request).session := by
  cases request with
  | edit edit => exact logged.edit edit
  | save =>
    cases outcome : desk.session.save with
    | mk result next =>
      rw [Desk.ask, outcome]
      cases result with
      | ok bytes =>
        obtain ⟨_, rfl⟩ := save_eq_ok.mp outcome
        exact logged
      | error error =>
        obtain ⟨_, rfl⟩ := save_eq_error.mp outcome
        exact logged

theorem Logged.run {desk : Desk} (logged : fresh.Logged desk.session) (requests : List Request) :
    fresh.Logged (desk.run requests).session := by
  induction requests generalizing desk with
  | nil => exact logged
  | cons request requests ih => exact ih (logged.ask request)

/-- A session is opened without events. -/
theorem logged_of_open {template : Template} {bytes : Bytes} {settings : Settings}
    (opened : openBytes template bytes settings = .ok session) : session.Logged session := by
  obtain ⟨record, _, made⟩ := bind_eq_ok.mp opened
  obtain rfl := pure_eq_ok.mp made
  exact ⟨_, rfl, rfl, rfl⟩

/-- The events are a complete log. Whatever a session was asked for, its events can be replayed one
after the other on the session as it was opened: each is done and given again with the same old
value, and the record at the end is the session's record. -/
theorem replay_events {template : Template} {bytes : Bytes} {settings : Settings}
    (opened : openBytes template bytes settings = .ok session) {requests : List Request}
    {desk : Desk} (ran : (Desk.mk session bytes).run requests = desk) :
    ∃ final, session.replay desk.session.events = .ok final ∧ final.events = desk.session.events ∧
      final.record = desk.session.record := by
  subst ran
  have start : session.Logged (Desk.mk session bytes).session := logged_of_open opened
  obtain ⟨final, replayed, same, given⟩ := start.run requests
  exact ⟨final, replayed, given, same⟩

/-- Text is set by the name of a value, an edit fails, and a default-filled group comes and goes with
the value that its condition tests. -/
theorem replay_events_sample : ∃ session desk final,
    openBytes Template.sample [1, 0, 0, 1, 0, 2, 0, 3, 97, 98, 1, 65, 0, 7, 8] {} = .ok session ∧
      (Desk.mk session [1, 0, 0, 1, 0, 2, 0, 3, 97, 98, 1, 65, 0, 7, 8]).run
        [.edit (.setText [.name "kind"] "path"), .edit (.setText [.name "kind"] "none"), .save,
          .edit (.setValue [.name "pen", .name "mode"] (.text [99])),
          .edit (.insertItem [.name "rest"] 1)] = desk ∧
      desk.session.events =
        [⟨[.name "kind"], .value (.uint 1) (.uint 2)⟩,
          ⟨[.name "pen", .name "mode"], .value (.text [97, 98]) (.text [99, 0])⟩,
          ⟨[.name "rest"], .inserted 1⟩] ∧
      session.replay desk.session.events = .ok final ∧ final.events = desk.session.events ∧
      final.record = desk.session.record := by
  obtain ⟨session, desk, opened, ran, events⟩ : ∃ session desk,
      openBytes Template.sample [1, 0, 0, 1, 0, 2, 0, 3, 97, 98, 1, 65, 0, 7, 8] {} = .ok session ∧
        (Desk.mk session [1, 0, 0, 1, 0, 2, 0, 3, 97, 98, 1, 65, 0, 7, 8]).run
          [.edit (.setText [.name "kind"] "path"), .edit (.setText [.name "kind"] "none"), .save,
            .edit (.setValue [.name "pen", .name "mode"] (.text [99])),
            .edit (.insertItem [.name "rest"] 1)] = desk ∧
        desk.session.events =
          [⟨[.name "kind"], .value (.uint 1) (.uint 2)⟩,
            ⟨[.name "pen", .name "mode"], .value (.text [97, 98]) (.text [99, 0])⟩,
            ⟨[.name "rest"], .inserted 1⟩] :=
    ⟨_, _, by cbv, rfl, by cbv⟩
  obtain ⟨final, replayed, given, same⟩ := replay_events opened ran
  exact ⟨session, desk, final, opened, ran, events, replayed, given, same⟩

end Session
end ResourceTemplate
