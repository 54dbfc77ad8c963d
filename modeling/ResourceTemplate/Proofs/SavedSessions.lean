import ResourceTemplate.Proofs.RoundTrip
import ResourceTemplate.Session

/-! Sessions and the bytes on disk. An edit that is done marks its session as changed, and only a
save that is done takes the mark away, so a session without the mark holds what is on disk. -/
namespace ResourceTemplate

namespace Session

inductive Request where
  | edit (edit : Edit)
  | save
  deriving DecidableEq, Repr

/-- A session and the bytes on disk, which are those it was opened on or those of its last save. -/
structure Desk where
  session : Session
  disk : Bytes
  deriving DecidableEq, Repr

namespace Desk

def ask (desk : Desk) : Request → Desk
  | .edit edit => { desk with session := (desk.session.edit edit).2 }
  | .save =>
    match desk.session.save with
    | (.ok bytes, session) => ⟨session, bytes⟩
    | (.error _, session) => { desk with session := session }

def run (desk : Desk) (requests : List Request) : Desk := requests.foldl ask desk

theorem run_append (desk : Desk) (requests more : List Request) :
    desk.run (requests ++ more) = (desk.run requests).run more :=
  List.foldl_append

/-- Without the mark of a change, the record is written as the bytes on disk. -/
def Saved (desk : Desk) : Prop :=
  desk.session.dirty = false → desk.session.record.encode = .ok desk.disk

end Desk

theorem edit_eq (session : Session) (edit : Edit) :
    (session.edit edit).2 = session ∨ (session.edit edit).2.dirty = true := by
  unfold Session.edit
  split
  · exact .inl rfl
  · exact .inr rfl

theorem save_eq_ok {session next : Session} {bytes : Bytes} :
    session.save = (.ok bytes, next) ↔
      session.record.encode = .ok bytes ∧ next = { session with dirty := false } := by
  unfold save
  cases session.record.encode <;> simp [@eq_comm Session next]

theorem save_eq_error {session next : Session} {error : CodecError} :
    session.save = (.error error, next) ↔
      session.record.encode = .error error ∧ next = session := by
  unfold save
  cases session.record.encode <;> simp [@eq_comm Session next]

namespace Desk

/-- Whatever a session is asked for and whatever comes of it, no unsaved change loses its mark. -/
theorem Saved.ask {desk : Desk} (saved : desk.Saved) (request : Request) :
    (desk.ask request).Saved := by
  cases request with
  | edit edit =>
    intro clean
    rcases edit_eq desk.session edit with same | marked
    · have kept : desk.ask (.edit edit) = desk := by rw [Desk.ask, same]
      rw [kept] at clean ⊢
      exact saved clean
    · have clean : (desk.session.edit edit).2.dirty = false := clean
      rw [marked] at clean
      nomatch clean
  | save =>
    intro clean
    cases outcome : desk.session.save with
    | mk result next =>
      cases result with
      | ok bytes =>
        obtain ⟨encoded, rfl⟩ := save_eq_ok.mp outcome
        simpa [Desk.ask, outcome] using encoded
      | error error =>
        obtain ⟨_, rfl⟩ := save_eq_error.mp outcome
        have kept : desk.ask .save = desk := by simp [Desk.ask, outcome]
        rw [kept] at clean ⊢
        exact saved clean

theorem Saved.run {desk : Desk} (saved : desk.Saved) (requests : List Request) :
    (desk.run requests).Saved := by
  induction requests generalizing desk with
  | nil => exact saved
  | cons request requests ih => exact ih (saved.ask request)

theorem saved_of_open {template : Template} (formed : template.WellFormed) {bytes : Bytes}
    {settings : Settings} {session : Session}
    (opened : openBytes template bytes settings = .ok session) : Saved ⟨session, bytes⟩ := by
  obtain ⟨record, decoded, made⟩ := bind_eq_ok.mp opened
  obtain rfl := pure_eq_ok.mp made
  intro _
  exact Record.encode_decoded formed decoded

end Desk

/-- After any requests, whether they were done or not, a session without changes holds a record
that is written as the bytes on disk, and a save that fails leaves the session as it is. -/
theorem clean_holds_disk {template : Template} (formed : template.WellFormed) {bytes : Bytes}
    {settings : Settings} {session : Session}
    (opened : openBytes template bytes settings = .ok session) {requests : List Request}
    {desk : Desk} (ran : (Desk.mk session bytes).run requests = desk) :
    (desk.session.dirty = false → desk.session.record.encode = .ok desk.disk) ∧
      ∀ error next, desk.session.save = (.error error, next) → next = desk.session := by
  subst ran
  refine ⟨(Desk.saved_of_open formed opened).run requests, ?_⟩
  intro error next failed
  exact (save_eq_error.mp failed).2

/-- Text is set and saved, and then an item that cannot be saved is put in. -/
theorem clean_holds_disk_sample : ∃ session saved unsaved error next,
    openBytes Template.sample [1, 0, 0, 1, 0, 2, 0, 3, 97, 98, 1, 65, 0, 7, 8] {} = .ok session ∧
      (Desk.mk session [1, 0, 0, 1, 0, 2, 0, 3, 97, 98, 1, 65, 0, 7, 8]).run
        [.edit (.setValue [.name "pen", .name "mode"] (.text [99])), .save] = saved ∧
      saved.session.dirty = false ∧ saved.disk = [1, 0, 0, 1, 0, 2, 0, 3, 99, 0, 1, 65, 0, 7, 8] ∧
      saved.session.record.encode = .ok saved.disk ∧
      saved.run [.edit (.insertItem [.name "names"] 0)] = unsaved ∧
      unsaved.session.save = (.error error, next) ∧ next = unsaved.session := by
  obtain ⟨session, saved, unsaved, error, next, opened, ran, clean, disk, further, failed⟩ :
      ∃ session saved unsaved error next,
        openBytes Template.sample [1, 0, 0, 1, 0, 2, 0, 3, 97, 98, 1, 65, 0, 7, 8] {} = .ok session ∧
          (Desk.mk session [1, 0, 0, 1, 0, 2, 0, 3, 97, 98, 1, 65, 0, 7, 8]).run
            [.edit (.setValue [.name "pen", .name "mode"] (.text [99])), .save] = saved ∧
          saved.session.dirty = false ∧
          saved.disk = [1, 0, 0, 1, 0, 2, 0, 3, 99, 0, 1, 65, 0, 7, 8] ∧
          saved.run [.edit (.insertItem [.name "names"] 0)] = unsaved ∧
          unsaved.session.save = (.error error, next) :=
    ⟨_, _, _, _, _, by cbv, rfl, by cbv, by cbv, rfl, by cbv⟩
  have holds := (clean_holds_disk Template.sample_wellFormed opened ran).1 clean
  have all := (Desk.run_append ..).trans (ran ▸ further)
  have kept := (clean_holds_disk Template.sample_wellFormed opened all).2 error next failed
  exact ⟨session, saved, unsaved, error, next, opened, ran, clean, disk, holds, further, failed, kept⟩

end Session
end ResourceTemplate
