import ResourceTemplate.Text.Charset
import ResourceTemplate.Tmpl.Error

/-! The entries of a `TMPL` resource: a label, written as a Pascal string in Mac Roman, and a
type code of four bytes. -/
namespace ResourceTemplate.Tmpl

structure Entry where
  offset : Nat
  label : String
  code : String
  deriving DecidableEq, Repr

def take (n : Nat) (input : Input) : Except TmplError (Bytes × Input) :=
  match input.take? n with
  | some taken => return taken
  | none => throw (.truncated input.offset n input.remaining)

theorem take_remaining {n : Nat} {input rest : Input} {bytes : Bytes}
    (taken : take n input = .ok (bytes, rest)) : input.remaining = n + rest.remaining := by
  unfold take at taken
  split at taken
  · next found =>
    cases taken
    obtain ⟨same, length, _⟩ := Input.take?_eq_some_iff.mp found
    simp [Input.remaining, same, length]
  · cases taken

def Entry.read (input : Input) : Except TmplError (Entry × Input) := do
  let (length, rest) ← take 1 input
  let (label, rest) ← take (Bytes.toNat length) rest
  let (code, rest) ← take 4 rest
  return (⟨input.offset, String.ofList (Charset.macRoman.decode label),
    String.ofList (Utf8.decodeLossy code)⟩, rest)

theorem Entry.read_remaining {input rest : Input} {entry : Entry}
    (found : Entry.read input = .ok (entry, rest)) : rest.remaining < input.remaining := by
  simp only [Entry.read, bind, Except.bind] at found
  cases one : take 1 input with
  | error => simp [one] at found
  | ok length =>
    cases two : take (Bytes.toNat length.1) length.2 with
    | error => simp [one, two] at found
    | ok label =>
      cases three : take 4 label.2 with
      | error => simp [one, two, three] at found
      | ok code =>
        have := take_remaining one
        have := take_remaining two
        have := take_remaining three
        simp only [one, two, three, pure, Except.pure, Except.ok.injEq, Prod.mk.injEq] at found
        rw [← found.2]
        omega

/-- All entries up to the end, or up to one that is not complete. -/
def Entry.scan (input : Input) : List Entry × Option TmplError :=
  if input.atEnd then ([], none)
  else
    match _found : Entry.read input with
    | .error error => ([], some error)
    | .ok (entry, rest) =>
      let (entries, fault) := Entry.scan rest
      (entry :: entries, fault)
termination_by input.remaining
decreasing_by exact Entry.read_remaining _found

end ResourceTemplate.Tmpl
