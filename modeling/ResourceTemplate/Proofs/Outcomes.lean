/-! Outcomes that are a success or one of some errors, and outcomes of one kind on two sides. -/
namespace ResourceTemplate

/-- The outcome is a success or one of these errors. -/
structure FailsWith {ε α : Type} (errors : ε → Prop) (outcome : Except ε α) : Prop where
  among : ∀ error, outcome = .error error → errors error

namespace FailsWith

variable {ε α β : Type} {errors : ε → Prop}

theorem ok (a : α) : FailsWith errors (.ok a) := ⟨nofun⟩

theorem throw {error : ε} (among : errors error) :
    FailsWith errors (MonadExcept.throw error : Except ε α) := by
  refine ⟨?_⟩
  rintro _ same
  rwa [← Except.error.inj same]

theorem imp {weaker : ε → Prop} {outcome : Except ε α} (fails : FailsWith errors outcome)
    (implies : ∀ error, errors error → weaker error) : FailsWith weaker outcome :=
  ⟨fun error same => implies error (fails.among error same)⟩

/-- A sequence fails as its steps do, where the second one knows what the first has yielded. -/
theorem bind {first : Except ε α} {next : α → Except ε β} (head : FailsWith errors first)
    (tail : ∀ a, first = .ok a → FailsWith errors (next a)) : FailsWith errors (first >>= next) := by
  cases first with
  | ok a => exact tail a rfl
  | error error =>
    refine ⟨fun other same => head.among other ?_⟩
    rw [← Except.error.inj same]

end FailsWith

/-- Both outcomes are a success or both are an error, and what they hold is related. -/
inductive Agree {ε α β : Type} (errors : ε → ε → Prop) (results : α → β → Prop) :
    Except ε α → Except ε β → Prop where
  | ok {a : α} {b : β} (related : results a b) : Agree errors results (.ok a) (.ok b)
  | error {first second : ε} (related : errors first second) :
    Agree errors results (.error first) (.error second)

namespace Agree

variable {ε α β γ δ : Type} {errors : ε → ε → Prop} {results : α → β → Prop} {first : Except ε α}
  {second : Except ε β}

theorem refl (reflexive : ∀ error, errors error error) (outcome : Except ε α) :
    Agree errors Eq outcome outcome := by
  cases outcome with
  | ok a => exact .ok rfl
  | error error => exact .error (reflexive error)

theorem imp {weaker : ε → ε → Prop} {looser : α → β → Prop} (agree : Agree errors results first second)
    (failing : ∀ error other, errors error other → weaker error other)
    (giving : ∀ a b, first = .ok a → results a b → looser a b) : Agree weaker looser first second := by
  cases agree with
  | ok related => exact .ok (giving _ _ rfl related)
  | error related => exact .error (failing _ _ related)

/-- Sequences agree as their steps do, where the second ones know what the first have yielded. -/
theorem bind {next : α → Except ε γ} {other : β → Except ε δ} {final : γ → δ → Prop}
    (head : Agree errors results first second)
    (tail : ∀ a b, first = .ok a → results a b → Agree errors final (next a) (other b)) :
    Agree errors final (first >>= next) (second >>= other) := by
  cases head with
  | ok related => exact tail _ _ rfl related
  | error related => exact .error related

/-- Sequences that begin alike agree as they go on. -/
theorem after {next : α → Except ε γ} {other : α → Except ε δ} {final : γ → δ → Prop}
    (reflexive : ∀ error, errors error error) (first : Except ε α)
    (tail : ∀ a, first = .ok a → Agree errors final (next a) (other a)) :
    Agree errors final (first >>= next) (first >>= other) := by
  cases first with
  | ok a => exact tail a rfl
  | error error => exact .error (reflexive error)

end Agree

/-- Whether an outcome is this error can be seen from what has come of it. -/
instance decidableEqError {ε α : Type} [DecidableEq ε] (outcome : Except ε α) (error : ε) :
    Decidable (outcome = .error error) :=
  match outcome with
  | .ok _ => isFalse nofun
  | .error other => decidable_of_iff (other = error) (by simp)

/-- What a run fails with is what its first step that fails does. -/
theorem foldlM_eq_error {ε α β : Type} {step : β → α → Except ε β} {start : β} {xs : List α}
    {error : ε} :
    xs.foldlM step start = .error error ↔
      ∃ front x back middle, xs = front ++ x :: back ∧ front.foldlM step start = .ok middle ∧
        step middle x = .error error := by
  constructor
  · intro failed
    induction xs generalizing start with
    | nil => nomatch failed
    | cons x xs ih =>
      rw [List.foldlM_cons] at failed
      cases first : step start x with
      | error other =>
        rw [first] at failed
        obtain rfl := Except.error.inj failed
        exact ⟨[], x, xs, start, rfl, rfl, first⟩
      | ok next =>
        rw [first] at failed
        obtain ⟨front, y, back, middle, rfl, done, last⟩ := ih failed
        refine ⟨x :: front, y, back, middle, rfl, ?_, last⟩
        rw [List.foldlM_cons, first]
        exact done
  · rintro ⟨front, x, back, middle, rfl, done, last⟩
    rw [List.foldlM_append, done]
    change List.foldlM step middle (x :: back) = _
    rw [List.foldlM_cons, last]
    rfl

end ResourceTemplate
