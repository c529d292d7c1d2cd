import ExLine.Error

/-!
Contract: when a computation that can fail succeeds.

Owns: `bind_eq_ok_iff`, `map_eq_ok_iff` and `pure_eq_ok_iff`, by which a `do`
block of steps that can fail is taken apart step by step, and for a step that
fails `bind_eq_error_iff` and `liftError_eq_error_iff`.

Does not own: any such computation.
-/

set_option autoImplicit false

namespace ExLine

theorem bind_eq_ok_iff
    {ε α β : Type}
    {first : Except ε α}
    {next : α → Except ε β}
    {result : β} :
    (first >>= next) = .ok result ↔ ∃ value, first = .ok value ∧ next value = .ok result := by
  cases first with
  | error error => simp [bind, Except.bind]
  | ok value => simp [bind, Except.bind]

theorem map_eq_ok_iff
    {ε α β : Type}
    {first : Except ε α}
    {change : α → β}
    {result : β} :
    first.map change = .ok result ↔ ∃ value, first = .ok value ∧ change value = result := by
  cases first with
  | error error => simp [Except.map]
  | ok value => simp [Except.map]

theorem pure_eq_ok_iff
    {ε α : Type}
    {value result : α} :
    (pure value : Except ε α) = .ok result ↔ result = value := by
  simp [pure, Except.pure, eq_comm]

theorem bind_eq_error_iff
    {ε α β : Type}
    {first : Except ε α}
    {next : α → Except ε β}
    {error : ε} :
    (first >>= next) = .error error
      ↔ first = .error error ∨ ∃ value, first = .ok value ∧ next value = .error error := by
  cases first with
  | error other => simp [bind, Except.bind]
  | ok value => simp [bind, Except.bind]

theorem liftError_eq_ok_iff
    {ε α : Type}
    {toCommandError : ε → CommandError}
    {result : Except ε α}
    {value : α} :
    liftError toCommandError result = .ok value ↔ result = .ok value := by
  cases result with
  | error error => simp [liftError]
  | ok other => simp [liftError]

theorem liftError_eq_error_iff
    {ε α : Type}
    {toCommandError : ε → CommandError}
    {result : Except ε α}
    {error : CommandError} :
    liftError toCommandError result = .error error
      ↔ ∃ inner, result = .error inner ∧ toCommandError inner = error := by
  cases result with
  | error inner => simp [liftError]
  | ok other => simp [liftError]

end ExLine
