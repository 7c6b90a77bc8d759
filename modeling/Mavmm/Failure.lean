/-!
# Ways a run of the monitor stops

`fatal_failure` prints its message and executes `ud2`: nothing after it runs.
The other outcomes are the ones C leaves to the programmer: an array access
outside the array, an operation whose behaviour is undefined (signed overflow,
a directive without its argument), a loop that never ends.
-/

namespace Mavmm

inductive Fault where
  | fatalFailure (msg : String)
  | outOfBounds
  | undefinedBehaviour
  | diverges
deriving DecidableEq, Repr

/-- `fatal_failure` (failure.c). -/
def fatalFailure {α : Type} (msg : String) : Except Fault α := .error (.fatalFailure msg)

/-- Peeling the first step off a computation that succeeds. -/
theorem bind_ok_iff {ε α β : Type} {x : Except ε α} {f : α → Except ε β} {b : β} :
    (x >>= f) = .ok b ↔ ∃ a, x = .ok a ∧ f a = .ok b := by
  cases x with
  | ok a =>
    constructor
    · exact fun h => ⟨a, rfl, h⟩
    · rintro ⟨a', ha, h⟩
      cases ha
      exact h
  | error e =>
    constructor
    · intro h
      cases h
    · rintro ⟨a, ha, -⟩
      cases ha

/-- Whether a run completes with a result that passes the check `p`. -/
def completesWith {ε α : Type} (p : α → Bool) : Except ε α → Bool
  | .ok a => p a
  | .error _ => false

theorem completesWith_ok {ε α : Type} {p : α → Bool} {x : Except ε α}
    (h : completesWith p x = true) : ∃ a, x = .ok a ∧ p a = true := by
  cases x with
  | error e => cases h
  | ok a => exact ⟨a, rfl, h⟩

end Mavmm
