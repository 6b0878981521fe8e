import Mathlib.Logic.Basic

/-!
# Computations that may fail

A chain of fallible steps succeeds exactly if each step succeeds on what the one
before it gave.
-/

namespace Coordin8.Support

variable {ε ε' α β : Type}

theorem bind_eq_ok_iff {x : Except ε α} {f : α → Except ε β} {b : β} :
    (x >>= f) = .ok b ↔ ∃ a, x = .ok a ∧ f a = .ok b := by
  cases x with
  | error e | ok a => simp [bind, Except.bind]

theorem mapError_eq_ok_iff {x : Except ε α} {f : ε → ε'} {a : α} :
    x.mapError f = .ok a ↔ x = .ok a := by
  cases x with
  | error e => exact ⟨nofun, nofun⟩
  | ok a' =>
      constructor <;> intro h <;> exact congrArg Except.ok (Except.ok.inj h)

end Coordin8.Support
