import HttpFile.Proofs.Log
import HttpFile.Source.Failure

/-!
# `HttpFile.Proofs.Source.Work` — what conversion gives

Conversion makes notes on the way, and what cannot be read or does not fit ends it.

## Contents
- **Steps without notes.** `yields_mapError`, `yields_misfit`.
- **Blindness.** `blind_misfit`, `blind_lacking`.
-/

namespace HttpFile.Source

/-! ## Steps without notes -/

/-- A step that may fail for a cause of its own gives what it gives by itself. -/
theorem yields_mapError {ε α : Type} {r : Except ε α} {cause : ε → SourceError} {a : α}
    (h : Logged.Yields (Logged.ofExcept (r.mapError cause) : Work α) a) : r = .ok a := by
  cases r with
  | error e => exact (yields_throw h).elim
  | ok b => exact congrArg Except.ok (yields_pure h)

theorem yields_misfit {α : Type} {r : Except Misfit α} {a : α}
    (h : Logged.Yields (liftM r : Work α) a) : r = .ok a :=
  yields_mapError h

/-! ## Blindness -/

theorem blind_misfit {α : Type} (r : Except Misfit α) : Logged.Blind (liftM r : Work α) :=
  blind_ofExcept (r.mapError SourceError.misfit)

theorem blind_lacking {α : Type} (e : SchemaError) : Logged.Blind (lacking e : Work α) :=
  blind_throw _

end HttpFile.Source
