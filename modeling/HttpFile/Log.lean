import HttpFile.Text.Basic

/-!
# `HttpFile.Log` — what the program says about its work

Notes about the work have a level. Work that may fail keeps the notes it made before it failed.

## Contents
- **Notes.** `Level`, `Note`, `Note.line`.
- **Work.** `Logged`: a computation that makes notes and may fail; `note`, `warn`.
- **Thresholds.** `Level.rank`, `Note.isAtLeast`.
-/

namespace HttpFile

/-- How much a note matters. -/
inductive Level where
  | debug
  | info
  | warning
  | error
deriving DecidableEq, Repr

/-- The word for a level. -/
def Level.name : Level → Text
  | .debug => "DEBUG"
  | .info => "INFO"
  | .warning => "WARNING"
  | .error => "ERROR"

/-- The place of a level in their order. -/
def Level.rank : Level → Nat
  | .debug => 0
  | .info => 1
  | .warning => 2
  | .error => 3

/-- A note about the work. -/
structure Note where
  level : Level
  message : Text
deriving DecidableEq, Repr

/-- A note as a line. -/
def Note.line (n : Note) : Text := n.level.name ++ ": " ++ n.message

/-- Whether a note matters at least as much as a level says. -/
def Note.isAtLeast (n : Note) (threshold : Level) : Bool := threshold.rank ≤ n.level.rank

/-- Work that makes notes and may fail; the notes survive the failure. -/
abbrev Logged (ε : Type) := ExceptT ε (StateM (List Note))

namespace Logged

/-- Make a note. -/
def note {ε : Type} (level : Level) (message : Text) : Logged ε Unit :=
  modify (· ++ [⟨level, message⟩])

/-- Make a warning. -/
def warn {ε : Type} (message : Text) : Logged ε Unit := note .warning message

/-- The outcome of work and the notes it made. -/
def outcome {ε α : Type} (work : Logged ε α) : Except ε α × List Note := StateT.run work []

/-- Work whose failures are embedded in a larger type. -/
def mapError {ε δ α : Type} (f : ε → δ) (work : Logged ε α) : Logged δ α :=
  fun notes =>
    match work notes with
    | (.ok a, notes) => (.ok a, notes)
    | (.error e, notes) => (.error (f e), notes)

/-- A result that is already there. -/
def ofExcept {ε α : Type} : Except ε α → Logged ε α
  | .ok a => pure a
  | .error e => throw e

end Logged

end HttpFile
