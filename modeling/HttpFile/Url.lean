import HttpFile.Text.Lines

/-!
# `HttpFile.Url` — one query parameter per line

A request target with a query string is written folded: the part before the question mark on the
first line, then each parameter on an indented line of its own.

## Contents
- **Flattening.** `flat`: the lines of a target, trimmed and joined.
- **Folding.** `fold`.
-/

namespace HttpFile.Url

open Text

/-- A target on one line. -/
def flat (url : Text) : Text := ((lines url).map strip).flatten

/-- The indented line of a parameter, behind its mark. -/
def parameterLine (mark : Char) (parameter : Text) : Text := ' ' :: ' ' :: mark :: parameter

/-- The target with each query parameter on a line of its own and empty parameters left out. A
    target without a question mark, with nothing before it or without parameters stays on one
    line. -/
def fold (url : Text) : Text :=
  let whole := flat url
  match cutAt '?' whole with
  | (_, none) => whole
  | (base, some query) =>
    match base, (fieldsAt '&' query).filter (· ≠ []) with
    | [], _ => whole
    | _, [] => whole
    | _, first :: more =>
      joinLines (base :: parameterLine '?' first :: more.map (parameterLine '&'))

end HttpFile.Url
