import HttpFile.Document.Extract
import HttpFile.Document.Render

/-!
# `HttpFile.Canonical` — the canonical form of a request file

A request file is read into a document and written anew. The form may hold halves of characters; then
it is no text that can stand in a file.

## Contents
- **Failures.** `CanonicalError`: the text is no request file, a body is not what it should be, or the
  form has halves.
- **The form.** `canonicalize`, and `canonicalForms`, which repeats it.
-/

namespace HttpFile

open Text

/-- Why a text has no canonical form. -/
inductive CanonicalError where
  | parse (e : ParseFailure)
  | format (e : FormatError)
  /-- The form, with halves of characters in it. -/
  | halves (w : Wide)
deriving DecidableEq, Repr

/-- The canonical form of a request file. -/
def canonicalize (defaults : Defaults) (reformat : Bool) (source t : Text) :
    Except CanonicalError Text :=
  match Document.parse defaults source t with
  | .error e => .error (.parse e)
  | .ok d =>
    match d.render reformat with
    | .error e => .error (.format e)
    | .ok w =>
      match Word.text? w with
      | some text => .ok text
      | none => .error (.halves w)

/-- The canonical form, the canonical form of that, and so on, up to a failure. -/
def canonicalForms (defaults : Defaults) (reformat : Bool) (source : Text) :
    Nat → Text → List (Except CanonicalError Text)
  | 0, _ => []
  | passes + 1, t =>
    match canonicalize defaults reformat source t with
    | .error e => [.error e]
    | .ok text => .ok text :: canonicalForms defaults reformat source passes text

end HttpFile
