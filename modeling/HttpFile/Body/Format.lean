import HttpFile.Body.Placeholder
import HttpFile.Document.Basic
import HttpFile.GraphQL.Parser
import HttpFile.GraphQL.Printer
import HttpFile.Json.Reader
import HttpFile.Json.Writer

/-!
# `HttpFile.Body.Format` — bodies in canonical form

The headers of a request say what its body is. JSON and queries are printed anew, form data get one
pair per line, and any other body is only trimmed. What is printed may hold halves of characters, if
strings of the body have escapes for them.

## Contents
- **Kinds.** `ContentKind`, `contentKind`.
- **Failures.** `FormatError`, whether it `escapes`, and its `message`.
- **Formats.** `formatJson`, `formatGraphql`, `formatForm`.
- **Bodies.** `formatBody`.
-/

namespace HttpFile

open Text Unicode

/-! ## Kinds -/

/-- What a body is, going by the headers. -/
inductive ContentKind where
  | json
  | graphql
  | form
  | raw
deriving DecidableEq, Repr

/-- The kind that the headers of a request announce. -/
def contentKind (r : Request) : ContentKind :=
  let requestType := lower (strip ((r.header? "X-Request-Type").getD []))
  let mediaType := lower (strip (cutAt ';' ((r.header? "Content-Type").getD [])).1)
  if requestType = "graphql" then .graphql
  else if mediaType = "application/json" then .json
  else if mediaType = "application/x-www-form-urlencoded" then .form
  else .raw

/-! ## Failures -/

/-- Why a body is not what its headers announce. -/
inductive FormatError where
  | json (failure : Json.Located)
  | graphql (fault : GraphQL.Fault)
deriving DecidableEq, Repr

/-- Whether a failure is one that ends the program without a word: an integer in the body has more
    digits than are converted. -/
def FormatError.escapes : FormatError → Bool
  | .json l => l.cause == .digits
  | .graphql _ => false

/-- The word for the kind of the body. -/
def FormatError.kindName : FormatError → Text
  | .json _ => "json"
  | .graphql _ => "graphql"

/-- What is said about a body that is refused. -/
def FormatError.message (e : FormatError) : Text :=
  let detail := match e with
    | .json l =>
      l.cause.message.toList ++ " (line " ++ ofNat l.line ++ ", column " ++ ofNat l.column ++ ")"
    | .graphql f => f.message
  "invalid " ++ e.kindName ++ " body: " ++ detail

/-! ## Formats -/

/-- A wide text without leading and trailing blanks. -/
def stripWide (w : Wide) : Wide := trimWhere (Sum.elim isBlank fun _ => false) w

/-- JSON printed anew, its placeholders kept. -/
def formatJson (t : Text) : Except FormatError Wide :=
  let protected' := Body.Guard.of t
  match Json.parse protected'.text with
  | .error e => .error (.json e)
  | .ok v =>
    let printed := (Json.write? .indented v).getD []
    .ok (stripWide (protected'.restoreWide printed))

/-- Whether a blank line and an opening brace follow a newline, blanks aside; then the text from the
    blank line's end on. -/
def variablesAfter? (t : Text) : Option Text :=
  match t.dropWhile isGap with
  | '\n' :: rest => if ['{'].isPrefixOf (stripLeft rest) then some rest else none
  | _ => none

/-- The text before the first blank line that an object follows, and the text after it. -/
def splitAtVariables : Text → Text × Option Text
  | [] => ([], none)
  | c :: rest =>
    match if c = '\n' then variablesAfter? rest else none with
    | some vars => ([], some vars)
    | none =>
      let (before, after) := splitAtVariables rest
      (c :: before, after)

/-- A query and its variables, if an object follows a blank line. -/
def splitGraphql (t : Text) : Text × Option Text :=
  let (query, vars) := splitAtVariables t
  (strip query, vars.map strip)

/-- A query printed anew, its placeholders kept, and its variables printed as JSON. -/
def formatGraphql (t : Text) : Except FormatError Wide :=
  let (query, vars) := splitGraphql t
  let protected' := Body.Guard.of query
  match GraphQL.parse protected'.text with
  | .error e => .error (.graphql e)
  | .ok document =>
    let printed := strip (protected'.restore (GraphQL.print document))
    match vars with
    | none | some [] => .ok (letters (strip printed))
    | some v =>
      match formatJson v with
      | .error e => .error e
      | .ok json => .ok (stripWide (letters (printed ++ "\n\n") ++ json))

/-- Form data with a pair on each line; a single pair is only trimmed. -/
def formatForm (t : Text) : Text :=
  let flat := t.filter fun c => !isBlank c
  match (fieldsAt '&' flat).filter (· ≠ []) with
  | first :: second :: more => "\n&".toList.intercalate (first :: second :: more)
  | _ => strip t

/-! ## Bodies -/

/-- A body of a kind in canonical form. -/
def formatAs (kind : ContentKind) (t : Text) : Except FormatError Wide :=
  match kind with
  | .json => formatJson t
  | .graphql => formatGraphql t
  | .form => .ok (letters (formatForm t))
  | .raw => .ok (letters t)

/-- The body of a request in canonical form, empty if there is none. -/
def formatBody (r : Request) : Except FormatError Wide :=
  match strip (r.body.getD []) with
  | [] => .ok []
  | body => formatAs (contentKind r) body

end HttpFile
