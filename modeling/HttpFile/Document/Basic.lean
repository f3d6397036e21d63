import HttpFile.Text.Casing
import HttpFile.Text.Lines

/-!
# `HttpFile.Document.Basic` — what a request file says

A document is a list of variables and a list of blocks. A block is one request with the comments,
metadata and scripts that belong to it. Documents come from request files and from collections in
other formats; they are written in one canonical form.

## Contents
- **Parts.** `Variable`, `Header`, `Metadata`, `Script`, `BodyKind`, `Request`, `Block`, `Document`.
- **Look-up.** `Request.header?`, `Block.isEmpty`, `addHeader`.
- **Free text.** `commentLines` makes comments of it, `metadataName` an identifier.
-/

namespace HttpFile

open Text

/-- A declaration of a variable. -/
structure Variable where
  key : Text
  value : Text := []
deriving DecidableEq, Repr

/-- A header of a request. -/
structure Header where
  key : Text
  value : Text := []
deriving DecidableEq, Repr

/-- A fact about a request, written inside a comment. -/
structure Metadata where
  key : Text
  value : Text := []
deriving DecidableEq, Repr

/-- A script that runs before or after a request: its code, or the path of a file. -/
inductive Script where
  | inline (code : Text)
  | file (path : Text)
deriving DecidableEq, Repr

/-- What the first line of a body announces. -/
inductive BodyKind where
  | json
  | graphql
  | form
  | xml
  | external
  | raw
deriving DecidableEq, Repr

/-- The method of a request that names none. -/
def defaultMethod : Text := "GET"

/-- The protocol version of a request that names none. -/
def defaultVersion : Text := "HTTP/1.1"

/-- A request. -/
structure Request where
  method : Text := defaultMethod
  url : Text
  version : Text := defaultVersion
  headers : List Header := []
  body : Option Text := none
  bodyKind : Option BodyKind := none
deriving DecidableEq, Repr

/-- A request with its comments, metadata and scripts. -/
structure Block where
  separatorText : Option Text := none
  comments : List Text := []
  metadata : List Metadata := []
  request : Option Request := none
  preRequestScripts : List Script := []
  postRequestScripts : List Script := []
  responseRedirect : Option Text := none
deriving DecidableEq, Repr

/-- The contents of a request file. -/
structure Document where
  declarations : List Variable := []
  blocks : List Block := []
deriving DecidableEq, Repr

/-- A converted document and the name of the file it is written to, without the extension. -/
structure NamedDocument where
  name : Text
  document : Document
deriving DecidableEq, Repr

/-! ## Look-up -/

/-- The value of the first header with a key, whatever its case. -/
def Request.header? (r : Request) (key : Text) : Option Text :=
  (r.headers.find? fun h => sameIgnoringCase h.key key).map (·.value)

/-- Whether a block carries nothing worth keeping: no request with a target, no metadata and no
    comments. -/
def Block.isEmpty (b : Block) : Bool :=
  let hasUrl := match b.request with
    | some r => !r.url.isEmpty
    | none => false
  !(hasUrl || !b.metadata.isEmpty || !b.comments.isEmpty)

/-- Add a header at the end unless one with the same key, whatever its case, is there. -/
def addHeader (headers : List Header) (key value : Text) : List Header :=
  if headers.any fun h => sameIgnoringCase h.key key then headers else headers ++ [⟨key, value⟩]

/-! ## Free text -/

/-- Whether a comment's text would read back as metadata. -/
def looksLikeMetadata : Text → Bool
  | '@' :: c :: _ => c.isAlpha || c == '_' || c == '$'
  | _ => false

/-- A line of free text as a comment; what would read back as metadata is written as a list item. -/
def commentLine (line : Text) : Text :=
  if looksLikeMetadata line then "# - " ++ line else "# " ++ line

/-- Free text as comments, one for each line that is not blank. -/
def commentLines (t : Text) : List Text :=
  (((lines t).map strip).filter (· ≠ [])).map commentLine

/-- A display name in capitals, its words joined by underscores. -/
def metadataName (name : Text) : Text := upper (['_'].intercalate (words name))

end HttpFile
