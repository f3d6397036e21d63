import HttpFile.Source.Bruno.Section
import HttpFile.Text.Numeral
import HttpFile.Url

/-!
# `HttpFile.Source.Bruno.Request` — a request file as a block

A file with a section named for a method holds a request. Other sections hold its name and place in
the order, its headers, credentials, body, scripts and documentation.

## Contents
- **Bodies.** `sectionForMode`, `bodyOf`.
- **Credentials.** `credentials?`.
- **Order.** `sequence`, `OrderedBlock`.
- **Blocks.** `requestBlock?`.
-/

namespace HttpFile.Source.Bruno

open Text

/-- The sections that hold a request. -/
def methods : List Text := ["get", "post", "put", "delete", "patch"]

/-- The text of the section with a name, empty if there is none. -/
def textOf (sections : List Section) (name : Text) : Text :=
  ((named? sections name).map Section.text).getD []

/-! ## Bodies -/

/-- The sections that hold bodies, in the order in which they are tried, with their media types. -/
def bodyTypes : List (Text × Text) := [
  ("body:json", "application/json"),
  ("body:graphql", "application/json"),
  ("body:form-urlencoded", "application/x-www-form-urlencoded"),
  ("body:text", "text/plain"),
  ("body:xml", "application/xml")]

/-- The section that a request names by a mode. -/
def sectionForMode : List (Text × Text) := [
  ("json", "body:json"),
  ("graphql", "body:graphql"),
  ("formUrlEncoded", "body:form-urlencoded"),
  ("text", "body:text"),
  ("xml", "body:xml")]

/-- The section that holds the body: the one for the mode, or for no known mode the first there
    is. -/
def bodySection? (sections : List Section) (mode : Text) : Option Section :=
  if mode = "none".toList then none
  else
    match sectionForMode.lookup mode with
    | some name => named? sections name
    | none => (bodyTypes.findSome? fun (name, _) => named? sections name)

/-- A JSON body; one that is no object or list stands inside the braces of an object. -/
def jsonBody (t : Text) : Text :=
  match t with
  | [] => []
  | '{' :: _ | '[' :: _ => t
  | _ => ['{', '\n'] ++ indent "  " t ++ ['\n', '}']

/-- A query with its variables below it. -/
def queryBody (query vars : Text) : Text :=
  if query.isEmpty || vars.isEmpty then query else query ++ ['\n', '\n'] ++ vars

/-- The text of a body. -/
def bodyText (sections : List Section) (s : Section) : Text :=
  if s.name = "body:json".toList then jsonBody s.text
  else if s.name = "body:graphql".toList then
    queryBody s.text (textOf sections "body:graphql:vars")
  else if s.name = "body:form-urlencoded".toList then
    ['&'].intercalate ((s.pairs.filter fun (key, _) => isOn key).map fun (key, value) =>
      key ++ "=" ++ value)
  else s.text

/-- The body of a request, and its headers with those that the body calls for. -/
def bodyOf (sections : List Section) (mode : Text) (headers : List Header) :
    List Header × Option Text :=
  match bodySection? sections mode with
  | none => (headers, none)
  | some s =>
    let headers := if s.name = "body:graphql".toList then
      addHeader (addHeader headers "Accept" "application/json") "X-Request-Type" "GraphQL"
      else headers
    let body := bodyText sections s
    if body.isEmpty then (headers, none)
    else (addHeader headers "Content-Type" ((bodyTypes.lookup s.name).getD []), some body)

/-! ## Credentials -/

/-- The value of the authorization header for a mode. -/
def credentials? (sections : List Section) (mode : Text) : Option Text :=
  if mode = "bearer".toList then
    (named? sections "auth:bearer").map fun s => strip ("Bearer " ++ valueOf s.pairs "token")
  else if mode = "basic".toList then
    (named? sections "auth:basic").map fun s =>
      "Basic " ++ valueOf s.pairs "username" ++ ":" ++ valueOf s.pairs "password"
  else none

/-- The headers of a request, its credentials included. -/
def headersOf (sections : List Section) (mode : Text) : List Header :=
  let listed := ((named? sections "headers").map Section.pairs).getD []
  let own := listed.filter fun (key, _) => isOn key
  let headers : List Header := own.map fun (key, value) => ⟨key, value⟩
  match credentials? sections mode with
  | some value => addHeader headers "Authorization" value
  | none => headers

/-! ## Order -/

/-- The place of a request that names none: behind those that name one. -/
def lastPlace : Int := 2147483648

/-- The place that a request names. -/
def sequence (pairs : List (Text × Text)) : Int :=
  ((pairs.reverse.lookup "seq".toList).bind integer?).getD lastPlace

/-- A block with what orders it: its place and the name of its file. -/
structure OrderedBlock where
  place : Int
  file : Text
  block : Block
deriving DecidableEq, Repr

/-- Whether a block comes before another or at the same place. -/
def OrderedBlock.le (a b : OrderedBlock) : Bool :=
  a.place < b.place || (a.place == b.place && precedes a.file b.file)

/-! ## Blocks -/

/-- The scripts in the sections of the given names. -/
def scriptsOf (sections : List Section) (names : List Text) : List Script :=
  ((names.map (textOf sections)).filter (· ≠ [])).map .inline

/-- The block of a request file, given its sections, the section of its method and its place in the
    collection. -/
def requestBlock (sections : List Section) (method : Section) (file : Files.Path) (url : Text) :
    OrderedBlock :=
  let meta_ := ((named? sections "meta").map Section.pairs).getD []
  let name := valueOf meta_ "name"
  let folder := file.parent
  let headers := headersOf sections (valueOf method.pairs "auth")
  let (headers, body) := bodyOf sections (valueOf method.pairs "body") headers
  let about := if folder.parts.isEmpty then [] else ["# Folder: " ++ folder.text]
  let request : Request :=
    { method := upper method.name, url := Url.fold url, headers := headers, body := body }
  { place := sequence meta_
    file := file.name
    block :=
      { comments := about ++ commentLines name ++ commentLines (textOf sections "docs")
        metadata := if name.isEmpty then [] else [⟨"name", metadataName name⟩]
        request := some request
        preRequestScripts := scriptsOf sections ["script", "script:pre-request"]
        postRequestScripts := scriptsOf sections ["script:post-response", "tests"] } }

/-- The block of the file at a place in the collection, if it holds a request. -/
def requestBlock? (file : Files.Path) (sections : List Section) :
    Except SchemaError (Option OrderedBlock) :=
  match sections.find? fun s => methods.contains s.name with
  | none => .ok none
  | some method =>
    let url := valueOf method.pairs "url"
    if url.isEmpty then .error (.sectionWithoutUrl file.withoutExtension.text method.name)
    else .ok (some (requestBlock sections method file url))

end HttpFile.Source.Bruno
