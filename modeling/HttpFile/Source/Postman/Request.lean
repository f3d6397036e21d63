import HttpFile.Document.Basic
import HttpFile.Source.Failure
import HttpFile.Url

/-!
# `HttpFile.Source.Postman.Request` — a request of a collection as a block

An item of a collection holds a request with its address, headers and body. The address may be one
text or taken apart. Entries may be switched off.

## Contents
- **Entries.** `isEnabled`, `enabledEntries`, `pair`.
- **Addresses.** `urlText`.
- **Bodies.** `bodyText`, with the headers that go with each kind of body.
- **Blocks.** `itemBlock`.
-/

namespace HttpFile.Source.Postman

open Text

/-! ## Entries -/

/-- A field of a mapping, nothing if it is not there. -/
def part (v : Value) (key : Text) : Value := (v.get? key).getD .null

/-- Whether an entry is switched on: it is not marked disabled, nor marked as not enabled. -/
def isEnabled (entry : Value) : Bool :=
  !(match part entry "enabled" with
    | .bool b => !b
    | _ => false) && !(part entry "disabled").isTruthy

/-- The mappings with a key that are switched on. -/
def enabledEntries (v : Value) : Except Misfit (List Value) :=
  (elementsIfAny v).map fun entries =>
    entries.filter fun entry => (part entry "key").isTruthy && isEnabled entry

/-- An entry as a key and a value. -/
def pair (entry : Value) : Text × Text :=
  ((part entry "key").text, optionalText (part entry "value"))

/-- An entry as a pair in a form or a query. -/
def pairText (entry : Value) : Text := (pair entry).1 ++ "=" ++ (pair entry).2

/-- A description: a text, or the content of a mapping. -/
def description : Value → Text
  | .dict entries => presentText (part (.dict entries) "content") []
  | v => presentText v []

/-! ## Addresses -/

/-- The texts of a list. -/
def allTexts : List Value → Except Misfit (List Text)
  | [] => return []
  | .str t :: rest => return t :: (← allTexts rest)
  | _ :: _ => throw .wrongKind

/-- A part of an address that is a list of texts to join, or one text. -/
def joined (separator : Text) (single : Text → Text) (v : Value) : Except Misfit Text :=
  if !v.isTruthy then .ok []
  else
    match v with
    | .list items => (allTexts items).map separator.intercalate
    | v => .ok (single v.text)

/-- An address from its parts. -/
def builtUrl (url : Value) : Except Misfit Text := do
  let host ← joined ['.'] id (part url "host")
  let path ← joined ['/'] (trimLeftWhere (· == '/')) (part url "path")
  let scheme := part url "protocol"
  let site := if scheme.isTruthy then scheme.text ++ "://" ++ host else host
  let place := if path.isEmpty then site else site ++ "/" ++ path
  let query := (← enabledEntries (part url "query")).map pairText
  return if query.isEmpty then place else place ++ "?" ++ ['&'].intercalate query

/-- The address of a request; data that are no address give none. -/
def urlText : Value → Except Misfit Text
  | .str t => .ok (strip t)
  | .dict entries =>
    let raw := part (.dict entries) "raw"
    if raw.isTruthy then .ok (strip raw.text) else builtUrl (.dict entries)
  | _ => .ok []

/-! ## Bodies -/

/-- The media type for a language of raw text. -/
def mediaType (language : Text) : Text :=
  let known : List (Text × Text) := [
    ("json", "application/json"),
    ("javascript", "application/javascript"),
    ("xml", "application/xml"),
    ("text", "text/plain")]
  (known.lookup (lower language)).getD "text/plain"

/-- A raw body, unless it is blank. -/
def rawBody (body : Value) (headers : List Header) : Except Misfit (List Header × Option Text) := do
  let raw ← match Value.ifTruthy (body.get? "raw") with
    | none => pure []
    | some (.str t) => pure t
    | some _ => throw .noNamedParts
  if allBlank raw then return (headers, none)
  else
    let options ← field (orEmpty (part body "options")) "raw"
    let language ← field (orEmpty options) "language"
    let type := mediaType (presentText language "text")
    return (addHeader headers "Content-Type" type, some raw)

/-- The pairs of a form. -/
def formBody (body : Value) (headers : List Header) :
    Except Misfit (List Header × Option Text) := do
  let pairs := (← enabledEntries (part body "urlencoded")).map pairText
  if pairs.isEmpty then return (headers, none)
  else
    let headers := addHeader headers "Content-Type" "application/x-www-form-urlencoded"
    return (headers, some (['&'].intercalate pairs))

/-- The text of a query's variables; a mapping is written as JSON. -/
def variablesText (vars : Value) : Except Misfit Text := do
  match vars with
  | .dict entries => return strip (← jsonText .asciiLine (.dict entries))
  | v => return strip (presentText v [])

/-- A query with its variables below it. -/
def queryBody (body : Value) (headers : List Header) :
    Except Misfit (List Header × Option Text) := do
  let graphql := orEmpty (part body "graphql")
  let query := strip (presentText (← field graphql "query") [])
  if query.isEmpty then return (headers, none)
  else
    let vars ← variablesText (part graphql "variables")
    let text := if vars.isEmpty then query else query ++ ['\n', '\n'] ++ vars
    let headers := addHeader headers "X-Request-Type" "GraphQL"
    return (addHeader headers "Content-Type" "application/json", some text)

/-- The body of a request, and its headers with those that the body calls for. -/
def bodyText (body : Value) (headers : List Header) : Work (List Header × Option Text) := do
  if !body.isTruthy then return (headers, none)
  else
    let mode ← field body "mode"
    if mode.sameKey (.str "raw".toList) then rawBody body headers
    else if mode.sameKey (.str "urlencoded".toList) then formBody body headers
    else if mode.sameKey (.str "graphql".toList) then queryBody body headers
    else
      if mode.isTruthy then
        Logged.warn ("Unsupported Postman body mode " ++ mode.shown ++ ", body dropped")
      return (headers, none)

/-! ## Blocks -/

/-- A request that is only an address is written out in full. -/
def fullRequest : Value → Value
  | .str url => .dict [(.str "method".toList, .str "GET".toList), (.str "url".toList, .str url)]
  | v => v

/-- The block of an item with a request. -/
def itemBlock (item : Value) : Work Block := do
  let request := fullRequest (part item "request")
  let name := presentText (part item "name") []
  let url ← urlText (← field request "url")
  if url.isEmpty then lacking (.requestWithoutUrl name)
  else
    let headers := (← enabledEntries (part request "header")).map fun entry =>
      (⟨(pair entry).1, (pair entry).2⟩ : Header)
    let (headers, body) ← bodyText (part request "body") headers
    let request : Request :=
      { method := upper (presentText (part request "method") "GET")
        url := Url.fold url
        headers := headers
        body := body }
    let about := description (part (fullRequest (part item "request")) "description")
    return {
      comments := commentLines name ++ commentLines about
      metadata := if name.isEmpty then [] else [⟨"name", metadataName name⟩]
      request := some request }

end HttpFile.Source.Postman
