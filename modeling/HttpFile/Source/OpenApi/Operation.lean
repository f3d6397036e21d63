import HttpFile.Document.Basic
import HttpFile.Source.OpenApi.Example

/-!
# `HttpFile.Source.OpenApi.Operation` — an operation as a block

An operation becomes a request. Its header parameters become headers; a parameter of the operation
replaces one of the whole path with the same name and place.

## Contents
- **Parameters.** `mergeParameters`, `parameterValue`, `addParameter`.
- **Bodies.** `bodyOf`.
- **Blocks.** `operationBlock`.
-/

namespace HttpFile.Source.OpenApi

open Text

/-- The methods that an operation may have. -/
def methods : List Text := ["get", "post", "put", "delete", "patch"]

/-- The method that a key of a path names. -/
def method? : Value → Option Text
  | .str t => if methods.contains t then some t else none
  | _ => none

/-! ## Parameters -/

/-- The name and the place of a parameter. -/
abbrev ParameterKey := Value × Value

/-- Whether two parameters have the same name and place. -/
def ParameterKey.same (a b : ParameterKey) : Bool := a.1.sameKey b.1 && a.2.sameKey b.2

/-- Put a parameter in the place of one with the same key, or at the end. -/
def putParameter (key : ParameterKey) (parameter : Value) :
    List (ParameterKey × Value) → List (ParameterKey × Value)
  | [] => [(key, parameter)]
  | (k, p) :: rest =>
    if k.same key then (k, parameter) :: rest else (k, p) :: putParameter key parameter rest

/-- Merge parameters into those gathered so far; what has no name is left out. -/
def mergeInto (spec : Value) :
    List (ParameterKey × Value) → List Value → Work (List (ParameterKey × Value))
  | merged, [] => return merged
  | merged, node :: rest => do
    let parameter ← resolve spec node
    match Value.ifTruthy (parameter.get? "name") with
    | none => mergeInto spec merged rest
    | some name =>
      let place := (parameter.get? "in").getD .null
      if name.isKey && place.isKey then
        mergeInto spec (putParameter (name, place) parameter merged) rest
      else throw (.misfit .wrongKind)

/-- The parameters of a path and those of an operation, the latter in the place of equal ones. -/
def mergeParameters (spec shared own : Value) : Work (List Value) := do
  let shared ← elementsIfAny shared
  let own ← elementsIfAny own
  return (← mergeInto spec [] (shared ++ own)).map (·.2)

/-- A name between double braces, where a value is filled in later. -/
def placeholder (name : Text) : Text := ['{', '{'] ++ name ++ ['}', '}']

/-- The value of a header parameter: its example, the example of its schema, or a placeholder. -/
def parameterValue (parameter : Value) : Except Misfit Text :=
  match (parameter.get? "example").getD .null with
  | .null =>
    match (((parameter.get? "schema").getD .null).get? "example").getD .null with
    | .null => .ok (placeholder ((parameter.get? "name").getD .null).text)
    | given => scalarText given
  | given => scalarText given

/-- Whether a header with a parameter's name is there. -/
def isTaken (headers : List Header) (name : Value) : Except Misfit Bool :=
  match headers, name.string?, name with
  | [], _, _ => .ok false
  | _, some t, _ => .ok (headers.any fun h => sameIgnoringCase h.key t)
  | _, none, .bytes _ => .ok false
  | _, none, _ => .error .noNamedParts

/-- Add a header for a header parameter whose name is not yet taken. -/
def addParameter (headers : List Header) (parameter : Value) : Except Misfit (List Header) := do
  let name := (parameter.get? "name").getD .null
  let place := (parameter.get? "in").getD .null
  if !place.sameKey (.str "header".toList) then return headers
  else if ← isTaken headers name then return headers
  else
    let value ← parameterValue parameter
    return headers ++ [⟨← asText name, value⟩]

/-! ## Bodies -/

/-- The headers and the body that the first media type of an operation's request body gives. -/
def bodyOf (spec operation : Value) : Work (List Header × Option Text) := do
  let requestBody ← resolve spec ((operation.get? "requestBody").getD .null)
  match (← field (orEmpty requestBody) "content").opened with
  | .dict ((contentType, media) :: _) =>
    let contentType ← asText contentType
    let media ← resolve spec media
    let body ← exampleBody spec (orEmpty media)
    return ([⟨"Content-Type", contentType⟩], body)
  | _ => return ([], none)

/-! ## Blocks -/

/-- Data as comments, if they count as present. -/
def commentsOf (v : Value) : List Text := if v.isTruthy then commentLines v.text else []

/-- The name that an operation's identifier gives to a block. -/
def nameOf (identifier : Value) : List Metadata :=
  if identifier.isTruthy then [⟨"name", identifier.text⟩] else []

/-- The block of an operation. The target is checked to be a text once all else is built. -/
def operationBlock (spec : Value) (serverComments : List Text) (url : Value) (method : Text)
    (shared operation : Value) : Work Block := do
  let part (key : Text) : Value := (operation.get? key).getD .null
  let (headers, body) ← bodyOf spec operation
  let parameters ← mergeParameters spec shared (part "parameters")
  let headers ← (parameters.foldlM addParameter headers : Except Misfit (List Header))
  let request : Request :=
    { method := upper method, url := ← asText url, headers := headers, body := body }
  return {
    comments := serverComments ++ commentsOf (part "summary") ++ commentsOf (part "description")
    metadata := nameOf (part "operationId")
    request := some request }

end HttpFile.Source.OpenApi
