import HttpFile.Source.OpenApi.Reference

/-!
# `HttpFile.Source.OpenApi.Example` — example bodies

The body of a request is the example that its media type gives: directly, as the first of several,
or made up from the properties of its schema.

## Contents
- **Made-up values.** `placeholderFor`, `exampleOfProperties`.
- **Media types.** `holds`, `dump`, `exampleBody`.
-/

namespace HttpFile.Source.OpenApi

open Text

/-! ## Made-up values -/

/-- A value of a schema's type. -/
def placeholderFor : Value → Value
  | .str t =>
    if t = "string".toList then .str "string".toList
    else if t = "number".toList || t = "integer".toList then .int 0
    else if t = "boolean".toList then .bool false
    else if t = "array".toList then .list []
    else if t = "object".toList then .dict []
    else .null
  | _ => .null

/-- The example of a property, or a value of its type. -/
def propertyExample (property : Value) : Except Misfit Value := do
  match ← field property "example" with
  | .null => return placeholderFor (← field property "type")
  | given => return given

/-- An object with an example for each property. -/
def exampleOfProperties (spec : Value) :
    List (Value × Value) → Work (List (Value × Value))
  | [] => return []
  | (key, property) :: rest => do
    let property := orEmpty (← resolve spec property)
    let example_ ← propertyExample property
    let more ← exampleOfProperties spec rest
    return (key, example_) :: more

/-- An object made up from the properties at the top of a schema. -/
def exampleOfSchema (spec schema : Value) : Work Value := do
  let properties ← fields (orEmpty (← field schema "properties"))
  return .dict (← exampleOfProperties spec properties)

/-! ## Media types -/

/-- Whether a text stands in data: as a key, an item or a part of a text. -/
def holds (v : Value) (t : Text) : Except Misfit Bool :=
  match v.opened with
  | .dict entries => .ok (Value.lookup entries t).isSome
  | .str whole => .ok (occursIn t whole)
  | .list items | .tuple items | .set items => .ok (items.any fun item => item.sameKey (.str t))
  | _ => .error .wrongKind

/-- An example as the text of a body: a text is one already. -/
def dump (v : Value) : Except Misfit Text :=
  match v.string? with
  | some t => .ok t
  | none => jsonText .indented v

/-- The first of several examples that has a value. -/
def firstExample (spec : Value) : List (Value × Value) → Work (Option Value)
  | [] => return none
  | (_, candidate) :: rest => do
    match (← resolve spec candidate).get? "value" with
    | some v => return some v
    | none => firstExample spec rest

/-- The body that a media type gives as an example. -/
def exampleBody (spec media : Value) : Work (Option Text) := do
  if ← holds media "example" then
    match media.get? "example" with
    | some v => return some (← dump v)
    | none => throw (.misfit .wrongKind)
  else
    let given ← match (← field media "examples").opened with
      | .dict entries => firstExample spec entries
      | _ => pure none
    match given with
    | some v => return some (← dump v)
    | none =>
      let schema ← resolve spec (← field media "schema")
      match schema.opened with
      | .dict _ => return some (← dump (← exampleOfSchema spec schema))
      | _ => return none

end HttpFile.Source.OpenApi
