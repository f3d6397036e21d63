import HttpFile.Source.OpenApi.Operation

/-!
# `HttpFile.Source.OpenApi.Swagger` — specifications of version 2

Version 2 names its server by host and base path, and writes a request body as a parameter. Both are
brought into the form of version 3 before anything else is done.

## Contents
- **Servers.** `withServers`.
- **Bodies.** `bodyParameter?`, `withRequestBody`, `modernItem`.
- **Specifications.** `modernize`.
-/

namespace HttpFile.Source.OpenApi

open Text

/-- The first of several choices, or a default if there are none. -/
def firstOr (choices default : Value) : Except Misfit Value :=
  if choices.isTruthy then first choices else .ok default

/-! ## Servers -/

/-- The specification with a server made from its host and base path, unless it has servers. -/
def withServers (spec : List (Value × Value)) : Except Misfit (List (Value × Value)) := do
  let part (key : Text) : Value := (Value.lookup spec key).getD .null
  if !(part "servers").isTruthy && (part "host").isTruthy then
    let scheme ← firstOr (part "schemes") (.str "https".toList)
    let basePath := ((Value.lookup spec "basePath").map Value.text).getD []
    let url := scheme.text ++ "://" ++ (part "host").text ++ basePath
    return Value.put spec (.str "servers".toList)
      (.list [.dict [(.str "url".toList, .str url)]])
  else return spec

/-! ## Bodies -/

/-- The first parameter that stands for the body. -/
def bodyParameter? : List Value → Except Misfit (Option Value)
  | [] => return none
  | parameter :: rest => do
    let place ← field parameter "in"
    if place.sameKey (.str "body".toList) then return some parameter else bodyParameter? rest

/-- The parameters of an operation, resolved one by one. -/
def resolveAll (spec : Value) : List Value → Work (List Value)
  | [] => return []
  | node :: rest => do
    let parameter ← resolve spec node
    return orEmpty parameter :: (← resolveAll spec rest)

/-- An operation with its body parameter written as a request body; nothing if it has none or has a
    request body. -/
def withRequestBody (spec defaultType : Value) (operation : List (Value × Value)) :
    Work (Option (List (Value × Value))) := do
  let part (key : Text) : Value := (Value.lookup operation key).getD .null
  if (Value.lookup operation "requestBody").isSome then return none
  else
    let parameters ← resolveAll spec (← elementsIfAny (part "parameters"))
    match ← bodyParameter? parameters with
    | none => return none
    | some parameter =>
      let mediaType ← firstOr (part "consumes") defaultType
      if !mediaType.isKey then throw (.misfit .wrongKind)
      let schema := orEmpty ((parameter.get? "schema").getD .null)
      let content := Value.dict [(mediaType, .dict [(.str "schema".toList, schema)])]
      return some (Value.put operation (.str "requestBody".toList)
        (.dict [(.str "content".toList, content)]))

/-- The item of a path with the operations of the given methods brought into the new form. -/
def modernItem (spec defaultType : Value) :
    List Text → List (Value × Value) → Work (List (Value × Value))
  | [], item => return item
  | method :: rest, item => do
    match (Value.lookup item method).map Value.opened with
    | some (.dict operation) =>
      match ← withRequestBody spec defaultType operation with
      | some changed =>
        modernItem spec defaultType rest (Value.put item (.str method) (.dict changed))
      | none => modernItem spec defaultType rest item
    | _ => modernItem spec defaultType rest item

/-- The paths with all their operations brought into the new form. -/
def modernPaths (spec defaultType : Value) :
    List (Value × Value) → Work (List (Value × Value))
  | [] => return []
  | (path, item) :: rest => do
    let modern ← match item.opened with
      | .dict entries => .dict <$> modernItem spec defaultType methods entries
      | _ => pure item
    return (path, modern) :: (← modernPaths spec defaultType rest)

/-! ## Specifications -/

/-- A specification of version 2 and its paths in the form of version 3. References are resolved in
    the old form. -/
def modernize (spec paths : List (Value × Value)) : Work (Value × List (Value × Value)) := do
  let spec ← withServers spec
  let defaultType ← firstOr ((Value.lookup spec "consumes").getD .null)
    (.str "application/json".toList)
  let paths ← modernPaths (.dict spec) defaultType paths
  return (.dict (Value.put spec (.str "paths".toList) (.dict paths)), paths)

end HttpFile.Source.OpenApi
