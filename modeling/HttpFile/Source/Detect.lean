import HttpFile.Source.Failure
import HttpFile.Yaml.Load

/-!
# `HttpFile.Source.Detect` — telling what a source is

A folder with a description is a collection of request files. A file is told by what stands at the
top of its data, read as YAML and, if that does not tell, as JSON.

## Contents
- **Formats.** `Format`, `Format.name`, `Format.ofName?`.
- **Data.** `formatOf?`.
- **Sources.** `detect`.
-/

namespace HttpFile.Source

open Text Files

/-- The format of a source. -/
inductive Format where
  | openApi
  | postman
  | bruno
deriving DecidableEq, Repr

/-- The name of a format. -/
def Format.name : Format → Text
  | .openApi => "openapi"
  | .postman => "postman"
  | .bruno => "bruno"

/-- The format with a name. -/
def Format.ofName? (t : Text) : Option Format :=
  [Format.openApi, .postman, .bruno].find? fun f => f.name == t

/-- The host of the schemas of collections. -/
def schemaHost : Text := "schema.getpostman.com"

/-- The format that data show at their top. -/
def formatOf? (v : Value) : Option Format :=
  if (v.get? "openapi").isSome || (v.get? "swagger").isSome then some .openApi
  else
    match (v.get? "info").map Value.opened with
    | some (.dict entries) =>
      let schema := ((Value.lookup entries "schema").map Value.text).getD []
      if (Value.lookup entries "_postman_id").isSome || occursIn schemaHost schema then
        some .postman
      else none
    | _ => none

/-- The format of a text, read as JSON. -/
def jsonFormat? (t : Text) : Option Format :=
  match Json.parse t with
  | .ok v => formatOf? v
  | .error _ => none

/-- The format of a text, read as YAML with room for so many collections inside each other, or else
    as JSON. -/
def textFormat? (room : Nat) (t : Text) : Except Yaml.Failure (Option Format) :=
  match Yaml.load room t with
  | .ok v => .ok ((formatOf? v).orElse fun _ => jsonFormat? t)
  | .error .malformed => .ok (jsonFormat? t)
  | .error f => .error f

/-- The format of the source at a path. -/
def detect (room : Nat) (tree : Tree) (path : Path) : Work Format := do
  if ← tree.isFolder path then
    if ← tree.isFile (path.child "bruno.json") then return .bruno
    else lacking (.folderWithoutCollection path.text)
  else
    match textFormat? room (← tree.readText path) with
    | .error f => throw (.yaml f)
    | .ok (some format) => return format
    | .ok none => lacking (.unknownFormat path.text)

end HttpFile.Source
