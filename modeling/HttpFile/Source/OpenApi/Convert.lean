import HttpFile.Source.OpenApi.Server
import HttpFile.Source.OpenApi.Swagger
import HttpFile.Yaml.Load

/-!
# `HttpFile.Source.OpenApi.Convert` — a specification as documents

Each server of a specification gives one document with all operations. Without servers there is one
document, whose requests have the paths as they stand.

## Contents
- **Blocks.** `pathUrl`, `pathBlocks`, `allBlocks`.
- **Documents.** `serverDocuments`, `documents`, `read`.
-/

namespace HttpFile.Source.OpenApi

open Text

/-! ## Blocks -/

/-- The target of the requests of a path: behind the variable of the server, or as it stands. -/
def pathUrl (path : Value) : Option Text → Except Misfit Value
  | none => .ok path
  | some base =>
    match path.string?, path with
    | some ('/' :: rest), _ => .ok (.str (placeholder base ++ ['/'] ++ rest))
    | some t, _ => .ok (.str (placeholder base ++ ['/'] ++ t))
    | none, .bytes _ => .error .wrongKind
    | none, _ => .error .noNamedParts

/-- The blocks of the operations among the entries of a path. -/
def operationBlocks (spec : Value) (serverComments : List Text) (url shared : Value) :
    List (Value × Value) → Work (List Block)
  | [] => return []
  | (key, operation) :: rest => do
    match method? key, operation.opened with
    | some method, .dict _ =>
      let block ← operationBlock spec serverComments url method shared operation
      return block :: (← operationBlocks spec serverComments url shared rest)
    | _, _ => operationBlocks spec serverComments url shared rest

/-- The blocks of a path. -/
def pathBlocks (spec : Value) (serverComments : List Text) (base : Option Text)
    (path item : Value) : Work (List Block) := do
  match (← resolve spec item).opened with
  | .dict entries =>
    let url ← pathUrl path base
    let shared := (Value.lookup entries "parameters").getD .null
    operationBlocks spec serverComments url shared entries
  | _ => return []

/-- The blocks of all paths, in order. -/
def allBlocks (spec : Value) (serverComments : List Text) (base : Option Text) :
    List (Value × Value) → Work (List Block)
  | [] => return []
  | (path, item) :: rest => do
    let blocks ← pathBlocks spec serverComments base path item
    return blocks ++ (← allBlocks spec serverComments base rest)

/-! ## Documents -/

/-- The identifier of the document of a specification without servers. -/
def defaultIdentifier : Text := "default"

/-- The document of one server. -/
def serverDocument (spec : Value) (paths : List (Value × Value)) (index : Nat) (s : Server) :
    Work Document := do
  let declared ← s.declarations index
  let blocks ← allBlocks spec s.comments (some (baseVariable index)) paths
  return ⟨declared, blocks⟩

/-- The documents of the servers from a place on, with their identifiers. -/
def serverDocuments (spec : Value) (paths : List (Value × Value)) :
    List Text → Nat → List Value → Work (List NamedDocument)
  | _, _, [] => return []
  | used, index, entry :: rest => do
    let server ← Server.read entry
    let identifier := freeIdentifier used index server
    let document ← serverDocument spec paths index server
    let more ← serverDocuments spec paths (used ++ [identifier]) (index + 1) rest
    return ⟨identifier, document⟩ :: more

/-- The documents of a specification in the form of version 3. -/
def modernDocuments (spec : Value) (paths : List (Value × Value)) : Work (List NamedDocument) := do
  match ← serverEntries spec with
  | [] =>
    let blocks ← allBlocks spec [] none paths
    return [⟨defaultIdentifier, ⟨[], blocks⟩⟩]
  | servers => serverDocuments spec paths [] 0 servers

/-- The documents of a specification, named by their servers. -/
def documents (spec : Value) : Work (List NamedDocument) := do
  let entries ← fields spec
  match (Value.lookup entries "paths").map Value.opened with
  | some (.dict paths) =>
    if (Value.lookup entries "swagger").isSome then
      let (modern, paths) ← modernize entries paths
      modernDocuments modern paths
    else modernDocuments spec paths
  | _ => lacking .noPaths

/-- The documents of the specification in a file, named by the file and their servers. There is room
    for so many collections inside each other. -/
def read (room : Nat) (tree : Files.Tree) (path : Files.Path) : Work (List NamedDocument) := do
  match Yaml.load room (← tree.readText path) with
  | .error .malformed => lacking (.notYaml path.text Yaml.Failure.malformed.message)
  | .error f => throw (.yaml f)
  | .ok spec =>
    match spec.opened with
    | .dict _ =>
      let named ← documents spec
      return named.map fun d => { d with name := path.stem ++ "." ++ d.name }
    | _ => lacking (.notAMapping path.text)

end HttpFile.Source.OpenApi
