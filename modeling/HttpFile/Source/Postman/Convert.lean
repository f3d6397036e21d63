import HttpFile.Source.Postman.Request

/-!
# `HttpFile.Source.Postman.Convert` — a collection as a document

A collection is a tree of folders and requests. Its variables are declared, a folder with a
description becomes a block of comments, and every request becomes a block.

## Contents
- **The walk.** `walkItems` over one list, `walk` through the folders up to a bound.
- **Documents.** `document`, `read`.
-/

namespace HttpFile.Source.Postman

open Text

/-! ## The walk -/

/-- The greatest depth of lists of items inside each other. -/
def maxDepth : Nat := 64

/-- The name of a folder behind the names of the folders around it. -/
def folderPath (outer name : Text) : Text := if outer.isEmpty then name else outer ++ "/" ++ name

/-- The block that tells what a folder is for. -/
def folderBlocks (path about : Text) : List Block :=
  if about.isEmpty then [] else [{ comments := ("# Folder: " ++ path) :: commentLines about }]

/-- The blocks of a list of items, given how to walk through a folder. The first item that is
    nothing ends the list. -/
def walkItems (enter : Text → Value → Work (List Block)) (path : Text) :
    List Value → Work (List Block)
  | [] => return []
  | .null :: _ => return []
  | .dict entries :: rest => do
    let item := Value.dict entries
    match item.get? "item", item.get? "request" with
    | some items, _ =>
      let inner := folderPath path (presentText (part item "name") [])
      let about := folderBlocks inner (description (part item "description"))
      let blocks ← enter inner items
      return about ++ blocks ++ (← walkItems enter path rest)
    | none, some _ =>
      let block ← itemBlock item
      return block :: (← walkItems enter path rest)
    | none, none => walkItems enter path rest
  | _ :: rest => walkItems enter path rest

/-- The blocks of a list of items in a folder, through at most so many levels of folders below
    it. -/
def walk : Nat → Text → Value → Work (List Block)
  | 0, path, items => do
    let refuse (inner : Text) (_ : Value) : Work (List Block) :=
      lacking (.itemsTooDeep maxDepth inner)
    walkItems refuse path (← elementsIfAny items)
  | levels + 1, path, items => do
    walkItems (walk levels) path (← elementsIfAny items)

/-! ## Documents -/

/-- The name of a collection that has none. -/
def defaultName : Text := "postman-collection"

/-- A collection as a document. -/
def document (collection : Value) : Work NamedDocument := do
  match collection.get? "item" with
  | some (.list items) =>
    let info ← field (orEmpty (part collection "info")) "name"
    let declared := (← enabledEntries (part collection "variable")).map fun entry =>
      (⟨(pair entry).1, (pair entry).2⟩ : Variable)
    let blocks ← walk (maxDepth - 1) [] (.list items)
    return ⟨presentText info defaultName, ⟨declared, blocks⟩⟩
  | _ => lacking .noItems

/-- The document of the collection in a file. -/
def read (tree : Files.Tree) (path : Files.Path) : Work NamedDocument := do
  document (← readJson tree path)

end HttpFile.Source.Postman
