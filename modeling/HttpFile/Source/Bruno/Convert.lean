import HttpFile.Source.Bruno.Request

/-!
# `HttpFile.Source.Bruno.Convert` — a folder of request files as documents

A collection is a folder with a description, request files in nested folders, and environments. Each
environment gives one document with all requests.

## Contents
- **Descriptions.** `Description`, `readDescription`.
- **Environments.** `readEnvironments`.
- **The walk.** `folderBlocks`: the requests of a folder in their order, then its subfolders.
- **Documents.** `documents`.
-/

namespace HttpFile.Source.Bruno

open Text Files

instance : MonadLift (Except SchemaError) Work where
  monadLift r := Logged.ofExcept (r.mapError .schema)

/-! ## Descriptions -/

/-- The name of a collection and the names of its files that are left out. -/
structure Description where
  name : Text := "bruno-collection"
  ignored : List Text := []
deriving DecidableEq, Repr

/-- The file that describes a collection. -/
def descriptionFile : Text := "bruno.json"

/-- The folder of environments. -/
def environmentsFolder : Text := "environments"

/-- The extension of the files of a collection. -/
def fileExtension : Text := ".bru"

/-- Read the description of the collection in a folder. -/
def readDescription (tree : Tree) (folder : Path) : Work Description := do
  let path := folder.child descriptionFile
  if !(← tree.isFile path) then
    Logged.warn (path.text ++ " not found, using default collection name")
    return {}
  else
    match ← readJson tree path with
    | .dict entries =>
      let part (key : Text) : Value := (Value.lookup entries key).getD .null
      let ignored ← elementsIfAny (part "ignore")
      return ⟨presentText (part "name") ({} : Description).name, ignored.map Value.text⟩
    | _ => lacking (.notAnObject path.text)

/-! ## Environments -/

/-- Read an environment from a file. -/
def readEnvironment (tree : Tree) (path : Path) : Work (Text × List Variable) := do
  let declared ← environmentVariables (← tree.readText path)
  return (path.stem, declared)

/-- The environments of the collection in a folder, with their names, in order. -/
def readEnvironments (tree : Tree) (folder : Path) : Work (List (Text × List Variable)) := do
  let path := folder.child environmentsFolder
  if ← tree.isFolder path then
    let names := (← tree.names path).filter fun name => endsWith name fileExtension
    names.mapM fun name => readEnvironment tree (path.child name)
  else return []

/-! ## The walk -/

/-- The greatest depth of folders inside each other. -/
def maxDepth : Nat := 64

/-- What an entry of a folder adds: requests of its own, or a subfolder. -/
structure Contents where
  requests : List OrderedBlock := []
  subfolders : List Path := []

/-- What an entry of a folder adds. Links and ignored names add nothing. -/
def entryContents (tree : Tree) (root : Path) (ignored : List Text) (folder : Path) (name : Text) :
    Work Contents := do
  let path := folder.child name
  if ← tree.isLink path then return {}
  else if ignored.contains name then return {}
  else if ← tree.isFolder path then return { subfolders := [path] }
  else if path.extension = fileExtension then
    let sections ← readSections (← tree.readText path)
    match ← requestBlock? (path.relativeTo root) sections with
    | some block => return { requests := [block] }
    | none =>
      Logged.note .debug ("Skipping " ++ path.text ++ ": no request section")
      return {}
  else return {}

/-- The blocks of a folder and its subfolders, through at most so many levels below it. -/
def folderBlocks (tree : Tree) (root : Path) (ignored : List Text) :
    Nat → Path → Work (List Block)
  | levels, folder => do
    let contents ← (← tree.names folder).mapM (entryContents tree root ignored folder)
    let requests := (contents.flatMap (·.requests)).mergeSort OrderedBlock.le
    let subfolders := contents.flatMap (·.subfolders)
    let inner ← match levels with
      | 0 => if subfolders.isEmpty then pure [] else lacking (.itemsTooDeep maxDepth folder.text)
      | levels + 1 => subfolders.mapM (folderBlocks tree root ignored levels)
    return requests.map (·.block) ++ inner.flatten

/-! ## Documents -/

/-- The blocks of a collection. -/
def collectBlocks (tree : Tree) (folder : Path) (d : Description) : Work (List Block) :=
  folderBlocks tree folder (environmentsFolder :: d.ignored) maxDepth folder

/-- The documents of a collection, one for each environment. -/
def documents (tree : Tree) (folder : Path) : Work (List NamedDocument) := do
  if !(← tree.isFolder folder) then lacking (.notACollectionFolder folder.text)
  else
    let d ← readDescription tree folder
    match ← readEnvironments tree folder with
    | [] => return [⟨d.name, ⟨[], ← collectBlocks tree folder d⟩⟩]
    | environments => environments.mapM fun (name, declared) => do
      let blocks ← collectBlocks tree folder d
      return ⟨d.name ++ "." ++ name, ⟨declared, blocks⟩⟩

end HttpFile.Source.Bruno
