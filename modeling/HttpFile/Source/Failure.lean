import HttpFile.Files.Tree
import HttpFile.Json.Reader
import HttpFile.Log
import HttpFile.Source.Shape
import HttpFile.Yaml.Failure

/-!
# `HttpFile.Source.Failure` — why a collection cannot be converted

A source may lack what a request needs, may be data of the wrong shape, or may not be readable at
all.

## Contents
- **Lacks.** `SchemaError` and its `message`.
- **All causes.** `SourceError`.
- **Work.** `Work`: conversion that makes notes and may fail; `lacking`, `readJson`.
-/

namespace HttpFile.Source

open Text

/-- What a source lacks, or where it goes beyond a bound. -/
inductive SchemaError where
  | notYaml (file : Text) (reason : Text)
  | notJson (file : Text) (reason : Json.Located)
  | notAMapping (file : Text)
  | noPaths
  | referenceTooDeep (reference : Text)
  | referenceUnresolved (reference : Text)
  | noItems
  | itemsTooDeep (limit : Nat) (place : Text)
  | requestWithoutUrl (name : Text)
  | notACollectionFolder (file : Text)
  | notAnObject (file : Text)
  | openSection (name : Text)
  | sectionWithoutUrl (file section_ : Text)
  | folderWithoutCollection (folder : Text)
  | unknownFormat (file : Text)
deriving DecidableEq, Repr

/-- What is said about a lack. -/
def SchemaError.message : SchemaError → Text
  | .notYaml file reason => file ++ ": not valid YAML/JSON: " ++ reason
  | .notJson file reason => file ++ ": not valid JSON: " ++ reason.message
  | .notAMapping file => file ++ ": an OpenAPI document must be a mapping"
  | .noPaths => "OpenAPI document has no paths"
  | .referenceTooDeep reference => "$ref chain too deep at " ++ reference
  | .referenceUnresolved reference => "Unresolvable $ref " ++ reference
  | .noItems => "Postman collection has no item list"
  | .itemsTooDeep limit place => "Folder nesting deeper than " ++ ofNat limit ++ " at " ++ place
  | .requestWithoutUrl name => "Postman request " ++ quoted name ++ " has no URL"
  | .notACollectionFolder file => file ++ ": a Bruno collection must be a directory"
  | .notAnObject file => file ++ ": expected a JSON object"
  | .openSection name => "Unterminated section " ++ quoted name
  | .sectionWithoutUrl file name => file ++ ": " ++ name ++ " section has no url"
  | .folderWithoutCollection folder =>
    folder ++ ": directory is not a Bruno collection (no bruno.json)"
  | .unknownFormat file => file ++ ": cannot detect the source format, use --from"

/-- Why a source cannot be converted. -/
inductive SourceError where
  | schema (e : SchemaError)
  | misfit (m : Misfit)
  | unreadable (e : Files.ReadError)
  | yaml (e : Yaml.Failure)
  /-- An integer in JSON has more digits than are read. -/
  | digits
deriving DecidableEq, Repr

/-- Conversion, which makes notes and may fail. -/
abbrev Work := Logged SourceError

instance : MonadLift (Except Misfit) Work where
  monadLift r := Logged.ofExcept (r.mapError .misfit)

instance : MonadLift (Except Files.FileError) Work where
  monadLift r := Logged.ofExcept (r.mapError fun e => .unreadable (.file e))

instance : MonadLift (Except Files.ReadError) Work where
  monadLift r := Logged.ofExcept (r.mapError .unreadable)

/-- Fail for a lack. -/
def lacking {α : Type} (e : SchemaError) : Work α := throw (.schema e)

/-- The data in the JSON file at a path. -/
def readJson (tree : Files.Tree) (path : Files.Path) : Work Value := do
  match Json.parse (← tree.readText path) with
  | .ok v => return v
  | .error reason =>
    if reason.cause = .digits then throw .digits else lacking (.notJson path.text reason)

end HttpFile.Source
