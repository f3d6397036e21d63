import HttpFile.Document.Render
import HttpFile.Source.Bruno.Convert
import HttpFile.Source.Detect
import HttpFile.Source.OpenApi.Convert
import HttpFile.Source.Postman.Convert

/-!
# `HttpFile.Convert` — converting sources to request files

A source is read into documents, each of which is written to a file of its own. All texts are ready
before the first one is written, so a source that cannot be converted writes no file. How deep a
source may be nested depends on the machine, so the room for collections inside each other is a
parameter.

## Contents
- **Failures.** `ConvertError`.
- **Reading.** `readSource`, `targetFolder`.
- **Texts.** `outputPath`, `renderAll`.
- **Writing.** `writeAll`, `Conversion`, `convert`.
-/

namespace HttpFile

open Text Files Source

/-! ## Failures -/

/-- Why a source is not converted. -/
inductive ConvertError where
  | source (e : SourceError)
  | format (e : FormatError)
  | file (e : FileError)
  /-- A text to be written has halves of characters. -/
  | halves
deriving DecidableEq, Repr

/-! ## Reading -/

/-- The documents of the source at a path. -/
def readSource (room : Nat) (tree : Tree) (path : Path) : Format → Work (List NamedDocument)
  | .openApi => OpenApi.read room tree path
  | .postman => (Postman.read tree path).map fun d => [d]
  | .bruno => Bruno.documents tree path

/-- The folder that the files of a source are written to: the given one, or the one that holds the
    source. -/
def targetFolder (tree : Tree) (source : Path) : Option Path → Work Path
  | some output => return output
  | none => do
    if ← tree.isFolder source then return .ofLocation (← tree.resolve source).dropLast
    else return source.parent

/-- The folder to write to and the documents of a source, of a given format or one that is told from
    the source. -/
def readForConversion (room : Nat) (tree : Tree) (source : Path) (format : Option Format)
    (output : Option Path) : Work (Path × List NamedDocument) := do
  let format ← match format with
    | some f => pure f
    | none => detect room tree source
  Logged.note .info ("Converting " ++ source.text ++ " as " ++ format.name)
  let documents ← readSource room tree source format
  return (← targetFolder tree source output, documents)

/-! ## Texts -/

/-- The file that a document is written to. -/
def outputPath (folder : Path) (name : Text) : Path := folder.join (.ofText (name ++ ".http"))

/-- The files of several documents with their texts. -/
def renderAll (folder : Path) : List NamedDocument → Except FormatError (List (Path × Wide))
  | [] => .ok []
  | d :: rest => do
    let w ← d.document.render true
    return (outputPath folder d.name, w) :: (← renderAll folder rest)

/-! ## Writing -/

/-- Write files one after the other. What was written stays if a later file is not written. -/
def writeAll : Tree → List (Path × Wide) → Tree × Except WriteError Unit
  | tree, [] => (tree, .ok ())
  | tree, (path, w) :: rest =>
    match tree.writeWide path w with
    | (tree, .error e) => (tree, .error e)
    | (tree, .ok ()) => writeAll tree rest

/-- Why a conversion fails if a file is not written. -/
def ConvertError.ofWrite : WriteError → ConvertError
  | .file e => .file e
  | .halves => .halves

/-- What a conversion leaves: the tree, its notes, and the files written or why it failed. -/
structure Conversion where
  tree : Tree
  notes : List Note
  result : Except ConvertError (List Path)

/-- Convert the source at a path. -/
def convert (room : Nat) (tree : Tree) (source : Path) (format : Option Format)
    (output : Option Path) : Conversion :=
  match (readForConversion room tree source format output).outcome with
  | (.error e, notes) => ⟨tree, notes, .error (.source e)⟩
  | (.ok (folder, documents), notes) =>
    match tree.makeFolderPath folder with
    | (tree, some e) => ⟨tree, notes, .error (.file e)⟩
    | (tree, none) =>
      match renderAll folder documents with
      | .error e => ⟨tree, notes, .error (.format e)⟩
      | .ok outputs =>
        match writeAll tree outputs with
        | (tree, .error e) => ⟨tree, notes, .error (.ofWrite e)⟩
        | (tree, .ok ()) => ⟨tree, notes, .ok (outputs.map (·.1))⟩

end HttpFile
