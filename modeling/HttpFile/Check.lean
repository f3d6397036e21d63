import HttpFile.Canonical
import HttpFile.Files.Walk

/-!
# `HttpFile.Check` — checking and formatting files

A file is checked by comparing its text with the canonical one, and formatted by writing the
canonical text in its place. A file that cannot be read or parsed is reported and the work goes on;
a body that is not what it should be ends the work, and so does a canonical text with halves of
characters, which empties the file that it should be written to.

## Contents
- **Results.** `Status`, `FileResult`.
- **Settings.** `Settings`.
- **One file.** `checkFile`, `formatFile`.
- **Several files.** `checkAll`, `formatAll`: the results up to the first fatal failure.
-/

namespace HttpFile

open Text Files

/-! ## Results -/

/-- How a file stands. -/
inductive Status where
  | valid
  | invalid
  | formatted
  | error
deriving DecidableEq, Repr

/-- The outcome for one file. -/
structure FileResult where
  path : Path
  status : Status
  current : Text := []
  canonical : Wide := []
  error : Option Text := none
deriving DecidableEq, Repr

/-- Whether a file counts against the whole. -/
def FileResult.failed (r : FileResult) : Bool := r.status == .invalid || r.status == .error

/-! ## Settings -/

/-- How files are brought into canonical form. -/
structure Settings where
  defaults : Defaults := {}
  reformatBody : Bool := true
deriving DecidableEq, Repr

/-! ## One file -/

/-- Work on files that a body may end. -/
abbrev BodyWork := Logged FormatError

/-- The outcome for the text of a file. -/
def checkText (settings : Settings) (path : Path) (current : Text) : BodyWork FileResult := do
  match canonicalize settings.defaults settings.reformatBody path.text current with
  | .ok canonical =>
    let status := if current = canonical then Status.valid else Status.invalid
    return { path := path, status := status, current := current, canonical := letters canonical }
  | .error (.halves w) =>
    return { path := path, status := .invalid, current := current, canonical := w }
  | .error (.parse e) =>
    Logged.note .debug ("Parse failure in " ++ path.text ++ ": " ++ e.message)
    return { path := path, status := .error, current := current, error := some e.message }
  | .error (.format e) => throw e

/-- Check a file. -/
def checkFile (tree : Tree) (settings : Settings) (path : Path) : BodyWork FileResult :=
  match tree.readText path with
  | .error e => return { path := path, status := .error, error := some e.message }
  | .ok current => checkText settings path current

/-- Format a file that has been checked. There is no outcome if its canonical text has halves. -/
def settle (tree : Tree) (r : FileResult) : Tree × Option FileResult :=
  match r.status with
  | .invalid =>
    match tree.writeWide r.path r.canonical with
    | (tree, .ok ()) => (tree, some { r with status := .formatted })
    | (tree, .error (.file e)) => (tree, some { r with status := .error, error := some e.message })
    | (tree, .error .halves) => (tree, none)
  | _ => (tree, some r)

/-- Check a file and write its canonical text if it has another. -/
def formatFile (tree : Tree) (settings : Settings) (path : Path) :
    BodyWork (Tree × Option FileResult) :=
  (checkFile tree settings path).map (settle tree)

/-! ## Several files -/

/-- What ends the work on files. -/
inductive Fatal where
  /-- A body that is not what it should be. -/
  | body (e : FormatError)
  /-- A canonical text with halves of characters, to be written to a file. -/
  | halves
deriving DecidableEq, Repr

/-- The outcomes for several files, each with the notes made for it, the failure that ended the work
    if one did, with its notes, and the tree at the end. -/
structure Run where
  results : List (List Note × FileResult) := []
  failure : Option (List Note × Fatal) := none
  tree : Tree

/-- A run with one more outcome in front. -/
def Run.cons (notes : List Note) (r : FileResult) (run : Run) : Run :=
  { run with results := (notes, r) :: run.results }

/-- Check files one after the other. -/
def checkAll (tree : Tree) (settings : Settings) : List Path → Run
  | [] => { tree := tree }
  | path :: rest =>
    match (checkFile tree settings path).outcome with
    | (.ok r, notes) => (checkAll tree settings rest).cons notes r
    | (.error e, notes) => { failure := some (notes, .body e), tree := tree }

/-- Format files one after the other. -/
def formatAll (settings : Settings) : Tree → List Path → Run
  | tree, [] => { tree := tree }
  | tree, path :: rest =>
    match (formatFile tree settings path).outcome with
    | (.ok (tree, some r), notes) => (formatAll settings tree rest).cons notes r
    | (.ok (tree, none), notes) => { failure := some (notes, .halves), tree := tree }
    | (.error e, notes) => { failure := some (notes, .body e), tree := tree }

/-- Whether files are only looked at, or written. -/
inductive Mode where
  | check
  | format
deriving DecidableEq, Repr

/-- Check or format the request files at several starting points. -/
def processFiles (mode : Mode) (tree : Tree) (settings : Settings) (roots : List Path) :
    FileWork Run :=
  (collectFiles tree requestExtensions roots).map fun files =>
    match mode with
    | .check => checkAll tree settings files
    | .format => formatAll settings tree files

end HttpFile
