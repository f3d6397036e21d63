import HttpFile.Files.Tree
import HttpFile.Log
import HttpFile.Text.Casing

/-!
# `HttpFile.Files.Walk` — collecting request files

A folder is searched from top to bottom, its entries in the order of their names. Links below the
starting point are not followed, and folders more than 64 levels deep are left out with a warning. A
file that is named directly counts whatever its extension.

## Contents
- **Extensions.** `requestExtensions`.
- **One starting point.** `findFiles`.
- **Several.** `collectFiles`, which leaves out a file that was found before under any name.
-/

namespace HttpFile.Files

open Text

/-- The extensions of request files. -/
def requestExtensions : List Text := [".http", ".rest"]

/-- The number of levels below the starting point that are searched. -/
def maxDepth : Nat := 64

/-- Whether a file's extension, in small letters, is among the given ones. -/
def hasExtension (extensions : List Text) (p : Path) : Bool :=
  (extensions.map lower).contains (lower p.extension)

/-- Work on files that makes notes. -/
abbrev FileWork := Logged FileError

/-- The files with an extension at a path and below, through the given number of levels of
    folders. -/
def filesBelow (t : Tree) (extensions : List Text) : Nat → Path → FileWork (List Path)
  | 0, p => do
    if ← Logged.ofExcept (t.isFolder p) then
      Logged.warn ("Skipping " ++ p.text ++ ": deeper than " ++ ofNat maxDepth ++ " levels")
      return []
    else return if hasExtension extensions p then [p] else []
  | levels + 1, p => do
    if ← Logged.ofExcept (t.isFolder p) then
      let names ← Logged.ofExcept (t.names p)
      let found ← names.mapM fun name => do
        let entry := p.child name
        if ← Logged.ofExcept (t.isLink entry) then return []
        else filesBelow t extensions levels entry
      return found.flatten
    else return if hasExtension extensions p then [p] else []

/-- The request files at a starting point: the file that it names, or the files below it. -/
def findFiles (t : Tree) (extensions : List Text) (root : Path) : FileWork (List Path) := do
  if ← Logged.ofExcept (t.isFile root) then return [root]
  else filesBelow t extensions (maxDepth + 1) root

/-- The files whose resolved location has not been seen, with the locations seen after them. -/
def unseen (t : Tree) : List Location → List Path → FileWork (List Path × List Location)
  | seen, [] => return ([], seen)
  | seen, p :: rest => do
    let location ← Logged.ofExcept (t.resolve p)
    if seen.contains location then unseen t seen rest
    else
      let (files, seen) ← unseen t (seen ++ [location]) rest
      return (p :: files, seen)

/-- Collect from the remaining starting points, given the locations seen so far. -/
def collectFrom (t : Tree) (extensions : List Text) :
    List Location → List Path → FileWork (List Path)
  | _, [] => return []
  | seen, p :: rest => do
    let found ← findFiles t extensions p
    let (files, seen) ← unseen t seen found
    let more ← collectFrom t extensions seen rest
    return files ++ more

/-- The request files at several starting points, each file once, in the order in which they are
    found. -/
def collectFiles (t : Tree) (extensions : List Text) (roots : List Path) : FileWork (List Path) :=
  collectFrom t extensions [] roots

end HttpFile.Files
