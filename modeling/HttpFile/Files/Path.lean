import HttpFile.Text.Basic

/-!
# `HttpFile.Files.Path` — names of files

A path starts somewhere and has parts. Empty parts and single dots mean nothing and are left out;
two dots are kept, because what they mean depends on links.

## Contents
- **The type.** `Anchor`, `Path`, `Path.ofText`, `Path.ofLocation`, `Path.text`.
- **Joining.** `Path.join`, `Path.child`, `Path.parent`.
- **The last part.** `name`, `extension`, `stem`.
- **Below a folder.** `relativeTo`.
-/

namespace HttpFile.Files

open Text

/-- Where a path starts: at the folder at hand, at the root, or at the root by its other name, which
    has two slashes. -/
inductive Anchor where
  | here
  | root
  | doubleRoot
deriving DecidableEq, Repr

/-- The start of a path as it is written. -/
def Anchor.text : Anchor → Text
  | .here => []
  | .root => ['/']
  | .doubleRoot => ['/', '/']

/-- Where the path that a text names starts. More than two slashes are as good as one. -/
def Anchor.ofText (t : Text) : Anchor :=
  match (t.takeWhile (· == '/')).length with
  | 0 => .here
  | 2 => .doubleRoot
  | _ => .root

/-- The name of a file or folder. -/
structure Path where
  anchor : Anchor
  parts : List Text
deriving DecidableEq, Repr

namespace Path

/-- The parts of a path's text that mean something. -/
def partsOf (t : Text) : List Text :=
  (fieldsAt '/' t).filter fun part => part ≠ [] && part ≠ ['.']

/-- The path that a text names. -/
def ofText (t : Text) : Path := ⟨.ofText t, partsOf t⟩

/-- The path with the given parts from the root on. -/
def ofLocation (parts : List Text) : Path := ⟨.root, parts⟩

/-- The folder at hand. -/
def here : Path := ⟨.here, []⟩

/-- Whether a path starts at the root. -/
def absolute (p : Path) : Bool := p.anchor != .here

/-- A path as text; the folder at hand is a dot. -/
def text (p : Path) : Text :=
  if p = here then ['.'] else p.anchor.text ++ ['/'].intercalate p.parts

/-- A path seen from a folder; an absolute one does not depend on it. -/
def join (folder p : Path) : Path :=
  if p.absolute then p else ⟨folder.anchor, folder.parts ++ p.parts⟩

/-- An entry of a folder. -/
def child (folder : Path) (name : Text) : Path := ⟨folder.anchor, folder.parts ++ [name]⟩

/-- The path without its last part. -/
def parent (p : Path) : Path := ⟨p.anchor, p.parts.dropLast⟩

/-- The last part, empty if there is none. -/
def name (p : Path) : Text := p.parts.getLast?.getD []

/-- A name up to its last dot and from there on; a dot at either end of the name does not count. -/
def splitExtension (name : Text) : Text × Text :=
  let tail := name.reverse.takeWhile (· ≠ '.')
  let stem := name.take (name.length - tail.length - 1)
  if tail.isEmpty || stem.isEmpty || tail.length = name.length then (name, [])
  else (stem, '.' :: tail.reverse)

/-- The last part from its last dot on. -/
def extension (p : Path) : Text := (splitExtension p.name).2

/-- The last part up to its last dot. -/
def stem (p : Path) : Text := (splitExtension p.name).1

/-- The path without the extension of its last part. -/
def withoutExtension (p : Path) : Path :=
  if p.parts.isEmpty then p else ⟨p.anchor, p.parts.dropLast ++ [p.stem]⟩

/-- The parts of a path below a folder that it starts with. -/
def relativeTo (p folder : Path) : Path := ⟨.here, p.parts.drop folder.parts.length⟩

end Path

end HttpFile.Files
