import HttpFile.Files.Path
import HttpFile.Text.Lines
import HttpFile.Text.Quoted
import HttpFile.Text.Surrogate
import HttpFile.Text.Utf8

/-!
# `HttpFile.Files.Tree` — a tree of files as a value

The program works on a value that holds all files, folders and links by their location, and on the
location it works in. Every operation gives a new tree, so what it leaves alone can be read off.

## Contents
- **The type.** `Location`, `Entry`, `Tree`.
- **Failures.** `Cause`, `FileError` and its `message`.
- **Finding.** `Tree.find` and `Tree.findWord`: what a path or a word leads to, following links.
- **Asking.** `isThere`, `isFile`, `isFolder`, `isLink`, `names`.
- **Reading and writing.** `readBytes`, `writeBytes`, `writeText`, `makeFolder`, `remove`.
- **Resolution.** `resolve`: a path with all its links followed.
- **Comparison.** `changes` between two trees.
- **Texts of files.** `ReadError`, `readText`; `WriteError`, `writeWide`.
-/

namespace HttpFile.Files

open Text

/-! ## The type -/

/-- The names from the root to a file. -/
abbrev Location := List Text

/-- What stands at a location. -/
inductive Entry where
  | file (bytes : List UInt8)
  | link (target : Text)
  | folder
deriving DecidableEq, Repr

/-- All entries by location, and the location of the folder at hand. The root is a folder without an
    entry. -/
structure Tree where
  entries : List (Location × Entry)
  current : Location
deriving DecidableEq, Repr

/-! ## Failures -/

/-- Why an operation on files is refused. -/
inductive Cause where
  | missing
  | alreadyThere
  | notAFolder
  | isAFolder
  | nameTooLong
  | tooManyLinks
deriving DecidableEq, Repr

/-- The number and words of a cause. -/
def Cause.message : Cause → Text
  | .missing => "[Errno 2] No such file or directory"
  | .alreadyThere => "[Errno 17] File exists"
  | .notAFolder => "[Errno 20] Not a directory"
  | .isAFolder => "[Errno 21] Is a directory"
  | .nameTooLong => "[Errno 36] File name too long"
  | .tooManyLinks => "[Errno 40] Too many levels of symbolic links"

/-- A failed operation. -/
inductive FileError where
  /-- The operation was refused. -/
  | refused (cause : Cause) (path : Path)
  /-- The path holds the null character, which no name has. -/
  | nullInPath
  /-- Following links led back to a link that was being followed. -/
  | linkLoop
deriving DecidableEq, Repr

/-- What is said about a failed operation. -/
def FileError.message : FileError → Text
  | .refused cause path => cause.message ++ ": " ++ quoted path.text
  | .nullInPath => "embedded null byte"
  | .linkLoop => "Symlink loop"

/-! ## Finding -/

/-- What a path leads to. -/
inductive Found where
  /-- An entry at a location. -/
  | entry (location : Location) (e : Entry)
  /-- A name that a folder does not hold. -/
  | absent (folder : Location) (name : Text)
  /-- Nothing, for a cause. -/
  | refused (cause : Cause)
deriving DecidableEq, Repr

namespace Tree

/-- The entry at a location. -/
def at? (t : Tree) (l : Location) : Option Entry :=
  if l.isEmpty then some .folder else t.entries.lookup l

/-- The greatest number of bytes of a name. -/
def maxNameBytes : Nat := 255

/-- The number of bytes that a path must stay below. -/
def pathBytesBound : Nat := 4096

/-- The greatest number of links that are followed for one path. -/
def maxLinks : Nat := 40

/-- Where following the parts of a path stops: at an end, or at a link with parts still to
    follow. -/
inductive Stop where
  | done (found : Found)
  | jump (folder : Location) (target : Text) (rest : List Text)

/-- The parts of a text that is followed as it stands. A slash at its end asks for a folder, as a
    dot behind it would. -/
def partsToFollow (t : Text) : List Text :=
  (fieldsAt '/' t).filter (· ≠ []) ++ if endsWith t ['/'] then [['.']] else []

/-- Follow the parts of a path from a folder up to its end or to the next link. -/
def advance (t : Tree) (followLast : Bool) : Location → List Text → Stop
  | folder, [] => .done (match t.at? folder with
    | some e => .entry folder e
    | none => .refused .missing)
  | folder, part :: rest =>
    if part = ['.'] then advance t followLast folder rest
    else if part = ['.', '.'] then advance t followLast folder.dropLast rest
    else if maxNameBytes < (Utf8.encode part).length then .done (.refused .nameTooLong)
    else
      match t.at? (folder ++ [part]) with
      | none => .done (if rest.isEmpty then .absent folder part else .refused .missing)
      | some .folder => advance t followLast (folder ++ [part]) rest
      | some (.file bytes) =>
        .done (if rest.isEmpty then .entry (folder ++ [part]) (.file bytes)
          else .refused .notAFolder)
      | some (.link target) =>
        if rest.isEmpty && !followLast then .done (.entry (folder ++ [part]) (.link target))
        else .jump folder target rest

/-- Follow the parts of a path from a folder, through at most so many links. -/
def follow (t : Tree) (followLast : Bool) : Nat → Location → List Text → Found
  | links, folder, parts =>
    match advance t followLast folder parts with
    | .done found => found
    | .jump folder target rest =>
      match links with
      | 0 => .refused .tooManyLinks
      | links + 1 =>
        let start := if ['/'].isPrefixOf target then [] else folder
        follow t followLast links start (partsToFollow target ++ rest)

/-- The folder that a path starts in. -/
def start (t : Tree) (p : Path) : Location := if p.absolute then [] else t.current

/-- Whether the text of a path is too long to be followed at all. -/
def isTooLong (text : Text) : Bool := pathBytesBound ≤ (Utf8.encode text).length

/-- What a path leads to. Unless the last link is to be followed, a path may lead to a link. -/
def find (t : Tree) (p : Path) (followLast : Bool) : Found :=
  if isTooLong p.text then .refused .nameTooLong
  else follow t followLast maxLinks (t.start p) p.parts

/-- What a word leads to, taken as it stands. -/
def findWord (t : Tree) (word : Text) : Found :=
  if word.isEmpty then .refused .missing
  else if isTooLong word then .refused .nameTooLong
  else follow t true maxLinks (t.start (.ofText word)) (partsToFollow word)

/-- Whether a path holds the null character. -/
def hasNull (p : Path) : Bool := p.parts.any (·.contains '\x00')

/-! ## Asking -/

/-- The entry that a path leads to, if any. A name that is too long is an error even for a
    question. -/
def ask (t : Tree) (p : Path) (followLast : Bool) : Except FileError (Option Entry) :=
  if hasNull p then .ok none
  else
    match t.find p followLast with
    | .entry _ e => .ok (some e)
    | .absent _ _ => .ok none
    | .refused .nameTooLong => .error (.refused .nameTooLong p)
    | .refused _ => .ok none

/-- Whether a path leads to anything. -/
def isThere (t : Tree) (p : Path) : Except FileError Bool := (t.ask p true).map (·.isSome)

/-- Whether a path leads to a file. -/
def isFile (t : Tree) (p : Path) : Except FileError Bool :=
  (t.ask p true).map fun
    | some (.file _) => true
    | _ => false

/-- Whether a path leads to a folder. -/
def isFolder (t : Tree) (p : Path) : Except FileError Bool :=
  (t.ask p true).map fun
    | some .folder => true
    | _ => false

/-- Whether a path names a link. -/
def isLink (t : Tree) (p : Path) : Except FileError Bool :=
  (t.ask p false).map fun
    | some (.link _) => true
    | _ => false

/-- The names that a folder holds, in order. -/
def namesAt (t : Tree) (folder : Location) : List Text :=
  let names := t.entries.filterMap fun (l, _) =>
    if l.dropLast = folder then l.getLast? else none
  names.mergeSort precedes

/-- The names that the folder at a path holds, in order. -/
def names (t : Tree) (p : Path) : Except FileError (List Text) :=
  match t.find p true with
  | .entry l .folder => .ok (t.namesAt l)
  | .entry _ _ => .error (.refused .notAFolder p)
  | .absent _ _ => .error (.refused .missing p)
  | .refused cause => .error (.refused cause p)

/-! ## Reading and writing -/

/-- The bytes of the file at a path. -/
def readBytes (t : Tree) (p : Path) : Except FileError (List UInt8) :=
  if hasNull p then .error .nullInPath
  else
    match t.find p true with
    | .entry _ (.file bytes) => .ok bytes
    | .entry _ _ => .error (.refused .isAFolder p)
    | .absent _ _ => .error (.refused .missing p)
    | .refused cause => .error (.refused cause p)

/-- Put an entry at a location, in the place of what stands there. -/
def put (t : Tree) (l : Location) (e : Entry) : Tree :=
  if (t.entries.lookup l).isSome then
    { t with entries := t.entries.map fun (k, old) => if k = l then (k, e) else (k, old) }
  else { t with entries := t.entries ++ [(l, e)] }

/-- Write bytes to the file at a path, which is made if its folder is there. -/
def writeBytes (t : Tree) (p : Path) (bytes : List UInt8) : Except FileError Tree :=
  if hasNull p then .error .nullInPath
  else
    match t.find p true with
    | .entry l (.file _) => .ok (t.put l (.file bytes))
    | .entry _ _ => .error (.refused .isAFolder p)
    | .absent folder name => .ok (t.put (folder ++ [name]) (.file bytes))
    | .refused cause => .error (.refused cause p)

/-- Write a text to the file at a path. -/
def writeText (t : Tree) (p : Path) (text : Text) : Except FileError Tree :=
  t.writeBytes p (Utf8.encode text)

/-- Make one folder. -/
def makeFolder (t : Tree) (p : Path) : Except FileError Tree :=
  if hasNull p then .error .nullInPath
  else
    match t.find p false with
    | .entry _ _ => .error (.refused .alreadyThere p)
    | .absent folder name => .ok (t.put (folder ++ [name]) .folder)
    | .refused cause => .error (.refused cause p)

/-- Make a folder unless it is there. -/
def makeFolderIfMissing (t : Tree) (p : Path) : Tree × Option FileError :=
  match t.makeFolder p with
  | .ok t' => (t', none)
  | .error e =>
    match t.isFolder p with
    | .ok true => (t, none)
    | _ => (t, some e)

/-- Make a folder and the folders above it, as far as they are missing; the number bounds how many.
    What was made stays if a later folder is refused. -/
def makeFolders : Nat → Tree → Path → Tree × Option FileError
  | 0, t, p => t.makeFolderIfMissing p
  | above + 1, t, p =>
    match t.makeFolder p with
    | .error (.refused .missing q) =>
      if p.parts.isEmpty then (t, some (.refused .missing q))
      else
        match makeFolders above t p.parent with
        | (t', none) => t'.makeFolderIfMissing p
        | (t', some e) => (t', some e)
    | .ok t' => (t', none)
    | .error _ => t.makeFolderIfMissing p

/-- Make a folder and the folders above it, as far as they are missing. -/
def makeFolderPath (t : Tree) (p : Path) : Tree × Option FileError :=
  makeFolders p.parts.length t p

/-- Remove a file or a link. -/
def remove (t : Tree) (p : Path) : Except FileError Tree :=
  match t.find p false with
  | .entry _ .folder => .error (.refused .isAFolder p)
  | .entry l _ => .ok { t with entries := t.entries.filter fun (k, _) => k ≠ l }
  | .absent _ _ => .error (.refused .missing p)
  | .refused cause => .error (.refused cause p)

/-! ## Resolution -/

/-- A location and the parts behind it, left as they are. Parts that start with a slash lead from
    the root. -/
def leaving (l : Location) (rest : List Text) : Location :=
  match rest with
  | [] :: _ :: _ => rest
  | _ => l ++ rest

/-- Follow the parts of a path from a folder; a part that is not there stays as it is. The first
    argument says where a link leads, and whether it leads anywhere: behind one that does not, the
    parts to come are left as they are. -/
def resolveParts (t : Tree) (enter : Location → Location → Text → Location × Bool) :
    Location → List Text → Location × Bool
  | folder, [] => (folder, true)
  | folder, part :: rest =>
    if part = [] || part = ['.'] then resolveParts t enter folder rest
    else if part = ['.', '.'] then resolveParts t enter folder.dropLast rest
    else
      match t.at? (folder ++ [part]) with
      | some (.link target) =>
        match enter folder (folder ++ [part]) target with
        | (l, true) => resolveParts t enter l rest
        | (l, false) => (leaving l rest, false)
      | _ => resolveParts t enter (folder ++ [part]) rest

/-- Follow the parts of a path and all links in them. A link that is being followed already leads
    nowhere; the number bounds how many are followed inside each other. -/
def resolveLinks (t : Tree) : Nat → List Location → Location → List Text → Location × Bool
  | 0, _ => resolveParts t fun _ link _ => (link, false)
  | bound + 1, following => resolveParts t fun folder link target =>
    if following.contains link then (link, false)
    else
      let start := if ['/'].isPrefixOf target then [] else folder
      resolveLinks t bound (link :: following) start (fieldsAt '/' target)

/-- A location with two dots as the way up, and without parts that mean nothing. -/
def withoutDots (l : Location) : Location :=
  l.foldl (fun above part =>
    if part = [] || part = ['.'] then above
    else if part = ['.', '.'] then above.dropLast
    else above ++ [part]) []

/-- The location that a path leads to with all links followed. Links in a circle are an error if the
    location still leads through them. -/
def resolve (t : Tree) (p : Path) : Except FileError Location :=
  if hasNull p then .error .nullInPath
  else
    match t.resolveLinks t.entries.length [] (t.start p) p.parts with
    | (l, true) => .ok l
    | (l, false) =>
      let l := withoutDots l
      if follow t true maxLinks [] l = .refused .tooManyLinks then .error .linkLoop else .ok l

/-! ## Comparison -/

/-- The locations whose entry differs between two trees, with the entry of the second. -/
def changes (old new : Tree) : List (Location × Option Entry) :=
  let gone := old.entries.filterMap fun (l, _) =>
    if (new.entries.lookup l).isNone then some (l, none) else none
  let changed := new.entries.filterMap fun (l, e) =>
    if old.entries.lookup l = some e then none else some (l, some e)
  gone ++ changed

end Tree

/-! ## Texts of files -/

/-- Why a file has no text: it cannot be read, or its bytes are no text. -/
inductive ReadError where
  | file (e : FileError)
  | decode (e : Utf8.DecodeError)
deriving DecidableEq, Repr

/-- What is said about a file without a text. -/
def ReadError.message : ReadError → Text
  | .file e => e.message
  | .decode e => e.message

/-- The text of the file at a path, its newlines unified. -/
def Tree.readText (t : Tree) (p : Path) : Except ReadError Text :=
  match t.readBytes p with
  | .error e => .error (.file e)
  | .ok bytes =>
    match Utf8.decode bytes with
    | .error e => .error (.decode e)
    | .ok text => .ok (unifyNewlines text)

/-- Why a wide text is not written: the file is refused, or the text has halves of characters. -/
inductive WriteError where
  | file (e : FileError)
  | halves
deriving DecidableEq, Repr

/-- The bytes that a wide text leaves in a file: none if it has halves of characters. -/
def encodedWide (w : Wide) : List UInt8 := ((Word.text? w).map Utf8.encode).getD []

/-- Write a wide text to the file at a path. The file is opened before the text is encoded, so a text
    that cannot be encoded empties it. -/
def Tree.writeWide (t : Tree) (p : Path) (w : Wide) : Tree × Except WriteError Unit :=
  match t.writeBytes p (encodedWide w) with
  | .error e => (t, .error (.file e))
  | .ok t => (t, if (Word.text? w).isSome then .ok () else .error .halves)

end HttpFile.Files
