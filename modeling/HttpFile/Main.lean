import HttpFile.Command.Run

/-!
# `HttpFile.Main` — the program

The program takes a picture of the files that a command can reach, runs the command on it, and
writes back what has changed.

## Contents
- **Files.** `picture`, `pictureOf`, `writeBack`.
- **Dialogue.** `room`; `converse`: input is read line by line where a command asks for it.
- **The program.** `main`.
-/

namespace HttpFile

open Text Files

/-! ## Files -/

/-- Whether a command may read the contents of a file: the words name it, or its name tells. -/
def mayBeRead (words : List String) (path : Path) : Bool :=
  let name := path.name
  hasExtension (Source.Bruno.fileExtension :: requestExtensions) path ||
    name == configFile || name == Source.Bruno.descriptionFile ||
    words.any fun word => (Path.ofText word.toList).name == name

/-- A name seen from the folder at hand. -/
def located (name : String) := (· / name) <$> IO.currentDir

/-- The location of a name, seen from a folder, without following links. -/
def locationOf (folder : Location) (path : Path) : Location :=
  path.parts.foldl (fun l part => if part = ['.', '.'] then l.dropLast else l ++ [part])
    (if path.absolute then [] else folder)

/-- The location as the name of a file. -/
def locationName (l : Location) : String := String.ofList (Path.ofLocation l).text

/-- What stands at a location and below it. -/
partial def picture (words : List String) (l : Location) : IO (List (Location × Entry)) := do
  let file ← located (locationName l)
  match (← file.symlinkMetadata).type with
  | .dir =>
    let inner ← (← file.readDir).toList.mapM fun entry =>
      picture words (l ++ [entry.fileName.toList])
    return (l, .folder) :: inner.flatten
  | .file =>
    let bytes ← if mayBeRead words (.ofLocation l) then (·.toList) <$> IO.FS.readBinFile file
      else pure []
    return [(l, .file bytes)]
  | .symlink =>
    try
      let target ← IO.FS.realPath file
      return [(l, .link target.toString.toList)]
    catch _ => return []
  | .other => return []

/-- What stands at a location, nothing if it cannot be looked at. -/
def pictureOf (words : List String) (l : Location) : IO (List (Location × Entry)) := do
  try picture words l catch _ => return []

/-- The folders above a location. -/
def foldersAbove (l : Location) : List (Location × Entry) :=
  (List.range l.length).map fun n => (l.take (n + 1), .folder)

/-- The tree that a command can reach: the folder at hand and what the words name. -/
def treeFor (words : List String) : IO Tree := do
  let here := (Path.ofText (← IO.currentDir).toString.toList).parts
  let named := words.map fun word => locationOf here (.ofText word.toList)
  let outside := named.filter fun l => !here.isPrefixOf l
  let pictures ← (here :: outside).mapM (pictureOf words)
  let above := (here :: outside).flatMap fun l => foldersAbove l.dropLast
  return ⟨(above ++ pictures.flatten).eraseDups, here⟩

/-- Write the changes between two trees to the files. -/
def writeBack (old new : Tree) : IO Unit := do
  for (l, entry) in old.changes new do
    match entry with
    | some (.file bytes) => IO.FS.writeBinFile (locationName l) ⟨bytes.toArray⟩
    | some .folder => IO.FS.createDirAll (locationName l)
    | some (.link _) => pure ()
    | none => IO.FS.removeFile (locationName l)

/-! ## Dialogue -/

/-- How many YAML collections the program lets stand inside each other. -/
def room : Nat := 400

/-- Whether a command is the one that asks questions. -/
def asksQuestions (words : List Text) : Bool :=
  match Command.readStart words with
  | .work s => s.subcommand == "init".toList
  | _ => false

/-- Run a command that may ask for lines of input. What has been printed or typed is not printed
    again. -/
partial def converse (tree : Tree) (words : List Text) (colour : Bool) (input : Text)
    (printed : Nat) : IO Command.Reply := do
  let reply := Command.run room tree words input
  let out := reply.stdout colour
  IO.print (String.ofList (out.drop printed))
  (← IO.getStdout).flush
  if asksQuestions words && reply.ending == .exit 1 then
    let line := (← (← IO.getStdin).getLine).toList
    if line.isEmpty then return reply
    else converse tree words colour (input ++ line) (out.length + line.length)
  else return reply

/-! ## The program -/

/-- The code that a command ends with. -/
def exitCode : Command.Ending → Nat
  | .exit code => code
  | .usage => 2
  | .escaped _ => 1

/-- What is said at the end of a command that did not report how it ended. -/
def lastWord : Command.Ending → Text
  | .exit _ => []
  | .usage => Command.usageText
  | .escaped _ => "Error: unexpected failure\n"

end HttpFile

open HttpFile in
/-- Run the command that the words give. -/
def main (args : List String) : IO UInt32 := do
  let words := args.map String.toList
  let tree ← treeFor args
  let colour ← (← IO.getStdout).isTty
  let input ← if args.contains "--stdin" then
      (·.toList) <$> IO.FS.Stream.readToEnd (← IO.getStdin)
    else pure []
  let reply ← converse tree words colour input 0
  writeBack tree reply.tree
  IO.eprint (String.ofList (reply.stderr colour (Command.threshold words) ++ lastWord reply.ending))
  return (exitCode reply.ending).toUInt32
