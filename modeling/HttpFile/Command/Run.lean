import HttpFile.Command.Arguments
import HttpFile.Command.Reply

/-!
# `HttpFile.Command.Run` — running a command

A command works on a tree of files and the text on standard input, and gives a reply with the tree
that it leaves. The configuration is loaded before the words of a subcommand are looked at.

## Contents
- **Checking and formatting.** `processStdin`, `processPaths`.
- **Conversion.** `convertSources`.
- **Initialisation.** `confirm`, `initialise`.
- **Commands.** `run`.
-/

namespace HttpFile.Command

open Text Files

/-! ## Checking and formatting -/

/-- The name that standard input has in messages. -/
def stdinName : Text := "<stdin>"

/-- Report how the text on standard input stands. -/
def reportStdin (tree : Tree) (verbose : Bool) (text : Text) (status : Status) (canonical : Wide) :
    Reply :=
  let r : FileResult := ⟨.ofText stdinName, status, text, canonical, none⟩
  { lines := report verbose r, ending := .exit (if r.failed then 1 else 0), tree := tree }

/-- Check or format the text on standard input. A canonical text with halves of characters cannot be
    printed. -/
def processStdin (mode : Mode) (tree : Tree) (settings : Settings) (verbose : Bool)
    (text : Text) : Reply :=
  match canonicalize settings.defaults settings.reformatBody stdinName text with
  | .error (.parse e) =>
    { lines := [complain ("Error in file: " ++ e.message)], ending := .exit 1, tree := tree }
  | .error (.format e) => bodyFailure tree e
  | .error (.halves w) =>
    match mode with
    | .format => escaping tree .halves
    | .check => reportStdin tree verbose text .invalid w
  | .ok canonical =>
    match mode with
    | .format => { lines := [.out canonical], tree := tree }
    | .check =>
      let status := if text = canonical then Status.valid else Status.invalid
      reportStdin tree verbose text status (letters canonical)

/-- Whether an outcome makes a command fail. -/
def countsAgainst (mode : Mode) (r : FileResult) : Bool :=
  match mode with
  | .check => r.failed
  | .format => r.status == .error

/-- The reply to a run over files. -/
def runReply (mode : Mode) (verbose : Bool) (run : Run) : Reply :=
  let lines := run.results.flatMap fun (notes, r) => logged notes ++ report verbose r
  match run.failure with
  | some (notes, e) => (fatalFailure run.tree e).after (lines ++ logged notes)
  | none =>
    let failed := run.results.any fun (_, r) => countsAgainst mode r
    { lines := lines, ending := .exit (if failed then 1 else 0), tree := run.tree }

/-- Check or format the files at paths, or in the folder at hand if there are none. -/
def processPaths (mode : Mode) (tree : Tree) (settings : Settings) (verbose : Bool)
    (paths : List Path) : Reply :=
  let roots := if paths.isEmpty then [Path.here] else paths
  match (processFiles mode tree settings roots).outcome with
  | (.error e, notes) => (escaping tree (.file e)).after (logged notes)
  | (.ok run, notes) => (runReply mode verbose run).after (logged notes)

/-- Check or format. -/
def processWords (mode : Mode) (tree : Tree) (defaults : Defaults) (stdin : Text)
    (words : FileWords) : Reply :=
  let settings : Settings := ⟨defaults, words.body⟩
  if words.stdin then processStdin mode tree settings words.verbose stdin
  else processPaths mode tree settings words.verbose words.paths

/-! ## Conversion -/

/-- What is said about a failed conversion that does not end the command: a file was refused. -/
def refusal? : ConvertError → Option Text
  | .source (.unreadable (.file (.refused cause path))) | .file (.refused cause path) =>
    some (FileError.refused cause path).message
  | _ => none

/-- The reply to a failed conversion that ends the command. -/
def conversionFailure (tree : Tree) (e : ConvertError) : Reply :=
  match e with
  | .source (.schema e) => failing tree e.message schemaCode
  | .format e => bodyFailure tree e
  | e => escaping tree (.convert e)

/-- Convert sources one after the other. -/
def convertSources (room : Nat) (format : Option Source.Format) (output : Option Path) :
    Tree → Bool → List Path → Reply
  | tree, failed, [] => { ending := .exit (if failed then 1 else 0), tree := tree }
  | tree, failed, source :: rest =>
    let c := convert room tree source format output
    let lines := logged c.notes
    match c.result with
    | .ok outputs =>
      let said := outputs.map fun output =>
        say .greenLetters ("Converted file: " ++ source.text ++ " --> " ++ output.text)
      (convertSources room format output c.tree failed rest).after (lines ++ said)
    | .error e =>
      match refusal? e with
      | some message =>
        let said := complain ("Error in file: " ++ source.text ++ ": " ++ message)
        (convertSources room format output c.tree true rest).after (lines ++ [said])
      | none => (conversionFailure c.tree e).after lines

/-! ## Initialisation -/

/-- The question before a configuration is overwritten. -/
def question : Text := configFile ++ " already exists. Overwrite? [y/N]: "

/-- The answer that a line gives, if it gives one; an empty line is a no. -/
def answer? (line : Text) : Option Bool :=
  let word := strip (lower line)
  let isOneOf (words : List String) : Bool := words.any fun w => w.toList = word
  if isOneOf ["y", "yes"] then some true else if isOneOf ["n", "no", ""] then some false else none

/-- Ask until a line answers. The lines that are asked and answered, and the answer, nothing if the
    input ends before there is one. -/
def confirm : List Text → List Line × Option Bool
  | [] => ([.out question], none)
  | line :: rest =>
    let asked := [Line.out question, .typed (line ++ ['\n'])]
    match answer? line with
    | some b => (asked, some b)
    | none =>
      let (lines, result) := confirm rest
      (asked ++ .out "Error: invalid input\n" :: lines, result)

/-- The lines of standard input. -/
def inputLines (t : Text) : List Text :=
  let ls := fieldsAt '\n' t
  if ls.getLast? = some [] then ls.dropLast else ls

/-- Write the default configuration. -/
def writeConfig (tree : Tree) : Reply :=
  let path := Path.ofText configFile
  match writeDefaultConfig tree path with
  | .ok tree => { lines := [say .greenLetters ("Created " ++ configFile)], tree := tree }
  | .error e => escaping tree (.file e)

/-- Write the default configuration, asking first if there is one. -/
def initialise (tree : Tree) (stdin : Text) : Reply :=
  match tree.isThere (.ofText configFile) with
  | .error e => escaping tree (.file e)
  | .ok false => writeConfig tree
  | .ok true =>
    match confirm (inputLines stdin) with
    | (lines, some true) => (writeConfig tree).after lines
    | (lines, some false) =>
      { lines := lines ++ [.out "Aborted, configuration left untouched.\n"], tree := tree }
    | (lines, none) =>
      { lines := lines ++ [.err "Aborted!\n"], ending := .exit 1, tree := tree }

/-! ## Commands -/

/-- How the program is used. -/
def usageText : Text :=
  joinLines [
    "Usage: http-fmt [--log-level LEVEL] COMMAND",
    "",
    "  format [--body | --no-body] [--stdin] [PATH ...]",
    "  check [-v | --verbose] [--body | --no-body] [--stdin] [PATH ...]",
    "  convert [--from FORMAT] [--to http] [-o FOLDER | --output FOLDER] SOURCE ...",
    "  init",
    ""]

/-- The version of the program. -/
def versionText : Text := "http-fmt, version 0.1.0\n"

/-- The reply to what the words of a command line ask for. -/
def Asked.reply {α : Type} (tree : Tree) (work : α → Reply) : Asked α → Reply
  | .work a => work a
  | .help => { lines := [.out usageText], tree := tree }
  | .version => { lines := [.out versionText], tree := tree }
  | .usage => { ending := .usage, tree := tree }
  | .nullInWord => escaping tree (.file .nullInPath)

/-- The reply to a configuration that cannot be loaded. -/
def configFailure (tree : Tree) (e : ConfigFailure) : Reply :=
  match e with
  | .config path e => failing tree (e.message path) configCode
  | e => escaping tree (.config e)

/-- Run a subcommand with a configuration. -/
def runConfigured (room : Nat) (tree : Tree) (defaults : Defaults) (stdin : Text) (s : Start) : Reply :=
  if s.subcommand = "format".toList then
    (readFormat tree s.words).reply tree (processWords .format tree defaults stdin)
  else if s.subcommand = "check".toList then
    (readCheck tree s.words).reply tree (processWords .check tree defaults stdin)
  else
    (readConvert tree s.words).reply tree fun words =>
      convertSources room words.format words.output tree false words.sources

/-- Run a subcommand. -/
def runSubcommand (room : Nat) (tree : Tree) (stdin : Text) (s : Start) : Reply :=
  if s.subcommand = "init".toList then
    (readInit s.words).reply tree fun _ => initialise tree stdin
  else
    match (loadConfig room tree (configPath tree)).outcome with
    | (.error e, notes) => (configFailure tree e).after (logged notes)
    | (.ok defaults, notes) => (runConfigured room tree defaults stdin s).after (logged notes)

/-- The level from which on notes are shown. -/
def threshold (words : List Text) : Level :=
  match readStart words with
  | .work s => s.threshold
  | _ => .warning

/-- Run a command on a tree of files and the text on standard input, with room for so many YAML
    collections inside each other. -/
def run (room : Nat) (tree : Tree) (words : List Text) (stdin : Text) : Reply :=
  (readStart words).reply tree (runSubcommand room tree (unifyNewlines stdin))

end HttpFile.Command
