import HttpFile.Files.Tree
import HttpFile.Log
import HttpFile.Source.Detect

/-!
# `HttpFile.Command.Arguments` — the words of a command line

Options start with hyphens; they may take a value and stand anywhere among the other words. Two
hyphens alone end the options. Long options may have their value behind an equals sign; short ones
may be joined, and their value may follow directly.

## Contents
- **Options.** `OptionSpec`, `takeOptions`.
- **Programs.** `Start`, `readStart`: what stands in front of a subcommand.
- **Subcommands.** `Refusal`, `FileWords`, `ConvertWords`, `readFormat`, `readCheck`,
  `readConvert`, `readInit`.
-/

namespace HttpFile.Command

open Text Files Source

/-! ## Options -/

/-- An option: its long name, its letter if it has one, and whether it takes a value. -/
structure OptionSpec where
  long : Text
  letter : Option Char := none
  takesValue : Bool := false
deriving DecidableEq, Repr

/-- An option that was given, with its value if it takes one. -/
structure Given where
  option : Text
  value : Text := []
deriving DecidableEq, Repr

/-- The options that one word gives, and the option that takes its value from the next word. -/
structure WordOptions where
  given : List Given := []
  waiting : Option Text := none

/-- The options of a word with two hyphens, given what follows them. -/
def longOption (specs : List OptionSpec) (word : Text) : Option WordOptions := do
  let (name, value) := cutAt '=' word
  let spec ← specs.find? fun s => s.long == name
  match spec.takesValue, value with
  | true, some v => some { given := [⟨name, v⟩] }
  | true, none => some { waiting := some name }
  | false, none => some { given := [⟨name, []⟩] }
  | false, some _ => none

/-- The options of a word with one hyphen: letters, of which one that takes a value is the last. -/
def shortOptions (specs : List OptionSpec) : Text → Option WordOptions
  | [] => some {}
  | c :: rest => do
    let spec ← specs.find? fun s => s.letter == some c
    if spec.takesValue then
      if rest.isEmpty then some { waiting := some spec.long }
      else some { given := [⟨spec.long, rest⟩] }
    else
      let more ← shortOptions specs rest
      some { more with given := ⟨spec.long, []⟩ :: more.given }

/-- The options of a word, if it has any. -/
def wordOptions (specs : List OptionSpec) : Text → Option (Option WordOptions)
  | '-' :: '-' :: word => (longOption specs word).map some
  | '-' :: c :: word => (shortOptions specs (c :: word)).map some
  | _ => some none

/-- The options and the other words of a command line, given the option that waits for its value;
    nothing if an option is not known or lacks its value. Unless options may stand anywhere, the
    first other word ends them. -/
def optionsFrom (specs : List OptionSpec) (anywhere : Bool) :
    Option Text → List Text → Option (List Given × List Text)
  | none, [] => some ([], [])
  | some _, [] => none
  | some name, value :: rest =>
    (optionsFrom specs anywhere none rest).map fun (given, words) => (⟨name, value⟩ :: given, words)
  | none, word :: rest =>
    if word = ['-', '-'] then some ([], rest)
    else
      match wordOptions specs word with
      | none => none
      | some none =>
        if anywhere then
          (optionsFrom specs anywhere none rest).map fun (given, words) => (given, word :: words)
        else some ([], word :: rest)
      | some (some found) =>
        (optionsFrom specs anywhere found.waiting rest).map fun (given, words) =>
          (found.given ++ given, words)

/-- The options and the other words of a command line. -/
def takeOptions (specs : List OptionSpec) (anywhere : Bool) (words : List Text) :
    Option (List Given × List Text) :=
  optionsFrom specs anywhere none words

/-- The last value that an option was given. -/
def lastValue (given : List Given) (option : Text) : Option Text :=
  (given.reverse.find? fun g => g.option == option).map (·.value)

/-- Whether an option was given. -/
def isGiven (given : List Given) (option : Text) : Bool := given.any fun g => g.option == option

/-- The option that asks for help. -/
def helpOption : OptionSpec := ⟨"help", none, false⟩

/-! ## Programs -/

/-- What stands in front of a subcommand, the subcommand's name and the words behind it. -/
structure Start where
  threshold : Level
  subcommand : Text
  words : List Text

/-- What a command line asks for. -/
inductive Asked (α : Type) where
  | work (a : α)
  | help
  | version
  | usage
  /-- A word that should be a path holds the null character. -/
  | nullInWord

/-- The level with a name, whatever its case. -/
def level? (t : Text) : Option Level :=
  [Level.debug, .info, .warning, .error].find? fun l => sameIgnoringCase l.name t

/-- The subcommands. -/
def subcommands : List Text := ["format", "check", "convert", "init"]

/-- Read what stands in front of a subcommand, up to its name. -/
def readStart (words : List Text) : Asked Start :=
  let specs : List OptionSpec := [⟨"log-level", none, true⟩, ⟨"version", none, false⟩, helpOption]
  match takeOptions specs false words with
  | none => .usage
  | some (given, rest) =>
    if isGiven given "version" then .version
    else if isGiven given "help" then .help
    else
      match level? ((lastValue given "log-level").getD "WARNING"), rest with
      | some threshold, name :: rest =>
        if subcommands.contains name then .work ⟨threshold, name, rest⟩ else .usage
      | _, _ => .usage

/-! ## Subcommands -/

/-- Why a word is not taken: it does not fit, or it holds the null character. -/
inductive Refusal where
  | unfit
  | nullInWord
deriving DecidableEq, Repr

/-- A choice that has to be there. -/
def fitting {α : Type} : Option α → Except Refusal α
  | some a => .ok a
  | none => .error .unfit

/-- The words of a subcommand: its options and its other words. -/
def readWords {α : Type} (specs : List OptionSpec) (words : List Text)
    (read : List Given → List Text → Except Refusal α) : Asked α :=
  match takeOptions (helpOption :: specs) true words with
  | none => .usage
  | some (given, rest) =>
    if isGiven given "help" then .help
    else
      match read given rest with
      | .ok a => .work a
      | .error .unfit => .usage
      | .error .nullInWord => .nullInWord

/-- The path that a word names, if it leads to anything. -/
def existingPath (tree : Tree) (word : Text) : Except Refusal Path :=
  if word.contains '\x00' then .error .nullInWord
  else
    match tree.findWord word with
    | .entry _ _ => .ok (.ofText word)
    | _ => .error .unfit

/-- The path that a word names, unless it leads to a file. -/
def folderPath (tree : Tree) (word : Text) : Except Refusal Path :=
  if word.contains '\x00' then .error .nullInWord
  else
    match tree.findWord word with
    | .entry _ (.file _) => .error .unfit
    | _ => .ok (.ofText word)

/-- Whether bodies are reformatted: the last of two opposite options decides. -/
def wantsBody (given : List Given) : Bool :=
  ((given.reverse.find? fun g => g.option == "body".toList || g.option == "no-body".toList).map
    fun g => g.option == "body".toList).getD true

/-- What is to be checked or formatted, and how. -/
structure FileWords where
  paths : List Path
  body : Bool
  stdin : Bool
  verbose : Bool

/-- The options that checking and formatting share. -/
def fileOptions : List OptionSpec := [⟨"body", none, false⟩, ⟨"no-body", none, false⟩,
  ⟨"stdin", none, false⟩]

/-- Read the words of checking or formatting. -/
def readFileWords (tree : Tree) (specs : List OptionSpec) (words : List Text) :
    Asked FileWords :=
  readWords specs words fun given rest => do
    let paths ← rest.mapM (existingPath tree)
    return ⟨paths, wantsBody given, isGiven given "stdin", isGiven given "verbose"⟩

/-- Read the words of formatting. -/
def readFormat (tree : Tree) (words : List Text) : Asked FileWords :=
  readFileWords tree fileOptions words

/-- Read the words of checking. -/
def readCheck (tree : Tree) (words : List Text) : Asked FileWords :=
  readFileWords tree (⟨"verbose", some 'v', false⟩ :: fileOptions) words

/-- What is to be converted, and how. -/
structure ConvertWords where
  sources : List Path
  format : Option Format
  output : Option Path

/-- The format that a word asks for; one word leaves it to the source. -/
def formatChoice (word : Text) : Option (Option Format) :=
  if word = "auto".toList then some none else (Format.ofName? word).map some

/-- The options of conversion. -/
def convertOptions : List OptionSpec := [⟨"from", none, true⟩, ⟨"to", none, true⟩,
  ⟨"output", some 'o', true⟩]

/-- Take the value of an option of conversion. -/
def takeOption (tree : Tree) (words : ConvertWords) (g : Given) : Except Refusal ConvertWords :=
  if g.option = "from".toList then do
    return { words with format := ← fitting (formatChoice g.value) }
  else if g.option = "output".toList then do
    return { words with output := some (← folderPath tree g.value) }
  else if g.value = "http".toList then .ok words
  else .error .unfit

/-- The options that were given, each once, in the order in which they first came and with their
    last values. -/
def settled (given : List Given) : List Given :=
  (given.map (·.option)).eraseDups.filterMap fun option =>
    (lastValue given option).map fun value => ⟨option, value⟩

/-- Read the words of conversion: the options, then the sources, of which there is at least one. -/
def readConvert (tree : Tree) (words : List Text) : Asked ConvertWords :=
  readWords convertOptions words fun given rest => do
    let words ← (settled given).foldlM (takeOption tree) ⟨[], none, none⟩
    let sources ← rest.mapM (existingPath tree)
    if sources.isEmpty then .error .unfit else .ok { words with sources := sources }

/-- Read the words of initialisation, of which there are none. -/
def readInit (words : List Text) : Asked Unit :=
  readWords [] words fun _ rest => if rest.isEmpty then .ok () else .error .unfit

end HttpFile.Command
