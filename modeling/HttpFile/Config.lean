import HttpFile.Document.Extract
import HttpFile.Files.Tree
import HttpFile.Log
import HttpFile.Value.Display
import HttpFile.Yaml.Load

/-!
# `HttpFile.Config` — the configuration

A configuration file says which method and which protocol version a request has that names none.
What it does not say keeps its default, and no file at all is the same as an empty one.

## Contents
- **Failures.** `FieldProblem`, `InvalidField`, `ConfigError` and its `message`, `ConfigFailure`.
- **Validation.** `validate`.
- **Loading.** `loadConfig`.
- **Writing.** `defaultConfigText`, `writeDefaultConfig`.
-/

namespace HttpFile

open Text Files

/-- The name of the configuration file. -/
def configFile : Text := "http-fmt.yaml"

/-! ## Failures -/

/-- What is wrong with a field. -/
inductive FieldProblem where
  | notAMapping
  | notText
  | notEncodable
deriving DecidableEq, Repr

/-- What is said about a field. -/
def FieldProblem.message : FieldProblem → Text
  | .notAMapping => "Input should be a mapping"
  | .notText => "Input should be a text"
  | .notEncodable => "Input should be a text that can be encoded"

/-- A field and what is wrong with it. -/
structure InvalidField where
  location : List Text
  problem : FieldProblem
deriving DecidableEq, Repr

/-- The lines about a field. -/
def InvalidField.message (f : InvalidField) : Text :=
  ['.'].intercalate f.location ++ ['\n', ' ', ' '] ++ f.problem.message

/-- Why a configuration file is no configuration. -/
inductive ConfigError where
  | unreadable (e : FileError)
  | notYaml (e : Yaml.Failure)
  | notAMapping
  | invalid (fields : List InvalidField)
deriving DecidableEq, Repr

/-- What is said about a configuration file. -/
def ConfigError.message (path : Path) (e : ConfigError) : Text :=
  path.text ++ ": " ++
    match e with
    | .unreadable e => "cannot read config: ".toList ++ e.message
    | .notYaml e => "invalid YAML: ".toList ++ e.message
    | .notAMapping => "expected a mapping at the top level".toList
    | .invalid fields =>
      let errors : Text := if fields.length = 1 then " validation error" else " validation errors"
      let head := ofNat fields.length ++ errors ++ " for Config"
      joinLines (head :: fields.map InvalidField.message)

/-- Why loading a configuration fails: the file is no configuration, or it fails before that can be
    told. -/
inductive ConfigFailure where
  | config (path : Path) (e : ConfigError)
  | file (e : FileError)
  | decode (e : Utf8.DecodeError)
  | yaml (e : Yaml.Failure)
deriving DecidableEq, Repr

/-! ## Validation -/

/-- A field that should be a text, with a default. -/
def textField (section_ key default : Text) (entries : List (Value × Value)) :
    Except InvalidField Text :=
  match Value.lookup entries key with
  | none => .ok default
  | some (.str t) => .ok t
  | some (.halves w) => .ok (Wide.readable w)
  | some (.bytes bs) =>
    match Utf8.decode bs with
    | .ok t => .ok t
    | .error _ => .error ⟨[section_, key], .notEncodable⟩
  | some _ => .error ⟨[section_, key], .notText⟩

/-- The defaults that a mapping sets. -/
def validateDefaults (entries : List (Value × Value)) : Except (List InvalidField) Defaults :=
  let method := textField "defaults" "http_method" defaultMethod entries
  let version := textField "defaults" "http_version" defaultVersion entries
  match method, version with
  | .ok method, .ok version => .ok ⟨method, version⟩
  | .error e, .ok _ => .error [e]
  | .ok _, .error f => .error [f]
  | .error e, .error f => .error [e, f]

/-- The configuration that a mapping holds; what it holds beyond that does not count. -/
def validate (entries : List (Value × Value)) : Except (List InvalidField) Defaults :=
  match (Value.lookup entries "defaults").map Value.opened with
  | none => .ok {}
  | some (.dict inner) => validateDefaults inner
  | some _ => .error [⟨["defaults"], .notAMapping⟩]

/-- The configuration that plain data hold. -/
def configOf (v : Value) : Except ConfigError Defaults :=
  match v.opened with
  | .null => .ok {}
  | .dict entries => (validate entries).mapError .invalid
  | _ => .error .notAMapping

/-! ## Loading -/

/-- The configuration in the file at a path, with room for so many collections inside each other. -/
def readConfig (room : Nat) (tree : Tree) (path : Path) : Except ConfigFailure Defaults :=
  match tree.readText path with
  | .error (.file .nullInPath) => .error (.file .nullInPath)
  | .error (.file e) => .error (.config path (.unreadable e))
  | .error (.decode e) => .error (.decode e)
  | .ok text =>
    match Yaml.load room text with
    | .error .malformed => .error (.config path (.notYaml .malformed))
    | .error f => .error (.yaml f)
    | .ok v => (configOf v).mapError (.config path)

/-- The configuration in the file at a path, or the default one if there is no file. -/
def loadConfig (room : Nat) (tree : Tree) (path : Path) : Logged ConfigFailure Defaults := do
  match tree.isThere path with
  | .error e => throw (.file e)
  | .ok false =>
    Logged.note .debug ("No config file at " ++ path.text ++ ", using defaults")
    return {}
  | .ok true => Logged.ofExcept (readConfig room tree path)

/-- The path of the configuration file in the folder at hand. -/
def configPath (tree : Tree) : Path := .ofLocation (tree.current ++ [configFile])

/-! ## Writing -/

/-- The text of the default configuration, with a word about each field. -/
def defaultConfigText : Text :=
  joinLines [
    "# http-fmt configuration",
    "#",
    "# defaults.http_method   method used for request lines without one",
    "# defaults.http_version  HTTP version used for request lines without one",
    "defaults:",
    "  http_method: " ++ defaultMethod,
    "  http_version: " ++ defaultVersion,
    []]

/-- Write the default configuration to a file. -/
def writeDefaultConfig (tree : Tree) (path : Path) : Except FileError Tree :=
  tree.writeText path defaultConfigText

end HttpFile
