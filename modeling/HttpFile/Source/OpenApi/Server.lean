import HttpFile.Document.Basic
import HttpFile.Source.Failure

/-!
# `HttpFile.Source.OpenApi.Server` — the servers of a specification

A server has an address, which may be a template with variables, and a description. Each server gets
a document of its own, identified by its host.

## Contents
- **Servers.** `Server`, `Server.read`, `serverEntries`.
- **Identifiers.** `Server.identifier`, `freeIdentifier`.
- **Variables.** `doubleBraces`, `baseVariable`, `Server.declarations`.
-/

namespace HttpFile.Source.OpenApi

open Text

/-! ## Servers -/

/-- A server: its address, its variables with their default values, and its description. -/
structure Server where
  url : Text
  defaults : List (Value × Value)
  description : Value

/-- The variables of a server, each with its default, nothing if it has none. -/
def readDefaults : List (Value × Value) → Except Misfit (List (Value × Value))
  | [] => return []
  | (name, variable_) :: rest => do
    let default ← field (orEmpty variable_) "default"
    return (name, default) :: (← readDefaults rest)

/-- Read a server from its entry in a specification. -/
def Server.read (entry : Value) : Except Misfit Server := do
  match (← field entry "url").string? with
  | some url =>
    let defaults ← readDefaults (← fields (orEmpty (← field entry "variables")))
    return ⟨url, defaults, ← field entry "description"⟩
  | none => throw .wrongKind

/-- The entries of a specification that are servers: mappings with an address. -/
def serverEntries (spec : Value) : Except Misfit (List Value) := do
  let entries ← elementsIfAny (← field spec "servers")
  return entries.filter fun entry => ((entry.get? "url").map Value.isTruthy).getD false

/-! ## Identifiers -/

/-- An address without its scheme. -/
def withoutScheme : Text → Text
  | 'h' :: 't' :: 't' :: 'p' :: ':' :: '/' :: '/' :: rest => rest
  | 'h' :: 't' :: 't' :: 'p' :: 's' :: ':' :: '/' :: '/' :: rest => rest
  | url => url

/-- The text that stands for a variable in an identifier: its default, or its name in brackets. -/
def defaultOrName (name default : Value) : Text :=
  match default with
  | .null => "[" ++ name.text ++ "]"
  | v => v.text

/-- The host of a server, its variables filled in. -/
def Server.identifier (s : Server) : Text :=
  let filled := s.defaults.foldl (fun t (name, default) =>
    replaceAll (['{'] ++ name.text ++ ['}']) (defaultOrName name default) t) (withoutScheme s.url)
  (cutAt '/' (cutAt ':' filled).1).1

/-- The identifier of the server at a place, kept apart from those in use. -/
def freeIdentifier (used : List Text) (index : Nat) (s : Server) : Text :=
  let host := s.identifier
  let wanted := if host.isEmpty then "server".toList ++ ofNat index else host
  if used.contains wanted then wanted ++ "-" ++ ofNat index else wanted

/-! ## Variables -/

/-- Whether a character is a brace. -/
def isBrace (c : Char) : Bool := c == '{' || c == '}'

/-- The name between single braces, given the text behind the opening one. -/
def bracedName? (rest : Text) : Option Text :=
  let name := rest.takeWhile fun c => !isBrace c
  match rest.dropWhile fun c => !isBrace c with
  | '}' :: '}' :: _ => none
  | '}' :: _ => if name.isEmpty then none else some name
  | _ => none

/-- Double the single braces around names. The number counts the characters of a name that are still
    to be passed over, and `before` is the character in front. -/
def doubleBracesFrom : Nat → Char → Text → Text
  | _, _, [] => []
  | skip + 1, _, c :: rest => doubleBracesFrom skip c rest
  | 0, before, c :: rest =>
    match if c = '{' && before != '{' then bracedName? rest else none with
    | some name => ['{', '{'] ++ name ++ ['}', '}'] ++ doubleBracesFrom (name.length + 1) c rest
    | none => c :: doubleBracesFrom 0 c rest

/-- A template with double braces around its variables; those that are doubled stay. -/
def doubleBraces (t : Text) : Text := doubleBracesFrom 0 ' ' t

/-- The name of the variable that holds the address of the server at a place. -/
def baseVariable (index : Nat) : Text := "baseUrl" ++ ofNat index

/-- A server's variable as a declaration. -/
def declaration (name default : Value) : Except Misfit Variable := do
  let value ← match default with
    | .null => pure []
    | v => scalarText v
  return ⟨← asText name, value⟩

/-- The declarations of a server: its address, then its variables. -/
def Server.declarations (s : Server) (index : Nat) : Except Misfit (List Variable) := do
  let base : Variable := ⟨baseVariable index, doubleBraces (trimRightWhere (· == '/') s.url)⟩
  let declared ← s.defaults.mapM fun (name, default) => declaration name default
  return base :: declared

/-- The comments that a server adds to each block. -/
def Server.comments (s : Server) : List Text :=
  if s.description.isTruthy then commentLines ("Server: " ++ s.description.text) else []

end HttpFile.Source.OpenApi
