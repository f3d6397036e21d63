import HttpFile.Document.Basic
import HttpFile.Syntax.Tree
import HttpFile.Url

/-!
# `HttpFile.Document.Extract` — from a syntax tree to a document

The variables of all sections are collected in order. Each section becomes a block, unless the block
would be empty. What a request line leaves out is filled in from the defaults.

## Contents
- **Defaults.** `Defaults`.
- **Scripts.** `unwrapScript`.
- **Extraction.** `Document.ofTree`, section by section.
- **Reading a file.** `Document.parse`, failing with a located `ParseFailure`.
-/

namespace HttpFile

open Syntax Text

/-- What a request line without a method or a version means. -/
structure Defaults where
  method : Text := defaultMethod
  version : Text := defaultVersion
deriving DecidableEq, Repr

/-- The text of a token without the blanks around it. -/
def Syntax.Token.content (t : Token) : Text := strip t.lexeme

/-- The code inside the marks of an inline script, without the indentation its lines share. -/
def unwrapScript (script : Text) : Text :=
  let outer := strip script
  let opened := if "\x7b%".toList.isPrefixOf outer then outer.drop 2 else outer
  let inner := if endsWith opened "%\x7d" then opened.dropLast.dropLast else opened
  strip (dedent (trimWhere (· == '\n') inner))

/-- The script that a token holds or points to. -/
def Script.ofToken (source : Token) : Script :=
  match source.kind with
  | .script => .inline (unwrapScript source.lexeme)
  | _ => .file source.content

/-- What a token announces about the body it holds. -/
def BodyKind.ofTerminal? : Terminal → Option BodyKind
  | .jsonBody => some .json
  | .graphqlBody => some .graphql
  | .formBody => some .form
  | .xmlBody => some .xml
  | .externalBody => some .external
  | .rawBody => some .raw
  | _ => none

/-- The header on a line: its key and its value, trimmed. -/
def Header.ofLine (line : Text) : Header :=
  let (key, value) := cutAt ':' line
  ⟨strip key, strip (value.getD [])⟩

/-- The request of a node. -/
def Request.ofNode (defaults : Defaults) (n : RequestNode) : Request :=
  { method := (n.method.map (·.lexeme)).getD defaults.method
    url := Url.fold n.target.lexeme
    version := (n.tail.version.map (·.lexeme)).getD defaults.version
    headers := n.tail.headers.map fun t => Header.ofLine t.content
    body := n.tail.body.map (·.lexeme)
    bodyKind := n.tail.body.bind fun t => BodyKind.ofTerminal? t.kind }

/-- The scripts of the response handlers of a request. -/
def Syntax.RequestNode.handlers (n : RequestNode) : List Script :=
  n.tail.responses.filterMap fun
    | .handler source => some (Script.ofToken source)
    | .redirect _ => none

/-- The redirect of a request; of several the last one counts. -/
def Syntax.RequestNode.redirect? (n : RequestNode) : Option Text :=
  (n.tail.responses.filterMap fun
    | .redirect target => some target.content
    | .handler _ => none).getLast?

/-- The variables that a section declares. -/
def Syntax.Section.declarations (s : Section) : List Variable :=
  s.items.filterMap fun
    | .variable name value => some ⟨name.content, (value.map (·.content)).getD []⟩
    | _ => none

/-- The block of a section. -/
def Block.ofSection (defaults : Defaults) (separator : Option Token) (s : Section) : Block :=
  { separatorText := (separator.map (·.content)).filter (· ≠ [])
    comments := s.items.filterMap fun
      | .comment text => some text.content
      | _ => none
    metadata := s.items.filterMap fun
      | .metadata name value => some ⟨name.content, (value.map (·.content)).getD []⟩
      | _ => none
    request := s.request.map (Request.ofNode defaults)
    preRequestScripts := s.items.filterMap fun
      | .preRequest source => some (Script.ofToken source)
      | _ => none
    postRequestScripts := (s.request.map (·.handlers)).getD []
    responseRedirect := s.request.bind (·.redirect?) }

/-- The sections of a tree, the head first, each with the text of its separator. -/
def Syntax.Tree.allSections (t : Tree) : List (Option Token × Section) :=
  (t.head.map fun s => (none, s)).toList ++ t.sections

/-- The document of a tree. -/
def Document.ofTree (defaults : Defaults) (t : Tree) : Document :=
  { declarations := t.allSections.flatMap fun (_, s) => s.declarations
    blocks := (t.allSections.map fun (separator, s) => Block.ofSection defaults separator s).filter
      fun b => !b.isEmpty }

/-- A text that is no request file: where it came from and why it was refused. -/
structure ParseFailure where
  source : Text
  failure : Failure
deriving DecidableEq, Repr

/-- The failure with its source and position in front. -/
def ParseFailure.message (e : ParseFailure) : Text :=
  let p := e.failure.position
  e.source ++ ":" ++ ofNat p.line ++ ":" ++ ofNat p.column ++ ": " ++ e.failure.message

/-- Read a request file into a document. -/
def Document.parse (defaults : Defaults) (source t : Text) : Except ParseFailure Document :=
  match Syntax.parse t with
  | .ok tree => .ok (Document.ofTree defaults tree)
  | .error failure => .error ⟨source, failure⟩

end HttpFile
