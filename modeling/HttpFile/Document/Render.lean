import HttpFile.Body.Format
import HttpFile.Document.Basic

/-!
# `HttpFile.Document.Render` — the canonical text of a document

Variables come first. Each block starts with its separator; then come comments, pre-request scripts,
metadata, the request, the scripts that run after it and the redirect of its response. A body in
canonical form may hold halves of characters, so the lines of a document are wide texts.

## Contents
- **Parts.** `headerKey`, `normalizeComment`, `Script.render`, `Header.render`.
- **Requests and blocks.** `Request.render`, `Block.render`, as lists of lines.
- **Documents.** `Document.render`: canonical text that ends in exactly one newline.
-/

namespace HttpFile

open Text

/-- The versions whose header keys have a capital at the start of each part. -/
def capitalVersions : List String := ["HTTP/1.0", "HTTP/1.1"]

/-- The versions whose header keys are written small. -/
def smallVersions : List String := ["HTTP/2", "HTTP/2.0", "HTTP/3", "HTTP/3.0"]

/-- The text with its first character in capitals. -/
def capitalized : Text → Text
  | [] => []
  | c :: rest => upper [c] ++ rest

/-- A header key in the case that a protocol version calls for. -/
def headerKey (key version : Text) : Text :=
  if capitalVersions.any fun v => v.toList = version then
    ['-'].intercalate ((fieldsAt '-' key).map capitalized)
  else if smallVersions.any fun v => v.toList = version then lower key
  else key

/-- A comment behind a number sign, whichever mark it had. -/
def normalizeComment (comment : Text) : Text :=
  match strip comment with
  | '/' :: '/' :: rest => '#' :: rest
  | other => other

/-- A script as it stands behind its mark. -/
def Script.render : Script → Text
  | .file path => strip path
  | .inline code => ['{', '%', '\n'] ++ indent "  " (trimWhere (· == '\n') code) ++ ['\n', '%', '}']

/-- The line of a header. -/
def Header.render (h : Header) (version : Text) : Text :=
  stripRight (headerKey h.key version ++ ": " ++ h.value)

/-- The line of a variable. -/
def Variable.render (v : Variable) : Text := stripRight ("@" ++ v.key ++ " = " ++ v.value)

/-- The line of a fact. -/
def Metadata.render (m : Metadata) : Text := stripRight ("# @" ++ m.key ++ " " ++ m.value)

/-- The body of a request as it is written: in canonical form, or only trimmed. -/
def Request.bodyText (r : Request) (reformat : Bool) : Except FormatError Wide :=
  if reformat then formatBody r else .ok (letters (strip (r.body.getD [])))

/-- The lines of a request. -/
def Request.render (r : Request) (reformat : Bool) : Except FormatError (List Wide) := do
  let head := (r.method ++ " " ++ r.url ++ " " ++ r.version) ::
    r.headers.map fun h => h.render r.version
  let body ← r.bodyText reformat
  return if body.isEmpty then head.map letters else head.map letters ++ [[], body]

/-- The lines of a block. -/
def Block.render (b : Block) (reformat : Bool) : Except FormatError (List Wide) := do
  let separator : Text := match b.separatorText with
    | none | some [] => "###"
    | some text => "### " ++ text
  let request ← match b.request with
    | some r => r.render reformat
    | none => pure []
  let redirect : List Text := match b.responseRedirect with
    | none | some [] => []
    | some target => [[], strip target]
  let before : List Text := [separator, []] ++
    b.comments.map normalizeComment ++
    b.preRequestScripts.map (fun s => ['<', ' '] ++ s.render) ++
    b.metadata.map Metadata.render
  let behind : List Text :=
    b.postRequestScripts.flatMap (fun s => [[], ['>', ' '] ++ s.render]) ++ redirect
  return before.map letters ++ request ++ behind.map letters

/-- The lines of the blocks, each followed by an empty one. -/
def renderBlocks (reformat : Bool) : List Block → Except FormatError (List Wide)
  | [] => .ok []
  | b :: rest => do
    let here ← b.render reformat
    let more ← renderBlocks reformat rest
    return here ++ [] :: more

/-- The canonical text of a document. -/
def Document.render (d : Document) (reformat : Bool) : Except FormatError Wide := do
  let declared := d.declarations.map Variable.render
  let blocks ← renderBlocks reformat d.blocks
  let all := (if declared.isEmpty then [] else declared ++ [[]]).map letters ++ blocks
  return stripWide ((letters ['\n']).intercalate all) ++ letters ['\n']

end HttpFile
