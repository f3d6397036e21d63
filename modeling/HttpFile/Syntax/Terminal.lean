import HttpFile.Text.Basic
import HttpFile.Unicode.Word

/-!
# `HttpFile.Syntax.Terminal` — the words of a request file

A request file is read as a sequence of lexemes. This module says which texts each kind of lexeme
covers: `Terminal.lexeme? k t` is the lexeme of kind `k` at the start of `t`, if there is one. Every
text that is scanned ends with a newline.

## Contents
- **Kinds.** `Terminal`, with `all` in the order in which kinds are tried and `name` as it is shown.
- **Shapes.** One function per kind, gathered in `Terminal.lexeme?`.
- **Bodies.** `bodyLines`: a body runs up to a line that starts with `###` or `>`.
-/

namespace HttpFile.Syntax

open Unicode Text

/-- The kinds of lexemes. -/
inductive Terminal where
  | endOfLine
  | gap
  | separatorMark
  | separatorText
  | variableMark
  | assign
  | identifier
  | value
  | metadataMark
  | comment
  | preRequestMark
  | handlerMark
  | script
  | path
  | redirect
  | method
  | target
  | version
  | header
  | formBody
  | jsonBody
  | graphqlBody
  | xmlBody
  | externalBody
  | rawBody
deriving DecidableEq, Repr

namespace Terminal

/-- All kinds, in the order in which they are tried: of two kinds that cover the text at hand, the
    earlier one wins. -/
def all : List Terminal :=
  [.endOfLine, .formBody, .separatorMark, .graphqlBody, .xmlBody, .header, .externalBody, .jsonBody,
    .metadataMark, .redirect, .script, .method, .rawBody, .target, .comment, .identifier, .path,
    .value, .assign, .handlerMark, .separatorText, .preRequestMark, .gap, .version, .variableMark]

/-- The name by which a kind is shown in trees and messages. -/
def name : Terminal → String
  | .endOfLine => "_EOL"
  | .gap => "_WS"
  | .separatorMark => "_SEPARATOR"
  | .separatorText => "SEPARATOR_TEXT"
  | .variableMark => "_VARIABLE_MARK"
  | .assign => "_ASSIGN"
  | .identifier => "IDENTIFIER"
  | .value => "VALUE"
  | .metadataMark => "_METADATA_MARK"
  | .comment => "COMMENT"
  | .preRequestMark => "_PRE_REQUEST_MARK"
  | .handlerMark => "_RES_HANDLER_MARK"
  | .script => "SCRIPT"
  | .path => "PATH"
  | .redirect => "REDIRECT"
  | .method => "METHOD"
  | .target => "TARGET_URL"
  | .version => "HTTP_VERSION"
  | .header => "HEADER"
  | .formBody => "FORM_BODY"
  | .jsonBody => "JSON_BODY"
  | .graphqlBody => "GRAPHQL_BODY"
  | .xmlBody => "XML_BODY"
  | .externalBody => "EXTERNAL_BODY"
  | .rawBody => "RAW_BODY"

/-- Lexemes that only lay the text out; a tree does not show them. -/
def isLayout : Terminal → Bool
  | .endOfLine | .gap | .assign => true
  | _ => false

/-- The kinds of bodies. -/
def isBody : Terminal → Bool
  | .formBody | .jsonBody | .graphqlBody | .xmlBody | .externalBody | .rawBody => true
  | _ => false

end Terminal

/-! ## Character classes -/

/-- An ASCII letter. -/
def isLetter (c : Char) : Bool := c.isAlpha

/-- An ASCII digit. -/
def isDigit (c : Char) : Bool := c.isDigit

/-- A character that may start an identifier. -/
def isIdentifierStart (c : Char) : Bool := isLetter c || c == '_' || c == '$'

/-- A character that may stand in an identifier after its first one. -/
def isIdentifierRest (c : Char) : Bool := isWord c || c == '.' || c == '$' || c == '-'

/-- A character of a header's key. -/
def isHeaderKey (c : Char) : Bool :=
  isLetter c || isDigit c || "!$%&'*+.^_`|~-".toList.contains c

/-- A character of the first key of a form body. -/
def isFormKey (c : Char) : Bool := isLetter c || isDigit c || "_.%[]~-".toList.contains c

/-! ## Shapes of single lexemes -/

/-- The text up to the first newline. -/
def firstLine (t : Text) : Text := t.takeWhile (· ≠ '\n')

/-- The first line without its trailing blanks, if anything is left. -/
def trimmedLine? (t : Text) : Option Text :=
  match stripRight (firstLine t) with
  | [] => none
  | line => some line

/-- Spaces and tabs, and the newline after them. -/
def endOfLine? (t : Text) : Option Text :=
  match t.dropWhile isGap with
  | '\n' :: _ => some (t.takeWhile isGap ++ ['\n'])
  | _ => none

/-- At least one space or tab. -/
def gap? (t : Text) : Option Text :=
  match t.takeWhile isGap with
  | [] => none
  | blanks => some blanks

/-- The given text itself. -/
def literal? (word t : Text) : Option Text := if word.isPrefixOf t then some word else none

/-- A line that starts with a character that is not blank, without its trailing blanks. -/
def value? : Text → Option Text
  | [] => none
  | c :: rest => if isBlank c then none else some (stripRight (firstLine (c :: rest)))

/-- The equals sign of a declaration and the gaps around it. -/
def assign? (t : Text) : Option Text :=
  match t.dropWhile isGap with
  | '=' :: rest => some (t.takeWhile isGap ++ '=' :: rest.takeWhile isGap)
  | _ => none

/-- A name: a letter, underscore or dollar sign, then word characters, dots, dollars, hyphens. -/
def identifier? : Text → Option Text
  | [] => none
  | c :: rest =>
    if isIdentifierStart c then some (c :: rest.takeWhile isIdentifierRest) else none

/-- The mark that opens a comment and what follows it. -/
def commentMark? : Text → Option (Text × Text)
  | '#' :: rest => some (['#'], rest)
  | '/' :: '/' :: rest => some (['/', '/'], rest)
  | _ => none

/-- The mark of a metadata line, an at sign inside a comment right before a name. -/
def metadataMark? (t : Text) : Option Text :=
  match commentMark? t with
  | some (mark, rest) =>
    match rest.dropWhile isGap with
    | '@' :: c :: _ =>
      if isIdentifierStart c then some (mark ++ rest.takeWhile isGap ++ ['@']) else none
    | _ => none
  | none => none

/-- A whole line after `//`, or after a `#` that does not begin `###`. -/
def comment? (t : Text) : Option Text :=
  match commentMark? t with
  | some (mark, rest) =>
    if mark = ['#'] && "##".toList.isPrefixOf rest then none else some (firstLine t)
  | none => none

/-- The mark `<` of a pre-request script and the gap after it. -/
def preRequestMark? : Text → Option Text
  | '<' :: rest => some ('<' :: rest.takeWhile isGap)
  | _ => none

/-- The mark `>` of a response handler, not doubled, and the gap after it. -/
def handlerMark? : Text → Option Text
  | '>' :: '>' :: _ => none
  | '>' :: rest => some ('>' :: rest.takeWhile isGap)
  | _ => none

/-- The text up to and with the first closing mark of a script, if there is one. -/
def throughScriptEnd? : Text → Option Text
  | [] => none
  | '%' :: '}' :: _ => some "%\x7d"
  | c :: rest => (throughScriptEnd? rest).map (c :: ·)

/-- An inline script with its opening and closing marks, over any number of lines. -/
def script? : Text → Option Text
  | '{' :: '%' :: rest => (throughScriptEnd? rest).map fun code => '{' :: '%' :: code
  | _ => none

/-- A line that starts with `>>`, without its trailing blanks. -/
def redirect? (t : Text) : Option Text :=
  if ">>".toList.isPrefixOf t then trimmedLine? t else none

/-- The request methods a file may name. -/
def methods : List String :=
  ["GET", "POST", "PUT", "PATCH", "DELETE", "HEAD", "OPTIONS", "CONNECT", "TRACE", "GRAPHQL",
    "WEBSOCKET"]

/-- A request method with a gap after it. -/
def method? (t : Text) : Option Text :=
  (methods.map String.toList).find? fun m =>
    match m.isPrefixOf? t with
    | some (c :: _) => isGap c
    | _ => false

/-- Whether the text after a newline continues a target: a gap, then `?` or `&`. -/
def continuesTarget (t : Text) : Bool :=
  match t.takeWhile isGap, t.dropWhile isGap with
  | _ :: _, c :: _ => c == '?' || c == '&'
  | _, _ => false

/-- The target's characters: what is not blank, and the newline and gap before a continuation. The
    flag says whether such a gap is being read. -/
def targetTail (inGap : Bool) : Text → Text
  | [] => []
  | c :: rest =>
    if inGap && isGap c then c :: targetTail true rest
    else if !isBlank c then c :: targetTail false rest
    else if c = '\n' && continuesTarget rest then c :: targetTail true rest
    else []

/-- A request target: a word that opens no comment, declaration, script or response, with its query
    parameters possibly folded onto indented lines. -/
def target? : Text → Option Text
  | [] => none
  | '/' :: '/' :: _ => none
  | c :: rest =>
    if "#@<>".toList.contains c || isBlank c then none else some (c :: targetTail false rest)

/-- A protocol version: `HTTP/`, a digit, and possibly a dot and a digit. -/
def version? (t : Text) : Option Text :=
  match "HTTP/".toList.isPrefixOf? t with
  | some (major :: '.' :: minor :: _) =>
    if isDigit major && isDigit minor then some ("HTTP/" ++ [major, '.', minor])
    else if isDigit major then some ("HTTP/" ++ [major])
    else none
  | some (major :: _) => if isDigit major then some ("HTTP/" ++ [major]) else none
  | _ => none

/-- A header line: a key, possibly a gap, a colon, and the rest of the line. -/
def header? (t : Text) : Option Text :=
  match t.takeWhile isHeaderKey, (t.dropWhile isHeaderKey).dropWhile isGap with
  | _ :: _, ':' :: _ => some (firstLine t)
  | _, _ => none

/-! ## Bodies -/

/-- Whether a line opens what follows a body: a separator, a response handler or a redirect. -/
def endsBody (t : Text) : Bool := "###".toList.isPrefixOf t || ['>'].isPrefixOf t

/-- The text up to the first line that ends a body. The flag says whether a line starts here. -/
def bodyLines (atLineStart : Bool) : Text → Text
  | [] => []
  | c :: rest =>
    if atLineStart && endsBody (c :: rest) then [] else c :: bodyLines (c == '\n') rest

/-- A body whose first line passes a test. -/
def bodyIf (opens : Text → Bool) (t : Text) : Option Text :=
  if opens t then some (bodyLines false t) else none

/-- A key of form data and an equals sign. -/
def opensForm (t : Text) : Bool :=
  match t.takeWhile isFormKey, t.dropWhile isFormKey with
  | _ :: _, '=' :: _ => true
  | _, _ => false

/-- An opening bracket or brace. -/
def opensJson : Text → Bool
  | '[' :: _ | '{' :: _ => true
  | _ => false

/-- One of the words that open an operation or a fragment, as a whole word. -/
def opensGraphql (t : Text) : Bool :=
  ["query", "mutation", "subscription", "fragment"].any fun word =>
    match word.toList.isPrefixOf? t with
    | some (c :: _) => !isWord c
    | some [] => true
    | none => false

/-- An opening tag, declaration or instruction. -/
def opensXml : Text → Bool
  | '<' :: c :: _ => isLetter c || c == '?' || c == '!'
  | _ => false

/-- A reference to a file. -/
def opensExternal : Text → Bool
  | '<' :: c :: _ => isGap c
  | _ => false

/-- A line with something on it that does not end a body. -/
def opensRaw (t : Text) : Bool := !endsBody t && !(firstLine t).all isBlank

/-- The lexeme of a kind at the start of a text. -/
def Terminal.lexeme? : Terminal → Text → Option Text
  | .endOfLine => endOfLine?
  | .gap => gap?
  | .separatorMark => literal? "###"
  | .separatorText => trimmedLine?
  | .variableMark => literal? "@"
  | .assign => assign?
  | .identifier => identifier?
  | .value => value?
  | .metadataMark => metadataMark?
  | .comment => comment?
  | .preRequestMark => preRequestMark?
  | .handlerMark => handlerMark?
  | .script => script?
  | .path => value?
  | .redirect => redirect?
  | .method => method?
  | .target => target?
  | .version => version?
  | .header => header?
  | .formBody => bodyIf opensForm
  | .jsonBody => bodyIf opensJson
  | .graphqlBody => bodyIf opensGraphql
  | .xmlBody => bodyIf opensXml
  | .externalBody => bodyIf opensExternal
  | .rawBody => bodyIf opensRaw

end HttpFile.Syntax
