import HttpFile.Syntax.Terminal

/-!
# `HttpFile.Syntax.Context` — where in a file a lexeme stands

What a lexeme may be depends on where it stands: a header line is looked for only below a request
line, a body only below a blank line. The places form a finite machine that reads a file from left
to right.

## Contents
- **Places.** `Context`.
- **Moves.** `Context.next`, defined on the kinds that may stand at a place; `Context.accepts`,
  `Context.seeks`.
- **Ends.** `Context.mayEnd`: the places where the file may end.
-/

namespace HttpFile.Syntax

/-- The places in a file, named for what is read next. -/
inductive Context where
  | lineStart
  | separatorText
  | variableName
  | variableAssign
  | variableValue
  | metadataName
  | metadataGap
  | metadataValue
  | preRequestSource
  | lineEnd
  | methodGap
  | target
  | targetGap
  | version
  | requestLineEnd
  | headers
  | headerEnd
  | beforeBody
  | afterBody
  | handlerSource
  | responseEnd
  | responses
  | belowResponses
deriving DecidableEq, Repr

namespace Context

/-- A response handler, a redirect or the next section may follow any finished request. -/
def afterRequest : Terminal → Option Context
  | .redirect => some .responseEnd
  | .handlerMark => some .handlerSource
  | .separatorMark => some .separatorText
  | _ => none

/-- The place after a lexeme of the given kind, if the kind may stand here. -/
def next : Context → Terminal → Option Context
  | .lineStart, .endOfLine => some .lineStart
  | .lineStart, .separatorMark => some .separatorText
  | .lineStart, .variableMark => some .variableName
  | .lineStart, .metadataMark => some .metadataName
  | .lineStart, .comment => some .lineEnd
  | .lineStart, .preRequestMark => some .preRequestSource
  | .lineStart, .method => some .methodGap
  | .lineStart, .target => some .targetGap
  | .separatorText, .separatorText => some .lineEnd
  | .separatorText, .endOfLine => some .lineStart
  | .variableName, .identifier => some .variableAssign
  | .variableAssign, .assign => some .variableValue
  | .variableValue, .value => some .lineEnd
  | .variableValue, .endOfLine => some .lineStart
  | .metadataName, .identifier => some .metadataGap
  | .metadataGap, .gap => some .metadataValue
  | .metadataGap, .endOfLine => some .lineStart
  | .metadataValue, .value => some .lineEnd
  | .preRequestSource, .script => some .lineEnd
  | .preRequestSource, .path => some .lineEnd
  | .lineEnd, .endOfLine => some .lineStart
  | .methodGap, .gap => some .target
  | .target, .target => some .targetGap
  | .targetGap, .gap => some .version
  | .targetGap, .endOfLine => some .headers
  | .version, .version => some .requestLineEnd
  | .requestLineEnd, .endOfLine => some .headers
  | .headers, .header => some .headerEnd
  | .headers, .endOfLine => some .beforeBody
  | .headers, kind => afterRequest kind
  | .headerEnd, .endOfLine => some .headers
  | .beforeBody, .endOfLine => some .beforeBody
  | .beforeBody, kind => if kind.isBody then some .afterBody else afterRequest kind
  | .afterBody, kind => afterRequest kind
  | .handlerSource, .script => some .responseEnd
  | .handlerSource, .path => some .responseEnd
  | .responseEnd, .endOfLine => some .responses
  | .responses, .endOfLine => some .belowResponses
  | .responses, kind => afterRequest kind
  | .belowResponses, .endOfLine => some .belowResponses
  | .belowResponses, kind => afterRequest kind
  | _, _ => none

/-- Whether a kind may stand here. -/
def accepts (place : Context) (kind : Terminal) : Bool := (place.next kind).isSome

/-- Whether a kind is looked for here. A body is looked for below every blank line of a request,
    also below a response, where none may stand: such a line is then reported as a body out of
    place. -/
def seeks (place : Context) (kind : Terminal) : Bool :=
  place.accepts kind || (place = .belowResponses && kind.isBody)

/-- Whether the file may end here. -/
def mayEnd : Context → Bool
  | .lineStart | .headers | .beforeBody | .afterBody | .responses | .belowResponses => true
  | _ => false

end Context

end HttpFile.Syntax
