import HttpFile.Syntax.Token

/-!
# `HttpFile.Syntax.Tree` — the structure of a request file

Tokens are grouped into entries, and entries into the sections of the file: an optional head and one
section per separator. Both groupings are recursions from the right, so that the tree of two parts
that meet at a separator is put together from the trees of the parts.

## Contents
- **Trees.** `Item`, `Response`, `RequestTail`, `RequestNode`, `Section`, `Tree`.
- **Entries.** `Entry`, `entries`.
- **Grouping.** `group`, `Tree.ofTokens`, `parse`.
- **Generic view.** `Node`, `Tree.toNode`: the tree as named nodes over tokens.
-/

namespace HttpFile.Syntax

/-! ## Trees -/

/-- A line of a section above its request line. -/
inductive Item where
  | variable (name : Token) (value : Option Token)
  | comment (text : Token)
  | metadata (name : Token) (value : Option Token)
  | preRequest (source : Token)
deriving DecidableEq, Repr

/-- A line that says what to do with the response. -/
inductive Response where
  | handler (source : Token)
  | redirect (target : Token)
deriving DecidableEq, Repr

/-- What stands below a request line. -/
structure RequestTail where
  version : Option Token := none
  headers : List Token := []
  body : Option Token := none
  responses : List Response := []
deriving DecidableEq, Repr

/-- A request: its line and what stands below. -/
structure RequestNode where
  method : Option Token := none
  target : Token
  tail : RequestTail := {}
deriving DecidableEq, Repr

/-- The contents of a section. -/
structure Section where
  items : List Item := []
  request : Option RequestNode := none
deriving DecidableEq, Repr

/-- A request file: what stands before the first separator, if anything does, and the sections, each
    with the text of its separator. -/
structure Tree where
  head : Option Section
  sections : List (Option Token × Section)
deriving DecidableEq, Repr

/-! ## Entries -/

/-- The parts of a file, each with the tokens that belong to it. -/
inductive Entry where
  | separator (text : Option Token)
  | item (item : Item)
  | method (token : Token)
  | target (token : Token)
  | version (token : Token)
  | header (token : Token)
  | body (token : Token)
  | response (response : Response)
deriving DecidableEq, Repr

/-- The next token if it is of a kind. -/
def nextOf (kind : Terminal) (ts : List Token) : Option Token :=
  ts.head?.filter fun t => t.kind = kind

/-- The entry that a token opens, given the tokens after it; most tokens belong to an entry that a
    token before them opened. -/
def Entry.opened? (t : Token) (rest : List Token) : Option Entry :=
  match t.kind with
  | .separatorMark => some (.separator (nextOf .separatorText rest))
  | .variableMark => rest.head?.map fun name => .item (.variable name (nextOf .value rest.tail))
  | .metadataMark => rest.head?.map fun name => .item (.metadata name (nextOf .value rest.tail))
  | .preRequestMark => rest.head?.map fun source => .item (.preRequest source)
  | .comment => some (.item (.comment t))
  | .method => some (.method t)
  | .target => some (.target t)
  | .version => some (.version t)
  | .header => some (.header t)
  | .handlerMark => rest.head?.map fun source => .response (.handler source)
  | .redirect => some (.response (.redirect t))
  | kind => if kind.isBody then some (.body t) else none

/-- The entries that a list of tokens without layout opens. -/
def entries : List Token → List Entry
  | [] => []
  | t :: rest => (Entry.opened? t rest).toList ++ entries rest

/-! ## Grouping -/

/-- What has been grouped so far, from the right: parts of a request whose line is still to come,
    the section at hand, and the sections after it. -/
structure Grouped where
  tail : RequestTail := {}
  here : Section := {}
  after : List (Option Token × Section) := []
deriving DecidableEq, Repr

/-- Put an entry in front. -/
def Grouped.push (e : Entry) (g : Grouped) : Grouped :=
  match e with
  | .separator text => { after := (text, g.here) :: g.after }
  | .item i => { g with here := { g.here with items := i :: g.here.items } }
  | .response r => { g with tail := { g.tail with responses := r :: g.tail.responses } }
  | .body t => { g with tail := { g.tail with body := some t } }
  | .header t => { g with tail := { g.tail with headers := t :: g.tail.headers } }
  | .version t => { g with tail := { g.tail with version := some t } }
  | .target t =>
    { g with tail := {}, here := { g.here with request := some { target := t, tail := g.tail } } }
  | .method t =>
    let named := g.here.request.map fun r => { r with method := some t }
    { g with here := { g.here with request := named } }

/-- Group the entries of a file. -/
def group (es : List Entry) : Grouped := es.foldr Grouped.push {}

/-- The tree of a scanned file. It has a head unless it starts with a separator. -/
def Tree.ofTokens (ts : List Token) : Tree :=
  let grouped := group (entries (ts.filter fun t => !t.kind.isLayout))
  { head := if (nextOf .separatorMark ts).isSome || ts.isEmpty then none else some grouped.here
    sections := grouped.after }

/-- The tree of a request file. -/
def parse (t : Text) : Except Failure Tree := (tokens t).map Tree.ofTokens

/-! ## Generic view -/

/-- A named node with its parts, or a token. -/
inductive Node where
  | rule (name : String) (children : List Node)
  | token (token : Token)
deriving Repr

/-- The leaves of the tokens that are there. -/
def leaves (ts : List (Option Token)) : List Node := ts.filterMap fun t => t.map Node.token

/-- A line above a request line as a node. -/
def Item.toNode : Item → Node
  | .variable name value => .rule "variable_declaration" (leaves [some name, value])
  | .comment text => .rule "comment" [.token text]
  | .metadata name value => .rule "metadata" (leaves [some name, value])
  | .preRequest source => .rule "pre_request_script" [.token source]

/-- A line about the response as a node. -/
def Response.toNode : Response → Node
  | .handler source => .rule "res_handler_script" [.token source]
  | .redirect target => .rule "res_redirect" [.token target]

/-- A request as a node. -/
def RequestNode.toNode (r : RequestNode) : Node :=
  .rule "request"
    (leaves [r.method, some r.target, r.tail.version] ++
      r.tail.headers.map (fun h => Node.rule "header" [.token h]) ++
      leaves [r.tail.body] ++
      r.tail.responses.map Response.toNode)

/-- The parts of a section as nodes. -/
def Section.toNodes (s : Section) : List Node :=
  s.items.map Item.toNode ++ (s.request.map RequestNode.toNode).toList

/-- The whole tree as a node. -/
def Tree.toNode (t : Tree) : Node :=
  let head := (t.head.map fun s => Node.rule "head" s.toNodes).toList
  let sections := t.sections.map fun (text, s) =>
    Node.rule "section" (.rule "request_separator" (leaves [text]) :: s.toNodes)
  .rule "start" (head ++ sections)

end HttpFile.Syntax
