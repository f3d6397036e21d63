import HttpFile.Yaml.Layout
import HttpFile.Yaml.Tag

/-!
# `HttpFile.Yaml.Node` — the nodes of a document

A document is a graph of scalars, sequences and mappings. Nodes have numbers, and a collection holds
the numbers of its parts. An anchor gives a node a name, and an alias stands for the node of that
name, also inside the node itself.

Nodes are read by a recursion, for which there is only so much room. How many collections may stand
inside each other depends on the machine, so their number is a parameter.

## Contents
- **Nodes.** `Node`, `Graph`.
- **Reading.** `Reading`: the tokens to come, the anchors seen, the handles of tags and the nodes.
- **Collections.** `node`, with one function for each kind of collection.
- **Documents.** `document?`: the one document of a text.
-/

namespace HttpFile.Yaml

open Text

/-- A node with its type. -/
inductive Node where
  | scalar (tag : Tag) (content : Content)
  | sequence (tag : Tag) (items : List Nat)
  | mapping (tag : Tag) (entries : List (Nat × Nat))
deriving DecidableEq, Repr

/-- The nodes of a document by number. -/
abbrev Graph := Array Node

/-! ## Reading -/

/-- The state of reading. -/
structure Reading where
  tokens : List Token
  /-- How many more collections may stand inside each other. -/
  room : Nat
  anchors : List (Text × Nat) := []
  handles : List (Text × Text) := []
  graph : Graph := #[]

/-- The reading of a part of a document. -/
abbrev Read := StateT Reading (Except Failure)

namespace Read

/-- Fail because the tokens are no document. -/
def refuse {α : Type} : Read α := throw .malformed

/-- The next token. -/
def next : Read Token := do
  match (← get).tokens with
  | .broken f :: _ => throw f
  | t :: _ => return t
  | [] => refuse

/-- Pass the next token. -/
def pass : Read Unit := modify fun r => { r with tokens := r.tokens.drop 1 }

/-- Pass the next token if it is the given one, and tell whether it was. -/
def passIf (t : Token) : Read Bool := do
  if (← next) = t then
    pass
    return true
  else return false

/-- Pass a token that has to be next. -/
def expect (t : Token) : Read Unit := do
  if ← passIf t then return () else refuse

/-- Pass the token that opens a collection, for which there has to be room. -/
def enter (opening : Token) : Read Unit := do
  expect opening
  match (← get).room with
  | 0 => throw .tooDeep
  | room + 1 => modify fun r => { r with room := room }

/-- Give back the room of a collection. -/
def leave : Read Unit := modify fun r => { r with room := r.room + 1 }

/-- Read a collection behind the token that opens it. -/
def within {α : Type} (opening : Token) (work : Read α) : Read α := do
  enter opening
  let a ← work
  leave
  return a

/-- Add a node, and give it a name if there is one. The number of the node. -/
def add (anchor : Option Text) (n : Node) : Read Nat := fun r =>
  let number := r.graph.size
  let anchors := match anchor with
    | some name => (name, number) :: r.anchors
    | none => r.anchors
  .ok (number, { r with anchors := anchors, graph := r.graph.push n })

/-- Complete the node with a number. -/
def complete (number : Nat) (n : Node) : Read Unit :=
  modify fun r => { r with graph := r.graph.setIfInBounds number n }

/-- Refuse a name that is given already. -/
def checkAnchor (anchor : Option Text) : Read Unit := do
  match anchor with
  | none => return ()
  | some name => if ((← get).anchors.lookup name).isSome then refuse

/-- The node that an alias stands for. -/
def aliased (name : Text) : Read Nat := do
  match (← get).anchors.lookup name with
  | some number => return number
  | none => refuse

/-- The address that a tag names. -/
def tagText (handle : Option Text) (suffix : Text) : Read Text := do
  match handle with
  | none => return suffix
  | some h =>
    match (← get).handles.lookup h with
    | some stem => return stem ++ suffix
    | none => refuse

/-- The anchor and the tag in front of a node, in either order. -/
def properties : Read (Option Text × Option Text) := do
  match ← next with
  | .anchor name =>
    pass
    match ← next with
    | .tag h t =>
      pass
      return (some name, some (← tagText h t))
    | _ => return (some name, none)
  | .tag h t =>
    pass
    match ← next with
    | .anchor name =>
      pass
      return (some name, some (← tagText h t))
    | _ => return (none, some (← tagText h t))
  | _ => return (none, none)

end Read

open Read

/-- A scalar that is not written. -/
def emptyScalar : Read Nat := add none (.scalar .null (.text []))

/-- The mark that leaves the type of a node open. -/
def openTag : Text := ['!']

/-- The type of a scalar. -/
def scalarTag (tag : Option Text) (content : Content) (plain : Bool) : Tag :=
  match tag with
  | none => if plain then .ofPlain content.readable else .str
  | some t => if t = openTag then .ofPlain content.readable else .ofText t

/-- The type of a collection. -/
def collectionTag (tag : Option Text) (default : Tag) : Tag :=
  match tag with
  | none => default
  | some t => if t = openTag then default else .ofText t

/-! ## Collections -/

/-- A sequence with the given name and tag; its name stands for it while its items are read. -/
def sequence (anchor tag : Option Text) (items : Read (List Nat)) : Read Nat := do
  let tag := collectionTag tag .seq
  let number ← add anchor (.sequence tag [])
  complete number (.sequence tag (← items))
  return number

/-- A mapping with the given name and tag; its name stands for it while its entries are read. -/
def mapping (anchor tag : Option Text) (entries : Read (List (Nat × Nat))) : Read Nat := do
  let tag := collectionTag tag .map
  let number ← add anchor (.mapping tag [])
  complete number (.mapping tag (← entries))
  return number

/-- A node of which only an anchor or a tag is written. -/
def bare (anchor tag : Option Text) : Read Nat := do
  if anchor.isNone && tag.isNone then refuse
  else add anchor (.scalar (scalarTag tag (.text []) true) (.text []))

/-- Whether a node is missing where one of the given tokens is next. -/
def isMissing (stops : List Token) : Read Bool := do return stops.contains (← next)

/-- A node, or an empty scalar where one of the given tokens is next. -/
def unlessMissing (stops : List Token) (n : Read Nat) : Read Nat := do
  if ← isMissing stops then emptyScalar else n

/-- The value behind a colon. Without a colon it is an empty scalar, as it is where one of the given
    tokens is next. -/
def valueOr (stops : List Token) (n : Read Nat) : Read Nat := do
  if ← passIf .colon then unlessMissing stops n else emptyScalar

mutual
/-- A node. In a block it may be a block itself, and if `dashes` is set, a sequence that is not
    indented. -/
def node (inBlock dashes : Bool) : Nat → Read Nat
  | 0 => refuse
  | bound + 1 => do
    match ← next with
    | .alias name =>
      pass
      aliased name
    | _ =>
      let (anchor, tag) ← properties
      let content ← next
      checkAnchor anchor
      match content with
      | .scalar content plain =>
        pass
        add anchor (.scalar (scalarTag tag content plain) content)
      | .sequenceOpen => within .sequenceOpen (sequence anchor tag (flowItems true bound))
      | .mappingOpen => within .mappingOpen (mapping anchor tag (flowEntries true bound))
      | .dash =>
        if dashes then within .dash (sequence anchor tag (dashedItems bound))
        else bare anchor tag
      | .blockSequence =>
        if inBlock then within .blockSequence (sequence anchor tag (blockItems bound))
        else bare anchor tag
      | .blockMapping =>
        if inBlock then within .blockMapping (mapping anchor tag (blockEntries bound))
        else bare anchor tag
      | _ => bare anchor tag

/-- The items of an indented sequence. -/
def blockItems : Nat → Read (List Nat)
  | 0 => refuse
  | bound + 1 => do
    if ← passIf .dash then
      let item ← unlessMissing [.dash, .blockEnd] (node true false bound)
      return item :: (← blockItems bound)
    else
      expect .blockEnd
      return []

/-- The items of a sequence that is not indented, behind the dash of the first one. -/
def dashedItems : Nat → Read (List Nat)
  | 0 => refuse
  | bound + 1 => do
    let item ← unlessMissing [.dash, .key, .colon, .blockEnd] (node true false bound)
    if ← passIf .dash then return item :: (← dashedItems bound) else return [item]

/-- The entries of a mapping in a block. A key without a value has an empty one, and a value may
    come without a key only behind one. -/
def blockEntries : Nat → Read (List (Nat × Nat))
  | 0 => refuse
  | bound + 1 => do
    if ← passIf .key then
      let key ← unlessMissing [.key, .colon, .blockEnd] (node true true bound)
      let value ← valueOr [.key, .colon, .blockEnd] (node true true bound)
      return (key, value) :: (← blockEntries bound)
    else
      expect .blockEnd
      return []

/-- The items between brackets; a key among them is a mapping of one entry. -/
def flowItems (first : Bool) : Nat → Read (List Nat)
  | 0 => refuse
  | bound + 1 => do
    if ← passIf .sequenceClose then return []
    else
      if !first then expect .comma
      match ← next with
      | .key =>
        let item ← within .key (mapping none none do
          let key ← unlessMissing [.colon, .comma, .sequenceClose] (node false false bound)
          return [(key, ← valueOr [.comma, .sequenceClose] (node false false bound))])
        return item :: (← flowItems false bound)
      | .sequenceClose =>
        pass
        return []
      | _ =>
        let item ← node false false bound
        return item :: (← flowItems false bound)

/-- The entries between braces; an item without a colon is a key with an empty value. -/
def flowEntries (first : Bool) : Nat → Read (List (Nat × Nat))
  | 0 => refuse
  | bound + 1 => do
    if ← passIf .mappingClose then return []
    else
      if !first then expect .comma
      match ← next with
      | .key =>
        pass
        let key ← unlessMissing [.colon, .comma, .mappingClose] (node false false bound)
        let value ← valueOr [.comma, .mappingClose] (node false false bound)
        return (key, value) :: (← flowEntries false bound)
      | .mappingClose =>
        pass
        return []
      | _ =>
        let key ← node false false bound
        let value ← emptyScalar
        return (key, value) :: (← flowEntries false bound)
end

/-! ## Documents -/

/-- The handles that need no declaration. -/
def coreHandles : List (Text × Text) := [(['!'], ['!']), (['!', '!'], coreStem)]

/-- The directives in front of a document; the version is demanded at most once, and each handle
    declared at most once. -/
def directives : Nat → Bool → List (Text × Text) → Read (List (Text × Text))
  | 0, _, _ => refuse
  | bound + 1, versioned, handles => do
    match ← next with
    | .directive (.version major) =>
      pass
      if versioned || major != 1 then refuse else directives bound true handles
    | .directive (.tagHandle h stem) =>
      pass
      if (handles.lookup h).isSome then refuse
      else directives bound versioned (handles ++ [(h, stem)])
    | .directive .other =>
      pass
      directives bound versioned handles
    | _ => return handles

/-- Pass marks that end a document. -/
def passEnds : Nat → Read Unit
  | 0 => return ()
  | bound + 1 => do if ← passIf .documentEnd then passEnds bound

/-- The content of a document behind its directives, if it has any. -/
def documentContent (bound : Nat) : Read Nat := do
  match ← next with
  | .directive _ | .documentStart =>
    let declared ← directives bound false []
    expect .documentStart
    modify fun r => { r with handles := declared ++ coreHandles }
    match ← next with
    | .directive _ | .documentStart | .documentEnd | .streamEnd => emptyScalar
    | _ => node true false bound
  | _ =>
    modify fun r => { r with handles := coreHandles }
    node true false bound

/-- Refuse what follows a document; directives are read before it is told that there is more. -/
def nothingMore (bound : Nat) : Read Unit := do
  passEnds bound
  if (← next) = .streamEnd then return ()
  else
    discard (directives bound false [])
    refuse

/-- Read one document, or nothing if there is none; nothing may follow it. The number of the node at
    its top. -/
def oneDocument (bound : Nat) : Read (Option Nat) := do
  if (← next) = .streamEnd then return none
  else
    let top ← documentContent bound
    nothingMore bound
    return some top

/-- The nodes of the one document of a text and the number of the one at its top, or nothing if
    there is no document, with room for so many collections inside each other. -/
def document? (room : Nat) (t : Text) : Except Failure (Option (Graph × Nat)) :=
  let t := unifyNewlines t
  if isReadable t then
    let all := tokens t
    ((oneDocument (3 * all.length + 8)).run { tokens := all, room := room }).map fun (top, r) =>
      top.map fun n => (r.graph, n)
  else .error .malformed

end HttpFile.Yaml
