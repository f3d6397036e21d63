import HttpFile.Yaml.Lexeme

/-!
# `HttpFile.Yaml.Layout` — from characters to tokens

Indentation opens and closes blocks. A scalar on one line may turn out to be a key when a colon
follows it; until then its place is kept, and the marks of a key are put in front of it later.
Inside brackets indentation does not count.

## Contents
- **State.** `PossibleKey`, `Layout`.
- **Keys.** `saveKey`, `dropKey`, `dropStaleKeys`.
- **Indentation.** `closeBlocks`, `openBlock`.
- **Steps.** one for each kind of token, and `tokenAt`, which chooses.
- **Tokens.** `horizon`, `nextToken`, `run`, `tokens`.
-/

namespace HttpFile.Yaml

open Lexeme

/-- A place where a key may have started. -/
structure PossibleKey where
  /-- The number of tokens before it. -/
  position : Nat
  /-- Whether nothing but a key can stand there. -/
  required : Bool
  place : Glyph

/-- What has been read and how the layout stands. -/
structure Layout where
  /-- The characters to come. -/
  rest : Stream
  /-- How many brackets are open. -/
  depth : Nat := 0
  /-- The column of the innermost block. -/
  indent : Int := -1
  /-- The columns of the blocks around it, the inner ones first. -/
  outer : List Int := []
  /-- Whether a key may start here. -/
  keyAllowed : Bool := true
  /-- The places where keys may have started, by the number of open brackets. -/
  keys : List (Nat × PossibleKey) := []
  /-- The tokens read so far, the last one first. -/
  tokens : List Token := []
  /-- How many tokens have been read. -/
  count : Nat := 0

namespace Layout

/-- A step of reading. -/
abbrev Step := Except Failure Layout

/-- Whether indentation counts. -/
def inBlock (l : Layout) : Bool := l.depth == 0

/-- The place of the next character. -/
def place (l : Layout) : Glyph :=
  match l.rest with
  | g :: _ => g
  | [] => ⟨endMark, 0, 0, 0⟩

/-- Add a token. -/
def push (l : Layout) (t : Token) : Layout :=
  { l with tokens := t :: l.tokens, count := l.count + 1 }

/-- Pass characters. -/
def pass (l : Layout) (n : Nat) : Layout := { l with rest := l.rest.drop n }

/-- Put a token behind so many others. -/
def insert (l : Layout) (position : Nat) (t : Token) : Layout :=
  let after := l.count - position
  { l with tokens := l.tokens.take after ++ t :: l.tokens.drop after, count := l.count + 1 }

/-! ## Keys -/

/-- The greatest length of a key before its colon. -/
def maxKeyLength : Nat := 1024

/-- Whether a key that started at a place cannot be completed any more: it has to stand on one line
    and may not be too long. -/
def isStale (l : Layout) (k : PossibleKey) : Bool :=
  k.place.line != l.place.line || maxKeyLength < l.place.index - k.place.index

/-- Forget the keys that cannot be completed any more. -/
def dropStaleKeys (l : Layout) : Step := do
  require (!l.keys.any fun (_, k) => l.isStale k && k.required)
  return { l with keys := l.keys.filter fun (_, k) => !l.isStale k }

/-- Forget the key that may have started between the innermost brackets. -/
def dropKey (l : Layout) : Step := do
  require (!((l.keys.lookup l.depth).map (·.required)).getD false)
  return { l with keys := l.keys.filter fun (depth, _) => depth != l.depth }

/-- Keep the place of the next character if a key may start there. -/
def saveKey (l : Layout) : Step := do
  if l.keyAllowed then
    let required := l.inBlock && l.indent == (l.place.column : Int)
    let l ← l.dropKey
    return { l with keys := (l.depth, ⟨l.count, required, l.place⟩) :: l.keys }
  else return l

/-! ## Indentation -/

/-- Close blocks until the innermost one is not indented beyond a column. -/
def closeBlocksTo (column : Int) : List Int → Layout → Layout
  | [], l => l
  | indent :: outer, l =>
    if column < l.indent then
      closeBlocksTo column outer ({ l with indent := indent, outer := outer }.push .blockEnd)
    else l

/-- Close the blocks that are indented beyond a column. -/
def closeBlocks (l : Layout) (column : Int) : Layout :=
  if l.inBlock then closeBlocksTo column l.outer l else l

/-- Open a block at a column beyond the innermost one; the token that tells so is put behind so many
    others. -/
def openBlock (l : Layout) (column position : Nat) (t : Token) : Layout :=
  if l.indent < (column : Int) then
    { l with indent := column, outer := l.indent :: l.outer }.insert position t
  else l

/-! ## Steps -/

/-- Pass blanks and comments up to the next token. A new line in a block allows keys again. -/
def skipBlanks : Nat → Layout → Layout
  | 0, l => l
  | bound + 1, l =>
    let rest := skipWhile (· == ' ') l.rest
    let rest := if peek rest = '#' then skipWhile (fun c => !isEndOrBreak c) rest else rest
    match rest with
    | g :: after =>
      if isLineBreak g.char then
        skipBlanks bound { l with rest := after, keyAllowed := l.keyAllowed || l.inBlock }
      else { l with rest := rest }
    | [] => { l with rest := rest }

/-- Leave all blocks before a directive, a mark between documents or the end. -/
def leaveBlocks (l : Layout) : Step := do
  let l ← (l.closeBlocks (-1)).dropKey
  return { l with keyAllowed := false }

/-- A mark between documents. -/
def documentMark (l : Layout) (t : Token) : Step := do
  return ((← l.leaveBlocks).push t).pass 3

/-- A directive. -/
def directive (bound : Nat) (l : Layout) : Step := do
  let l ← l.leaveBlocks
  let (d, rest) ← Lexeme.directive bound l.rest
  return { l.push (.directive d) with rest := rest }

/-- A bracket that opens. -/
def openBracket (l : Layout) (t : Token) : Step := do
  let l ← l.saveKey
  return ({ l with depth := l.depth + 1, keyAllowed := true }.push t).pass 1

/-- A bracket that closes. -/
def closeBracket (l : Layout) (t : Token) : Step := do
  let l ← l.dropKey
  require (!l.inBlock)
  return ({ l with depth := l.depth - 1, keyAllowed := false }.push t).pass 1

/-- A comma between brackets. -/
def comma (l : Layout) : Step := do
  let l ← { l with keyAllowed := true }.dropKey
  return (l.push .comma).pass 1

/-- A mark that opens an entry of a block: it may stand where a key may, and opens a block if it is
    indented beyond the innermost one. -/
def entryMark (l : Layout) (opens mark : Token) (keyNext : Bool) : Step := do
  require (!l.inBlock || l.keyAllowed)
  let l := if l.inBlock then l.openBlock l.place.column l.count opens else l
  let l ← { l with keyAllowed := keyNext }.dropKey
  return (l.push mark).pass 1

/-- A colon: what may have been a key before it is one. -/
def colon (l : Layout) : Step := do
  match l.keys.lookup l.depth with
  | some k =>
    let l := { l with keys := l.keys.filter fun (depth, _) => depth != l.depth }
    let l := l.insert k.position .key
    let l := if l.inBlock then l.openBlock k.place.column k.position .blockMapping else l
    return ({ l with keyAllowed := false }.push .colon).pass 1
  | none => l.entryMark .blockMapping .colon l.inBlock

/-- A token that may start a key. -/
def keyStart (l : Layout) (scan : Stream → Except Failure (Token × Stream)) : Step := do
  let l ← l.saveKey
  let (t, rest) ← scan l.rest
  return { l.push t with rest := rest, keyAllowed := false }

/-- A block scalar. -/
def blockScalar (bound : Nat) (l : Layout) (fold : Bool) : Step := do
  let l ← { l with keyAllowed := true }.dropKey
  let (t, rest) ← Lexeme.block bound fold l.indent l.rest
  return { l.push (.scalar (.text t) false) with rest := rest }

/-- A plain scalar. -/
def plainScalar (bound : Nat) (l : Layout) : Step := do
  let l ← l.saveKey
  let (t, crossed, rest) := Lexeme.plain bound (!l.inBlock) (l.indent + 1) l.rest
  return { l.push (.scalar (.text t) true) with rest := rest, keyAllowed := crossed }

/-- A character that starts no plain scalar, unless it is one of three and no blank follows it. -/
def isIndicator (c : Char) : Bool :=
  isBlankOrEnd c || ['-', '?', ':', ',', '[', ']', '{', '}', '#', '&', '*', '!', '|', '>', '\'',
    '"', '%', '@', '\x60'].contains c

/-- Whether a plain scalar is next. -/
def atPlain (l : Layout) : Bool :=
  let c := peek l.rest
  !isIndicator c ||
    (!isBlankOrEnd (peekAt 1 l.rest) && (c == '-' || (l.inBlock && (c == '?' || c == ':'))))

/-- Read the token at a character. -/
def tokenAt (bound : Nat) (l : Layout) : Step :=
  let c := peek l.rest
  let alone := isBlankOrEnd (peekAt 1 l.rest)
  let atMargin := l.place.column == 0
  if c = '%' && atMargin then l.directive bound
  else if atMargin && atMarks '-' l.rest then l.documentMark .documentStart
  else if atMargin && atMarks '.' l.rest then l.documentMark .documentEnd
  else if c = '[' then l.openBracket .sequenceOpen
  else if c = '{' then l.openBracket .mappingOpen
  else if c = ']' then l.closeBracket .sequenceClose
  else if c = '}' then l.closeBracket .mappingClose
  else if c = ',' then l.comma
  else if c = '-' && alone then l.entryMark .blockSequence .dash true
  else if c = '?' && (alone || !l.inBlock) then l.entryMark .blockMapping .key l.inBlock
  else if c = ':' && (alone || !l.inBlock) then l.colon
  else if c = '*' then l.keyStart fun s => (Lexeme.name s).map fun (t, r) => (.alias t, r)
  else if c = '&' then l.keyStart fun s => (Lexeme.name s).map fun (t, r) => (.anchor t, r)
  else if c = '!' then
    l.keyStart fun s => (Lexeme.tag bound s).map fun ((h, t), r) => (.tag h t, r)
  else if c = '|' && l.inBlock then l.blockScalar bound false
  else if c = '>' && l.inBlock then l.blockScalar bound true
  else if c = '\'' || c = '"' then
    l.keyStart fun s => (Lexeme.quoted bound (c == '"') s).map fun (t, r) => (.scalar t false, r)
  else if l.atPlain then l.plainScalar bound
  else .error .malformed

/-- The number of tokens that are certain: a token that may start a key is not, because the marks of
    a key may still be put in front of it. -/
def horizon (l : Layout) : Nat := (l.keys.map fun (_, k) => k.position).foldl min l.count

/-- Read the next token, together with the blanks in front of it. The end has no token behind it. -/
def nextToken (bound : Nat) (l : Layout) : Except Failure (Layout × Bool) := do
  let l ← (l.skipBlanks bound).dropStaleKeys
  let l := l.closeBlocks l.place.column
  if peek l.rest = endMark then return ((← l.leaveBlocks).push .streamEnd, true)
  else
    let l ← l.tokenAt bound
    return (← l.dropStaleKeys, false)

/-- Read up to the end. The tokens end with the end of the stream or with a failure. Whoever asks
    for a token that is not certain has more of the text read first, so a failure comes behind the
    tokens that were certain before it. -/
def run (bound : Nat) : Nat → Layout → List Token
  | 0, l => (.broken .malformed :: l.tokens).reverse
  | steps + 1, l =>
    match l.nextToken bound with
    | .error f => l.tokens.reverse.take l.horizon ++ [.broken f]
    | .ok (next, true) => next.tokens.reverse
    | .ok (next, false) => run bound steps next

end Layout

/-- The tokens of a text. A byte order mark in front of it does not count. -/
def tokens (t : Text) : List Token :=
  let s := glyphs t
  let s := if peek s = byteOrderMark then s.drop 1 else s
  let bound := t.length + 2
  Layout.run bound bound { rest := s }

end HttpFile.Yaml
