import HttpFile.Text.Numeral
import HttpFile.Text.Utf8
import HttpFile.Yaml.Token

/-!
# `HttpFile.Yaml.Lexeme` — the lexemes of a YAML text

Each function here takes one lexeme from the front of a stream and gives what it stands for and the
stream behind it. Loops that take a varying number of characters at a time are bounded by a number
that the length of the text supplies.

## Contents
- **Lines.** `restOfLine`.
- **Properties.** `name`, `tag`, `directive`.
- **Plain scalars.** `plain`.
- **Quoted scalars.** `quoted`.
- **Block scalars.** `block`.
-/

namespace HttpFile.Yaml.Lexeme

open Text

/-- Fail because the text is not well formed. -/
def refuse {α : Type} : Except Failure α := .error .malformed

/-- Go on if a condition holds. -/
def require (b : Bool) : Except Failure Unit := if b then .ok () else refuse

/-! ## Lines -/

/-- Pass a line break, if one is next. -/
def skipBreak (s : Stream) : Stream :=
  match s with
  | g :: rest => if isLineBreak g.char then rest else s
  | [] => []

/-- Pass the rest of a line, which may hold only spaces and a comment. -/
def restOfLine (s : Stream) : Except Failure Stream := do
  let s := skipWhile (· == ' ') s
  let s := if peek s = '#' then skipWhile (fun c => !isEndOrBreak c) s else s
  require (isEndOrBreak (peek s))
  return skipBreak s

/-! ## Properties -/

/-- The name behind the mark of an alias or an anchor. -/
def name (s : Stream) : Except Failure (Text × Stream) := do
  let (t, rest) := spanWhile isNameChar (s.drop 1)
  require (!t.isEmpty)
  let c := peek rest
  require (isBlankOrEnd c || ['?', ':', ',', ']', '}', '%', '@', '\x60'].contains c)
  return (t, rest)

/-- A character of a tag's address that stands for itself. -/
def isAddressChar (c : Char) : Bool := c.isAlphanum || "-;/?:@&=+$,_.!~*'()[]".toList.contains c

/-- The bytes of a run of escapes. -/
def escapedBytes : Nat → Stream → Except Failure (List UInt8 × Stream)
  | 0, s => .ok ([], s)
  | bound + 1, s =>
    if peek s = '%' then
      match hexValue? (textOf ((s.drop 1).take 2)), (s.drop 1).take 2 with
      | some n, [_, _] => do
        let (bs, rest) ← escapedBytes bound (s.drop 3)
        return (UInt8.ofNat n :: bs, rest)
      | _, _ => refuse
    else .ok ([], s)

/-- An address, its escapes read as bytes of UTF-8. -/
def addressFrom : Nat → Stream → Except Failure (Text × Stream)
  | 0, s => .ok ([], s)
  | bound + 1, s =>
    if peek s = '%' then do
      let (bs, rest) ← escapedBytes bound s
      match Utf8.decode bs with
      | .error _ => refuse
      | .ok t =>
        let (more, rest) ← addressFrom bound rest
        return (t ++ more, rest)
    else if isAddressChar (peek s) then do
      let (t, rest) := spanWhile isAddressChar s
      let (more, rest) ← addressFrom bound rest
      return (t ++ more, rest)
    else .ok ([], s)

/-- An address that is not empty. -/
def address (bound : Nat) (s : Stream) : Except Failure (Text × Stream) := do
  require (isAddressChar (peek s) || peek s == '%')
  addressFrom bound s

/-- A handle: a mark alone before a space, or a name between two marks. -/
def handle (s : Stream) : Except Failure (Text × Stream) := do
  require (peek s == '!')
  if peekAt 1 s = ' ' then return (['!'], s.drop 1)
  else
    let (t, rest) := spanWhile isNameChar (s.drop 1)
    require (peek rest == '!')
    return ('!' :: t ++ ['!'], rest.drop 1)

/-- Whether a second mark comes before the next space. -/
def hasSecondMark (s : Stream) : Bool :=
  (s.takeWhile fun g => !isSpaceOrEnd g.char).any fun g => g.char == '!'

/-- A tag: its handle, if it has one, and what follows it. -/
def tag (bound : Nat) (s : Stream) : Except Failure ((Option Text × Text) × Stream) := do
  let c := peekAt 1 s
  let (found, rest) ← (
    if c = '<' then do
      let (suffix, rest) ← address bound (s.drop 2)
      require (peek rest == '>')
      return ((none, suffix), rest.drop 1)
    else if isBlankOrEnd c then return ((none, ['!']), s.drop 1)
    else if hasSecondMark (s.drop 1) then do
      let (h, rest) ← handle s
      let (suffix, rest) ← address bound rest
      return ((some h, suffix), rest)
    else do
      let (suffix, rest) ← address bound (s.drop 1)
      return ((some ['!'], suffix), rest) : Except Failure ((Option Text × Text) × Stream))
  require (isSpaceOrEnd (peek rest))
  return (found, rest)

/-- A number of a version. -/
def versionNumber (s : Stream) : Except Failure (Nat × Stream) := do
  let (digits, rest) := spanWhile Char.isDigit s
  require (!digits.isEmpty)
  if maxDigits < digits.length then throw .outOfRange
  return (digitsValue digits, rest)

/-- The version that a directive demands. -/
def version (s : Stream) : Except Failure (Directive × Stream) := do
  let (major, rest) ← versionNumber (skipWhile (· == ' ') s)
  require (peek rest == '.')
  let (_, rest) ← versionNumber (rest.drop 1)
  require (isSpaceOrEnd (peek rest))
  return (.version major, rest)

/-- The handle that a directive declares. -/
def handleDeclaration (bound : Nat) (s : Stream) : Except Failure (Directive × Stream) := do
  let (h, rest) ← handle (skipWhile (· == ' ') s)
  require (peek rest == ' ')
  let (stem, rest) ← address bound (skipWhile (· == ' ') rest)
  require (isSpaceOrEnd (peek rest))
  return (.tagHandle h stem, rest)

/-- A directive with its line. -/
def directive (bound : Nat) (s : Stream) : Except Failure (Directive × Stream) := do
  let (t, rest) := spanWhile isNameChar (s.drop 1)
  require (!t.isEmpty)
  require (isSpaceOrEnd (peek rest))
  let (d, rest) ←
    if t = "YAML".toList then version rest
    else if t = "TAG".toList then handleDeclaration bound rest
    else pure (.other, skipWhile (fun c => !isEndOrBreak c) rest)
  return (d, ← restOfLine rest)

/-! ## Folding -/

/-- What line breaks inside a scalar amount to: the first, if it is a newline, is a space, or
    nothing if others follow. -/
def folded (first : Char) (others : Text) : Text :=
  (if first != '\n' then [first] else if others.isEmpty then [' '] else []) ++ others

/-! ## Plain scalars -/

/-- Whether a plain scalar stops at a character, given the one behind it. -/
def stopsPlain (inFlow : Bool) (c next : Char) : Bool :=
  isBlankOrEnd c ||
    (c == ':' && (isBlankOrEnd next || (inFlow && [',', '[', ']', '{', '}'].contains next))) ||
    (inFlow && [',', '?', '[', ']', '{', '}'].contains c)

/-- The characters of a plain scalar up to the next blank. -/
def plainRun (inFlow : Bool) : Stream → Text × Stream
  | [] => ([], [])
  | g :: rest =>
    if stopsPlain inFlow g.char (peek rest) then ([], g :: rest)
    else
      let (t, after) := plainRun inFlow rest
      (g.char :: t, after)

/-- The line breaks among the blanks to come; nothing if a document starts or ends there. -/
def plainBreaks : Stream → Option Text × Stream
  | [] => (some [], [])
  | g :: rest =>
    if g.char = ' ' then plainBreaks rest
    else if isLineBreak g.char then
      if atDocumentMark rest then (none, rest)
      else
        let (t, after) := plainBreaks rest
        (t.map (asBreak g.char :: ·), after)
    else (some [], g :: rest)

/-- The blanks between two parts of a plain scalar, whether they cross a line, and the stream behind
    them. No blanks end the scalar. -/
def plainBlanks (s : Stream) : Text × Bool × Stream :=
  let (spaces, rest) := spanWhile (· == ' ') s
  match rest with
  | g :: after =>
    if isLineBreak g.char then
      if atDocumentMark after then ([], true, after)
      else
        match plainBreaks after with
        | (some others, after) => (folded (asBreak g.char) others, true, after)
        | (none, after) => ([], true, after)
    else (spaces, false, rest)
  | [] => (spaces, false, rest)

/-- A plain scalar with the blanks that may come before its next part. The flag tells whether the
    blanks behind it cross a line. -/
def plainFrom (inFlow : Bool) (indent : Int) :
    Nat → Text → Bool → Stream → Text × Bool × Stream
  | 0, _, crossed, s => ([], crossed, s)
  | bound + 1, blanks, crossed, s =>
    if peek s = '#' then ([], crossed, s)
    else
      match plainRun inFlow s with
      | ([], _) => ([], crossed, s)
      | (run, rest) =>
        let (next, crossed, rest) := plainBlanks rest
        if next.isEmpty || peek rest == '#' || (!inFlow && (columnOf rest : Int) < indent) then
          (blanks ++ run, crossed, rest)
        else
          let (more, crossed, rest) := plainFrom inFlow indent bound next crossed rest
          (blanks ++ run ++ more, crossed, rest)

/-- A plain scalar, and whether the blanks behind it cross a line. -/
def plain (bound : Nat) (inFlow : Bool) (indent : Int) (s : Stream) : Text × Bool × Stream :=
  plainFrom inFlow indent bound [] false s

/-! ## Quoted scalars -/

/-- The code point of an escape of one character. -/
def simpleEscape? (c : Char) : Option Nat :=
  let known : List (Char × Nat) := [
    ('0', 0x00), ('a', 0x07), ('b', 0x08), ('t', 0x09), ('\t', 0x09), ('n', 0x0A), ('v', 0x0B),
    ('f', 0x0C), ('r', 0x0D), ('e', 0x1B), (' ', 0x20), ('"', 0x22), ('\\', 0x5C), ('/', 0x2F),
    ('N', 0x85), ('_', 0xA0), ('L', 0x2028), ('P', 0x2029)]
  known.lookup c

/-- The number of digits of an escape by number. -/
def escapeDigits? : Char → Option Nat
  | 'x' => some 2
  | 'u' => some 4
  | 'U' => some 8
  | _ => none

/-- The code point that digits give, if there is one. -/
def codePoint (digits : Nat) (s : Stream) : Except Failure Nat := do
  let t := textOf (s.take digits)
  require (t.length == digits)
  match hexValue? t with
  | none => refuse
  | some code =>
    if 0x80000000 ≤ code then .error .tooLarge
    else if 0x110000 ≤ code then .error .outOfRange
    else return code

/-- The line breaks among the blanks inside quotes. No document may start or end there. -/
def quotedBreaks : Nat → Stream → Except Failure (Text × Stream)
  | 0, _ => refuse
  | bound + 1, s =>
    if atDocumentMark s then refuse
    else
      match skipWhile (fun c => c == ' ' || c == '\t') s with
      | [] => refuse
      | g :: rest =>
        if isLineBreak g.char then do
          let (t, after) ← quotedBreaks bound rest
          return (asBreak g.char :: t, after)
        else return ([], g :: rest)

/-- The code points of a text. -/
def codesOf (t : Text) : List Nat := t.map Char.toNat

/-- Whether a character is passed over inside quotes. -/
def isOrdinary (c : Char) : Bool :=
  !(c == '\'' || c == '"' || c == '\\' || isBlankOrEnd c)

/-- The code points up to the closing quote, which is passed. -/
def quotedFrom (double : Bool) : Nat → Stream → Except Failure (List Nat × Stream)
  | 0, _ => refuse
  | bound + 1, s =>
    let more (codes : List Nat) (rest : Stream) : Except Failure (List Nat × Stream) := do
      let (tail, after) ← quotedFrom double bound rest
      return (codes ++ tail, after)
    match s with
    | [] => refuse
    | g :: rest =>
      let c := g.char
      if isOrdinary c then
        let (run, rest) := spanWhile isOrdinary s
        more (codesOf run) rest
      else if c = endMark then refuse
      else if c = ' ' || c = '\t' || isLineBreak c then
        let (blanks, rest) := spanWhile (fun c => c == ' ' || c == '\t') s
        match rest with
        | [] => refuse
        | b :: after =>
          if b.char = endMark then refuse
          else if isLineBreak b.char then do
            let (others, after) ← quotedBreaks bound after
            more (codesOf (folded (asBreak b.char) others)) after
          else more (codesOf blanks) rest
      else if double then
        if c = '"' then .ok ([], rest)
        else if c = '\'' then more [c.toNat] rest
        else
          let e := peek rest
          match simpleEscape? e, escapeDigits? e with
          | some code, _ => more [code] (rest.drop 1)
          | none, some digits => do
            let code ← codePoint digits (rest.drop 1)
            more [code] (rest.drop (1 + digits))
          | none, none =>
            if isLineBreak e then do
              let (others, after) ← quotedBreaks bound (rest.drop 1)
              more (codesOf others) after
            else refuse
      else if c = '\'' then
        if peek rest = '\'' then more [c.toNat] (rest.drop 1) else .ok ([], rest)
      else more [c.toNat] rest

/-- A quoted scalar. -/
def quoted (bound : Nat) (double : Bool) (s : Stream) : Except Failure (Content × Stream) := do
  let (codes, rest) ← quotedFrom double bound (s.drop 1)
  return (.ofCodes codes, rest)

/-! ## Block scalars -/

/-- What becomes of the line breaks at the end of a block scalar. -/
inductive Chomping where
  | clip
  | strip
  | keep
deriving DecidableEq, Repr

/-- The mark for the line breaks at the end. -/
def chomping? : Char → Option Chomping
  | '+' => some .keep
  | '-' => some .strip
  | _ => none

/-- A digit for the indentation, which may not be nought. -/
def increment (s : Stream) : Except Failure (Option Nat × Stream) := do
  let c := peek s
  if c.isDigit then
    require (c != '0')
    return (some (c.toNat - '0'.toNat), s.drop 1)
  else return (none, s)

/-- The marks behind the one that opens a block scalar, in either order. -/
def blockMarks (s : Stream) : Except Failure ((Chomping × Option Nat) × Stream) := do
  let (found, rest) ← (
    match chomping? (peek s) with
    | some chomping => do
      let (n, rest) ← increment (s.drop 1)
      return ((chomping, n), rest)
    | none => do
      let (n, rest) ← increment s
      match n, chomping? (peek rest) with
      | some n, some chomping => return ((chomping, some n), rest.drop 1)
      | n, _ => return ((.clip, n), rest) : Except Failure ((Chomping × Option Nat) × Stream))
  require (isSpaceOrEnd (peek rest))
  return (found, rest)

/-- The line breaks among the first blanks of a block scalar and the widest indentation there. -/
def blockIndentation (widest : Nat) : Stream → Text × Nat × Stream
  | [] => ([], widest, [])
  | g :: rest =>
    if g.char = ' ' then blockIndentation (max widest (g.column + 1)) rest
    else if isLineBreak g.char then
      let (t, widest, after) := blockIndentation widest rest
      (asBreak g.char :: t, widest, after)
    else ([], widest, g :: rest)

/-- The line breaks before the next line of a block scalar with a given indentation. -/
def blockBreaks (indent : Nat) : Stream → Text × Stream
  | [] => ([], [])
  | g :: rest =>
    if g.char = ' ' && g.column < indent then blockBreaks indent rest
    else if isLineBreak g.char then
      let (t, after) := blockBreaks indent rest
      (asBreak g.char :: t, after)
    else ([], g :: rest)

/-- The line break that is next, if one is. -/
def lineBreak (s : Stream) : Text × Stream :=
  match s with
  | g :: rest => if isLineBreak g.char then ([asBreak g.char], rest) else ([], s)
  | [] => ([], [])

/-- Whether a line of a block scalar is next. -/
def atBlockLine (indent : Nat) (s : Stream) : Bool := columnOf s == indent && peek s != endMark

/-- The lines of a block scalar behind the given line breaks, with the line breaks at its end. -/
def blockLines (fold : Bool) (indent : Nat) :
    Nat → Text → Stream → Text × Text × Text × Stream
  | 0, breaks, s => ([], [], breaks, s)
  | bound + 1, breaks, s =>
    if atBlockLine indent s then
      let (line, rest) := spanWhile (fun c => !isEndOrBreak c) s
      let (lineEnd, rest) := lineBreak rest
      let (next, rest) := blockBreaks indent rest
      if atBlockLine indent rest then
        let isText (c : Char) : Bool := c != ' ' && c != '\t'
        let joint :=
          if fold && lineEnd == ['\n'] && isText (peek s) && isText (peek rest) then
            if next.isEmpty then [' '] else []
          else lineEnd
        let (more, lastEnd, breaksAtEnd, rest) := blockLines fold indent bound next rest
        (breaks ++ line ++ joint ++ more, lastEnd, breaksAtEnd, rest)
      else (breaks ++ line, lineEnd, next, rest)
    else ([], [], breaks, s)

/-- A block scalar inside a block of the given indentation. -/
def block (bound : Nat) (fold : Bool) (indent : Int) (s : Stream) :
    Except Failure (Text × Stream) := do
  let ((chomping, n), rest) ← blockMarks (s.drop 1)
  let rest ← restOfLine rest
  let least := (max (indent + 1) 1).toNat
  let (indent, breaks, rest) :=
    match n with
    | none =>
      let (breaks, widest, rest) := blockIndentation 0 rest
      (max least widest, breaks, rest)
    | some n =>
      let (breaks, rest) := blockBreaks (least + n - 1) rest
      (least + n - 1, breaks, rest)
  let (t, lineEnd, breaks, rest) := blockLines fold indent bound breaks rest
  match chomping with
  | .strip => return (t, rest)
  | .clip => return (t ++ lineEnd, rest)
  | .keep => return (t ++ lineEnd ++ breaks, rest)

end HttpFile.Yaml.Lexeme
