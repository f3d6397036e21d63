import HttpFile.Text.Lines
import HttpFile.Yaml.Failure

/-!
# `HttpFile.Yaml.Glyph` — characters with their places

Layout decides what a YAML text means, so every character carries its place. A stream of characters
ends with a mark that is no character of any text.

## Contents
- **Characters.** `Glyph`, `Stream`, `glyphs`.
- **Classes.** `isLineBreak`, `isEndOrBreak`, `isSpaceOrEnd`, `isBlankOrEnd`.
- **Looking ahead.** `peek`, `peekAt`, `atDocumentMark`.
- **Readable texts.** `isReadable`.
-/

namespace HttpFile.Yaml

/-- A character and its place: the characters before it, its line, and its column in it. -/
structure Glyph where
  char : Char
  index : Nat
  line : Nat
  column : Nat
deriving DecidableEq, Repr

/-- Characters to come, closed by the end mark. -/
abbrev Stream := List Glyph

/-- The mark at the end of a stream. -/
def endMark : Char := '\x00'

/-! ## Classes -/

/-- A character that ends a line. -/
def isLineBreak (c : Char) : Bool :=
  c == '\n' || c == '\x85' || c == '\u2028' || c == '\u2029'

/-- The end mark or a line break. -/
def isEndOrBreak (c : Char) : Bool := c == endMark || isLineBreak c

/-- The end mark, a line break or a space. -/
def isSpaceOrEnd (c : Char) : Bool := c == ' ' || isEndOrBreak c

/-- The end mark, a line break, a space or a tab. -/
def isBlankOrEnd (c : Char) : Bool := c == '\t' || isSpaceOrEnd c

/-- A line break as it counts in a scalar: the next-line character is a newline. -/
def asBreak (c : Char) : Char := if c = '\x85' then '\n' else c

/-- A character of names: an ASCII letter or digit, a hyphen or an underscore. -/
def isNameChar (c : Char) : Bool := c.isAlphanum || c == '-' || c == '_'

/-! ## Streams -/

/-- The byte order mark, which takes no column. -/
def byteOrderMark : Char := '\uFEFF'

/-- The characters of a text from a place on. -/
def glyphsFrom (index line column : Nat) : Text → Stream
  | [] => [⟨endMark, index, line, column⟩]
  | c :: rest =>
    ⟨c, index, line, column⟩ ::
      if isLineBreak c then glyphsFrom (index + 1) (line + 1) 0 rest
      else if c = byteOrderMark then glyphsFrom (index + 1) line column rest
      else glyphsFrom (index + 1) line (column + 1) rest

/-- The characters of a text. -/
def glyphs (t : Text) : Stream := glyphsFrom 0 0 0 t

/-- The texts of characters. -/
def textOf (s : Stream) : Text := s.map (·.char)

/-! ## Looking ahead -/

/-- The next character. -/
def peek (s : Stream) : Char :=
  match s with
  | g :: _ => g.char
  | [] => endMark

/-- The character behind so many others. -/
def peekAt (n : Nat) (s : Stream) : Char := peek (s.drop n)

/-- The column of the next character. -/
def columnOf (s : Stream) : Nat :=
  match s with
  | g :: _ => g.column
  | [] => 0

/-- The characters from the first one on that is not in a class. -/
def skipWhile (p : Char → Bool) (s : Stream) : Stream := s.dropWhile fun g => p g.char

/-- The characters up to the first one that is not in a class, and the stream from there on. -/
def spanWhile (p : Char → Bool) (s : Stream) : Text × Stream :=
  (textOf (s.takeWhile fun g => p g.char), skipWhile p s)

/-- Whether three given marks stand alone at the front of a stream. -/
def atMarks (mark : Char) (s : Stream) : Bool :=
  textOf (s.take 3) == [mark, mark, mark] && isBlankOrEnd (peekAt 3 s)

/-- Whether the marks that start or end a document stand at the front of a stream. -/
def atDocumentMark (s : Stream) : Bool := atMarks '-' s || atMarks '.' s

/-! ## Readable texts -/

/-- Whether a character may stand in a YAML text. -/
def isReadableChar (c : Char) : Bool :=
  let n := c.toNat
  n == 0x9 || n == 0xA || n == 0xD || (0x20 ≤ n && n ≤ 0x7E) || n == 0x85 ||
    (0xA0 ≤ n && n ≤ 0xD7FF) || (0xE000 ≤ n && n ≤ 0xFFFD) || 0x10000 ≤ n

/-- Whether all characters of a text may stand in a YAML text. -/
def isReadable (t : Text) : Bool := t.all isReadableChar

end HttpFile.Yaml
