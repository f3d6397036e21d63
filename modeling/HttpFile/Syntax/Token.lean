import HttpFile.Syntax.Context
import HttpFile.Text.Lines
import HttpFile.Text.Quoted

/-!
# `HttpFile.Syntax.Token` — scanning a file into tokens

A file is scanned from left to right. At each place the kinds that may stand there are tried in a
fixed order, and the first that covers the text at hand makes the next token. Scanning is a
recursion on the text itself: a token is put down at its first character, and its other characters
are passed over.

## Contents
- **Positions and tokens.** `Position`, `Token`.
- **Failures.** `Failure` and its one-line `message`.
- **Scanning.** `Context.lexeme?`, `scan`, `tokens`.
- **Preparation.** `normalize`: newlines unified, the last line ended.
-/

namespace HttpFile.Syntax

open Text

/-! ## Positions and tokens -/

/-- A place in a text, counted from one; only the newline starts a line. -/
structure Position where
  line : Nat
  column : Nat
deriving DecidableEq, Repr

namespace Position

/-- The start of a text. -/
def start : Position := ⟨1, 1⟩

/-- The position after a character. -/
def advance (p : Position) (c : Char) : Position :=
  if c = '\n' then ⟨p.line + 1, 1⟩ else ⟨p.line, p.column + 1⟩

/-- The position after a text. -/
def advanceBy (p : Position) (t : Text) : Position := t.foldl advance p

end Position

/-- A lexeme with its kind and the position of its first character. -/
structure Token where
  kind : Terminal
  lexeme : Text
  position : Position
deriving DecidableEq, Repr

/-! ## Failures -/

/-- Why a text is not a request file. -/
inductive Failure where
  /-- What stands here is a lexeme, but not one that may stand here. -/
  | misplaced (token : Token)
  /-- What stands here is no lexeme at all. -/
  | unknown (char : Char) (position : Position)
  /-- The text ends in the middle of a line. -/
  | unfinished (position : Position)
deriving DecidableEq, Repr

namespace Failure

/-- Where the text was refused. -/
def position : Failure → Position
  | .misplaced token => token.position
  | .unknown _ p => p
  | .unfinished p => p

/-- What is said about a token of a given name that stands in the wrong place. -/
def describeToken (name lexeme : Text) (p : Position) : Text :=
  "Unexpected token Token('" ++ name ++ "', " ++ quoted lexeme ++ ") at line " ++ ofNat p.line ++
    ", column " ++ ofNat p.column ++ "."

/-- The full description of the failure. -/
def description : Failure → Text
  | .misplaced token => describeToken token.kind.name token.lexeme token.position
  | .unknown c p =>
    "No terminal matches '" ++ [c] ++ "' in the current parser context, at line " ++
      ofNat p.line ++ " col " ++ ofNat p.column
  | .unfinished p => describeToken "$END" [] p

/-- The first line of the description: the character that is shown may itself break the line. -/
def message (f : Failure) : Text := ((lines (strip f.description)).head?).getD []

end Failure

/-! ## Scanning -/

/-- The first of the given kinds that covers the start of the text, with its lexeme. -/
def firstLexeme? (kinds : List Terminal) (t : Text) : Option (Terminal × Text) :=
  kinds.findSome? fun kind => (kind.lexeme? t).map fun lexeme => (kind, lexeme)

/-- The lexeme at the start of the text among the kinds that are looked for at a place. -/
def Context.lexeme? (place : Context) (t : Text) : Option (Terminal × Text) :=
  firstLexeme? (Terminal.all.filter place.seeks) t

/-- The failure at a place where nothing that is looked for stands. -/
def Failure.found (p : Position) (c : Char) (rest : Text) : Failure :=
  match firstLexeme? Terminal.all (c :: rest) with
  | some (kind, lexeme) => .misplaced ⟨kind, lexeme, p⟩
  | none => .unknown c p

/-- Scan a text from a place and position on. The number counts the characters of the last token
    that are still to be passed over. -/
def scan : Context → Position → Nat → Text → Except Failure (List Token)
  | place, p, _, [] => if place.mayEnd then .ok [] else .error (.unfinished p)
  | place, p, skip + 1, c :: rest => scan place (p.advance c) skip rest
  | place, p, 0, c :: rest =>
    match place.lexeme? (c :: rest) with
    | some (kind, lexeme) =>
      match place.next kind with
      | some place' =>
        (scan place' (p.advance c) (lexeme.length - 1) rest).map (⟨kind, lexeme, p⟩ :: ·)
      | none => .error (.misplaced ⟨kind, lexeme, p⟩)
    | none => .error (Failure.found p c rest)

/-- Unify the newlines of a text and end its last line. -/
def normalize (t : Text) : Text :=
  let unified := unifyNewlines t
  if endsWith unified ['\n'] then unified else unified ++ ['\n']

/-- The tokens of a request file. -/
def tokens (t : Text) : Except Failure (List Token) := scan .lineStart .start 0 (normalize t)

end HttpFile.Syntax
