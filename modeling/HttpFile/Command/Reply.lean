import HttpFile.Ansi
import HttpFile.Check
import HttpFile.Config
import HttpFile.Convert
import HttpFile.Difference

/-!
# `HttpFile.Command.Reply` — what a command says and leaves

A command writes to two channels, makes notes, and ends with a code. What it writes is coloured;
where colours are not wanted they are removed.

## Contents
- **Replies.** `Line`, `Ending`, `Reply`.
- **Channels.** `Reply.stdout`, `Reply.stderr`.
- **Lines.** `say`, `complain`, `report`.
- **Failures.** `failing` with a code, `escaping` without one; `bodyFailure`, `fatalFailure`.
-/

namespace HttpFile.Command

open Text Files

/-! ## Replies -/

/-- What a command writes, in order: to the first channel, to the second, or as a note. What was
    typed shows on the first channel as it is. -/
inductive Line where
  | out (t : Text)
  | typed (t : Text)
  | err (t : Text)
  | log (n : Note)
deriving DecidableEq, Repr

/-- A failure that a command does not report itself. -/
inductive Escape where
  | config (e : ConfigFailure)
  | convert (e : ConvertError)
  | file (e : FileError)
  | format (e : FormatError)
  /-- Halves of characters in a text that is to be written. -/
  | halves
deriving DecidableEq, Repr

/-- How a command ends. -/
inductive Ending where
  /-- With a code. -/
  | exit (code : Nat)
  /-- With a word on how it is to be used. -/
  | usage
  /-- With a failure that it does not report. -/
  | escaped (e : Escape)
deriving DecidableEq, Repr

/-- What a command writes, how it ends, and the tree that it leaves. -/
structure Reply where
  lines : List Line := []
  ending : Ending := .exit 0
  tree : Tree

/-- A reply with lines in front. -/
def Reply.after (lines : List Line) (r : Reply) : Reply := { r with lines := lines ++ r.lines }

/-! ## Channels -/

/-- A text in colours, or without them. -/
def inColour (colour : Bool) (t : Text) : Text := if colour then t else Ansi.stripSequences t

/-- The first channel. -/
def Reply.stdout (r : Reply) (colour : Bool) : Text :=
  r.lines.flatMap fun
    | .out t => inColour colour t
    | .typed t => t
    | .err _ | .log _ => []

/-- The second channel, with the notes that matter enough. -/
def Reply.stderr (r : Reply) (colour : Bool) (threshold : Level) : Text :=
  r.lines.flatMap fun
    | .err t => inColour colour t
    | .log n => if n.isAtLeast threshold then n.line ++ ['\n'] else []
    | .out _ | .typed _ => []

/-! ## Lines -/

/-- A coloured line on the first channel. -/
def say (p : Ansi.Paint) (t : Text) : Line := .out (Ansi.paint p t ++ ['\n'])

/-- A red line on the second channel. -/
def complain (t : Text) : Line := .err (Ansi.paint .redLetters t ++ ['\n'])

/-- Notes as lines. -/
def logged (notes : List Note) : List Line := notes.map .log

/-- What is said about a file; if more is wanted, with what would change in it. -/
def report (verbose : Bool) (r : FileResult) : List Line :=
  match r.status with
  | .valid => [say .greenLetters ("Valid file: " ++ r.path.text)]
  | .invalid =>
    say .yellowLetters ("Invalid file: " ++ r.path.text) ::
      if verbose then [.err (Difference.renderWide r.current r.canonical ++ ['\n'])] else []
  | .formatted => [say .yellowLetters ("Formatted file: " ++ r.path.text)]
  | .error => [complain ("Error in file: " ++ r.path.text ++ ": " ++ r.error.getD [])]

/-! ## Failures -/

/-- A reply that ends with a reported error. -/
def failing (tree : Tree) (message : Text) (code : Nat) : Reply :=
  { lines := [complain ("Error: " ++ message)], ending := .exit code, tree := tree }

/-- A reply that ends with a failure that is not reported. -/
def escaping (tree : Tree) (e : Escape) : Reply := { ending := .escaped e, tree := tree }

/-- The code for a configuration that is none. -/
def configCode : Nat := 2

/-- The code for a body that is not what it should be. -/
def formatCode : Nat := 3

/-- The code for a source that lacks what a request needs. -/
def schemaCode : Nat := 4

/-- The reply to a body that is not what it should be. -/
def bodyFailure (tree : Tree) (e : FormatError) : Reply :=
  if e.escapes then escaping tree (.format e) else failing tree e.message formatCode

/-- The reply to what ends the work on files. -/
def fatalFailure (tree : Tree) : Fatal → Reply
  | .body e => bodyFailure tree e
  | .halves => escaping tree .halves

end HttpFile.Command
