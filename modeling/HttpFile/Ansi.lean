import HttpFile.Text.Basic

/-!
# `HttpFile.Ansi` — colours on a terminal

Coloured text stands between an escape sequence that switches a colour on and one that resets it. A
terminal without colours gets the text with all such sequences removed.

## Contents
- **Colours.** `Paint`, `paint`.
- **Removal.** `stripSequences`.
-/

namespace HttpFile.Ansi

/-- A colour of the letters or of the ground. -/
inductive Paint where
  | redLetters
  | greenLetters
  | yellowLetters
  | redGround
  | greenGround
deriving DecidableEq, Repr

/-- The number of a colour. -/
def Paint.code : Paint → Text
  | .redLetters => "31"
  | .greenLetters => "32"
  | .yellowLetters => "33"
  | .redGround => "41"
  | .greenGround => "42"

/-- The character that opens a sequence. -/
def escapeChar : Char := '\x1b'

/-- The sequence that switches a colour on. -/
def Paint.on (p : Paint) : Text := escapeChar :: '[' :: p.code ++ ['m']

/-- The sequence that resets all colours. -/
def reset : Text := [escapeChar, '[', '0', 'm']

/-- A text in a colour. -/
def paint (p : Paint) (t : Text) : Text := p.on ++ t ++ reset

/-- A character of the parameters of a sequence. -/
def isParameter (c : Char) : Bool := '0' ≤ c && c ≤ '?'

/-- A character between the parameters of a sequence and its last character. -/
def isIntermediate (c : Char) : Bool := ' ' ≤ c && c ≤ '/'

/-- A character that ends a sequence. -/
def isFinal (c : Char) : Bool := '@' ≤ c && c ≤ '~'

/-- The length of the sequence that an escape character opens, given what follows it. -/
def sequenceLength? : Text → Option Nat
  | '[' :: rest =>
    let behind := (rest.dropWhile isParameter).dropWhile isIntermediate
    match behind with
    | c :: _ => if isFinal c then some (rest.length - behind.length + 3) else none
    | [] => none
  | _ => none

/-- The text without sequences. The number counts the characters of a sequence that are still to be
    passed over. -/
def stripFrom : Nat → Text → Text
  | _, [] => []
  | skip + 1, _ :: rest => stripFrom skip rest
  | 0, c :: rest =>
    if c = escapeChar then
      match sequenceLength? rest with
      | some n => stripFrom (n - 1) rest
      | none => c :: stripFrom 0 rest
    else c :: stripFrom 0 rest

/-- The text without sequences. -/
def stripSequences (t : Text) : Text := stripFrom 0 t

end HttpFile.Ansi
