import HttpFile.Text.Basic
import HttpFile.Unicode.Decimal

/-!
# `HttpFile.Text.Numeral` — reading whole numbers

A whole number is written in decimal digits of any script, with a sign in front and single
underscores between digits if wanted, and with blanks around it. The time that it takes to convert a
numeral grows faster than its length, so one of more than `maxDigits` digits is refused.

## Contents
- **Digits.** `digitsFrom?`.
- **Bound.** `maxDigits`, `isConvertible`.
- **Numbers.** `integer?`.
-/

namespace HttpFile.Text

open Unicode

/-- The number of the digits read so far and those to come. An underscore must be followed by a
    digit. -/
def digitsFrom? (n : Nat) : Text → Option Nat
  | [] => some n
  | '_' :: c :: rest => (decimalValue? c).bind fun d => digitsFrom? (10 * n + d) rest
  | c :: rest => (decimalValue? c).bind fun d => digitsFrom? (10 * n + d) rest

/-- The number of a run of at least one digit. -/
def natural? : Text → Option Nat
  | [] => none
  | c :: rest => (decimalValue? c).bind fun d => digitsFrom? d rest

/-- A blank that may stand around a number: the information separators may not. -/
def isNumeralBlank (c : Char) : Bool := isBlank c && !(0x1C ≤ c.toNat && c.toNat ≤ 0x1F)

/-- The most digits that are converted. -/
def maxDigits : Nat := 4300

/-- Whether a numeral has no more digits than are converted. Underscores do not count, zeros in
    front do. -/
def isConvertible (t : Text) : Bool := (t.filter (· ≠ '_')).length ≤ maxDigits

/-- The number of a run of digits that is converted. -/
def convertible? (t : Text) : Option Nat := if isConvertible t then natural? t else none

/-- The whole number that a text writes. -/
def integer? (t : Text) : Option Int :=
  match trimWhere isNumeralBlank t with
  | '-' :: rest => (convertible? rest).map fun n => -(n : Int)
  | '+' :: rest => (convertible? rest).map fun n => (n : Int)
  | rest => (convertible? rest).map fun n => (n : Int)

end HttpFile.Text
