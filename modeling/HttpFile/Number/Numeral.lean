import HttpFile.Number.Binary64
import HttpFile.Text.Casing
import HttpFile.Text.Numeral

/-!
# `HttpFile.Number.Numeral` — reading numbers in other notations

Whole numbers may be written to other bases, and numbers with a binary point in decimal notation.

## Contents
- **Whole numbers.** `integerInBase?`.
- **Numbers with a binary point.** `Binary64.read?`.
-/

namespace HttpFile

open Text Unicode

/-! ## Whole numbers -/

/-- The value of a digit to a base. -/
def digitInBase? (base : Nat) (c : Char) : Option Nat :=
  ((decimalValue? c).orElse fun _ => hexDigit? c).filter (· < base)

/-- The number that digits to a base write; there is at least one. -/
def naturalInBase? (base : Nat) (t : Text) : Option Nat :=
  if t.isEmpty then none
  else t.foldlM (fun n c => (digitInBase? base c).map (base * n + ·)) 0

/-- The letter that may stand behind a nought in front of digits to a base. -/
def baseLetter : Nat → Char
  | 2 => 'b'
  | 8 => 'o'
  | _ => 'x'

/-- Digits without the nought and the letter of their base. -/
def withoutBase (base : Nat) : Text → Text
  | '0' :: c :: rest => if c.toLower = baseLetter base then rest else '0' :: c :: rest
  | t => t

/-- The whole number that a text writes to a base, with a sign and blanks around it if wanted. -/
def integerInBase? (base : Nat) (t : Text) : Option Int :=
  match trimWhere isNumeralBlank t with
  | '-' :: rest => (naturalInBase? base (withoutBase base rest)).map fun n => -(n : Int)
  | '+' :: rest => (naturalInBase? base (withoutBase base rest)).map fun n => (n : Int)
  | rest => (naturalInBase? base (withoutBase base rest)).map fun n => (n : Int)

/-! ## Numbers with a binary point -/

namespace Binary64

/-- The value of an exponent: nothing, or a whole number behind a letter. -/
def exponent? : Text → Option Int
  | [] => some 0
  | c :: '-' :: rest => if c.toLower = 'e' then (natural? rest).map fun n => -(n : Int) else none
  | c :: '+' :: rest => if c.toLower = 'e' then (natural? rest).map fun n => (n : Int) else none
  | c :: rest => if c.toLower = 'e' then (natural? rest).map fun n => (n : Int) else none

/-- Whether a character is a decimal digit. -/
def isDecimal (c : Char) : Bool := (decimalValue? c).isSome

/-- The number of a run of decimal digits. -/
def decimalRun (t : Text) : Nat := t.foldl (fun n c => 10 * n + (decimalValue? c).getD 0) 0

/-- The number that a text without a sign writes: digits, which may have a point among them or
    beside them, then an exponent. -/
def readUnsigned? (negative : Bool) (t : Text) : Option Binary64 :=
  let word := lower t
  if word = "inf".toList || word = "infinity".toList then some (.infinite negative)
  else if word = "nan".toList then some (.nan 0)
  else
    let whole := t.takeWhile isDecimal
    let rest := t.dropWhile isDecimal
    let (fraction, rest) := match rest with
      | '.' :: more => (more.takeWhile isDecimal, more.dropWhile isDecimal)
      | _ => ([], rest)
    if whole.isEmpty && fraction.isEmpty then none
    else (exponent? rest).map fun e =>
      ofDecimal negative (decimalRun (whole ++ fraction)) (e - fraction.length)

/-- The number that a text writes, with a sign and blanks around it if wanted. -/
def read? (t : Text) : Option Binary64 :=
  match trimWhere isNumeralBlank t with
  | '-' :: rest => readUnsigned? true rest
  | '+' :: rest => readUnsigned? false rest
  | rest => readUnsigned? false rest

end Binary64

end HttpFile
