import HttpFile.Number.Binary64

/-!
# `HttpFile.Number.Shortest` — the fewest digits that read back

A number is written with as few digits as possible such that reading them gives the number again;
among the decimals of that length the nearest is taken.

## Contents
- **Search.** `candidates` on one decimal grid, `shortest?` over all of them.
- **Layout.** `Layout`, the choices of a format, and `Layout.write`.
- **This library's format.** `plain`: positional from `1e-4` up to below `1e16`.
-/

namespace HttpFile.Binary64

open Text

/-- A positive decimal: `digits * 10 ^ exponent`. -/
structure Decimal where
  digits : Nat
  exponent : Int
deriving DecidableEq, Repr

/-- The floor of `num / den * 10 ^ (-e)` and whether the remainder exceeds a half, is one, or is
    less. -/
def floorOnGrid (num den : Nat) (e : Int) : Nat × Ordering :=
  let (n, d) :=
    if e < 0 then (num * Nat.pow 10 (-e).toNat, den) else (num, den * Nat.pow 10 e.toNat)
  (n / d, compare (2 * (n % d)) d)

/-- The neighbours of a quotient among the multiples of `10 ^ e`, the nearer one first. -/
def candidates (num den : Nat) (e : Int) : List Decimal :=
  let (low, side) := floorOnGrid num den e
  let lowFirst := match side with
    | .lt => true
    | .gt => false
    | .eq => low % 2 == 0
  if lowFirst then [⟨low, e⟩, ⟨low + 1, e⟩] else [⟨low + 1, e⟩, ⟨low, e⟩]

/-- The decimal exponent of a positive quotient: the number of digits of its integer part, or less
    than one by the number of zeros after the point. -/
def decimalPoint (num den : Nat) : Int :=
  if den ≤ num then ((Nat.toDigits 10 (num / den)).length : Int)
  else
    let up := (Nat.toDigits 10 (den / num)).length
    if den ≤ num * Nat.pow 10 (up - 1) then 2 - (up : Int) else 1 - (up : Int)

/-- The first decimal that reads back as the given number, on grids of more and more digits. -/
def shortest? (mantissa : Nat) (exponent : Int) : Option Decimal :=
  let (num, den) := ratio mantissa exponent
  let point := decimalPoint num den
  (List.range 18).findSome? fun count =>
    (candidates num den (point - (count + 1 : Nat))).find? fun d =>
      ofDecimal false d.digits d.exponent = .finite false mantissa exponent

/-- The decimal of a finite number; if no short one read back it would be the exact one. -/
def decimal (mantissa : Nat) (exponent : Int) : Decimal :=
  match shortest? mantissa exponent with
  | some d => d
  | none =>
    if exponent < 0 then ⟨mantissa * Nat.pow 5 (-exponent).toNat, exponent⟩
    else ⟨mantissa * Nat.pow 2 exponent.toNat, 0⟩

/-! ## Layout -/

/-- The choices of a way to write numbers: which powers of ten are written without an exponent, and
    the texts of the numbers that are not finite. -/
structure Layout where
  leastPositional : Int
  mostPositional : Int
  infinity : String
  notANumber : String

/-- Positional notation from `1e-4` up to below `1e16`, with at least one digit after the point. -/
def plain : Layout := ⟨-4, 15, "inf", "nan"⟩

/-- The digits of a decimal without zeros at the end, and the power of ten of its first digit. -/
def significant (d : Decimal) : Text × Int :=
  let digits := ofNat d.digits
  let kept := trimRightWhere (· == '0') digits
  (kept, d.exponent + digits.length - 1)

/-- Digits with a point so that the first one has the given power of ten. -/
def positional (digits : Text) (power : Int) : Text :=
  if power < 0 then "0." ++ List.replicate ((-power).toNat - 1) '0' ++ digits
  else
    let whole := power.toNat + 1
    let before := digits.take whole ++ List.replicate (whole - digits.length) '0'
    let after := digits.drop whole
    before ++ "." ++ (if after.isEmpty then "0".toList else after)

/-- Digits with an exponent of at least two digits and a sign. -/
def scientific (digits : Text) (power : Int) : Text :=
  let mantissa := match digits with
    | [] => []
    | [d] => [d]
    | d :: more => d :: '.' :: more
  let exponent := ofNat power.natAbs
  let padded := if exponent.length < 2 then '0' :: exponent else exponent
  mantissa ++ ['e', if power < 0 then '-' else '+'] ++ padded

/-- A number in a layout. -/
def Layout.write (layout : Layout) : Binary64 → Text
  | .nan _ => layout.notANumber
  | .infinite s => (if s then "-".toList else []) ++ layout.infinity
  | .finite s m e =>
    let sign := if s then "-".toList else []
    if m = 0 then sign ++ "0.0"
    else
      let (digits, power) := significant (decimal m e)
      if layout.leastPositional ≤ power ∧ power ≤ layout.mostPositional then
        sign ++ positional digits power
      else sign ++ scientific digits power

end HttpFile.Binary64
