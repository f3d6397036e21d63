import HttpFile.Text.Basic

/-!
# `HttpFile.Number.Binary64` — numbers with a binary point

A number with a fraction or an exponent is kept as the nearest number of the 64-bit binary format. A
finite one is a mantissa below `2 ^ 53` times a power of two, so every question about it is one
about integers. Of two neighbours that are equally near, the one with the even mantissa is taken.

## Contents
- **The type.** `Binary64`, with `zero`, `neg` and `withPayload`.
- **Rounding.** `ofRatio`: the nearest number to a quotient of naturals.
- **Exact value.** `ratio`: a finite number as such a quotient.
- **Arithmetic.** `add`, `mul`, each the rounded exact result.
- **Reading.** `ofDecimal`: digits times a power of ten.
-/

namespace HttpFile

/-- A number of the 64-bit binary format. A finite one is `mantissa * 2 ^ exponent`, with its sign;
    the exponent is the least that leaves the mantissa below `2 ^ 53`, and never below `-1074`. What
    is not a number has a payload, which tells one such value from another. -/
inductive Binary64 where
  | finite (negative : Bool) (mantissa : Nat) (exponent : Int)
  | infinite (negative : Bool)
  | nan (payload : Nat)
deriving DecidableEq, Repr

namespace Binary64

/-- The least exponent of the format. -/
def minExponent : Int := -1074

/-- The greatest exponent of the format. -/
def maxExponent : Int := 971

/-- Nought with a sign. -/
def zero (negative : Bool) : Binary64 := .finite negative 0 minExponent

/-- The number with its sign changed. -/
def neg : Binary64 → Binary64
  | .finite s m e => .finite (!s) m e
  | .infinite s => .infinite (!s)
  | .nan p => .nan p

/-- Whether the sign is set. -/
def isNegative : Binary64 → Bool
  | .finite s _ _ => s
  | .infinite s => s
  | .nan _ => false

/-- Whether the number is nought. -/
def isZero : Binary64 → Bool
  | .finite _ m _ => m == 0
  | _ => false

/-- The least mantissa of 53 bits. -/
def leastMantissa : Nat := 4503599627370496

/-- `num / den * 2 ^ (-e)` as a quotient of naturals. -/
def scaled (num den : Nat) (e : Int) : Nat × Nat :=
  if e < 0 then (num * Nat.pow 2 (-e).toNat, den) else (num, den * Nat.pow 2 e.toNat)

/-- The nearest natural to a quotient, a half going to the even neighbour. -/
def roundDiv (num den : Nat) : Nat :=
  let q := num / den
  let twice := 2 * (num % den)
  if twice < den then q else if den < twice then q + 1 else q + q % 2

/-- The exponent with which a positive quotient has a mantissa of 53 bits, within the format. -/
def exponentFor (num den : Nat) : Int :=
  let guess : Int := (num.log2 : Int) - den.log2 - 52
  let (n, d) := scaled num den guess
  let exponent := if n < d * leastMantissa then guess - 1 else guess
  if exponent < minExponent then minExponent else exponent

/-- The nearest number to `num / den`, with a sign. -/
def ofRatio (negative : Bool) (num den : Nat) : Binary64 :=
  if num = 0 ∨ den = 0 then zero negative
  else
    let e := exponentFor num den
    let (n, d) := scaled num den e
    let m := roundDiv n d
    let (m, e) := if m = 2 * leastMantissa then (leastMantissa, e + 1) else (m, e)
    if maxExponent < e then .infinite negative
    else if m = 0 then zero negative
    else .finite negative m e

/-- The nearest number to an integer. -/
def ofInt (n : Int) : Binary64 := ofRatio (n < 0) n.natAbs 1

/-- The magnitude of a finite number as a quotient of naturals. -/
def ratio (mantissa : Nat) (exponent : Int) : Nat × Nat :=
  if exponent < 0 then (mantissa, Nat.pow 2 (-exponent).toNat)
  else (mantissa * Nat.pow 2 exponent.toNat, 1)

/-- The integer that a number is, if it is one. -/
def toInt? : Binary64 → Option Int
  | .finite s m e =>
    let (n, d) := ratio m e
    if n % d = 0 then some (if s then -(n / d : Nat) else (n / d : Nat)) else none
  | _ => none

/-- The value with a payload, if it is not a number. -/
def withPayload : Binary64 → Nat → Binary64
  | .nan _, p => .nan p
  | x, _ => x

/-- Whether two values are the same one, noughts of either sign being one. -/
def same (x y : Binary64) : Bool := x == y || (x.isZero && y.isZero)

/-- A signed number for a magnitude's numerator. -/
def signed (negative : Bool) (n : Nat) : Int := if negative then -(n : Int) else n

/-- The rounded sum. -/
def add : Binary64 → Binary64 → Binary64
  | .nan p, _ => .nan p
  | _, .nan p => .nan p
  | .infinite s, .infinite t => if s = t then .infinite s else .nan 0
  | .infinite s, _ => .infinite s
  | _, .infinite t => .infinite t
  | .finite s m e, .finite t n f =>
    let (a, b) := ratio m e
    let (c, d) := ratio n f
    let sum := signed s (a * d) + signed t (c * b)
    if sum = 0 then zero (s && t) else ofRatio (sum < 0) sum.natAbs (b * d)

/-- The rounded product. -/
def mul : Binary64 → Binary64 → Binary64
  | .nan p, _ => .nan p
  | _, .nan p => .nan p
  | .infinite s, y => if y.isZero then .nan 0 else .infinite (s != y.isNegative)
  | x, .infinite t => if x.isZero then .nan 0 else .infinite (x.isNegative != t)
  | .finite s m e, .finite t n f =>
    let (a, b) := ratio m e
    let (c, d) := ratio n f
    ofRatio (s != t) (a * c) (b * d)

/-- The nearest number to `digits * 10 ^ exponent`. Magnitudes that are beyond the format by far are
    settled without computing the power. -/
def ofDecimal (negative : Bool) (digits : Nat) (exponent : Int) : Binary64 :=
  if digits = 0 then zero negative
  else
    let magnitude := exponent + (Nat.toDigits 10 digits).length
    if 310 < magnitude then .infinite negative
    else if magnitude < -330 then zero negative
    else if exponent < 0 then ofRatio negative digits (Nat.pow 10 (-exponent).toNat)
    else ofRatio negative (digits * Nat.pow 10 exponent.toNat) 1

end Binary64

end HttpFile
