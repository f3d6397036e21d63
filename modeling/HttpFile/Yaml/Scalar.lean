import HttpFile.Number.Numeral
import HttpFile.Text.Base64
import HttpFile.Value.Basic
import HttpFile.Yaml.Tag

/-!
# `HttpFile.Yaml.Scalar` — the values of scalars

The type of a scalar says how its text is read. A plain scalar has the form of its type; a scalar
whose type is written may fail to have it.

## Contents
- **Numbers.** `wholeValue`, `fractionValue`.
- **Words.** `truthValue`.
- **Dates.** `timestampValue`.
- **Scalars.** `scalarValue`.
-/

namespace HttpFile.Yaml

open Text

/-! ## Numbers -/

/-- The sign and the rest of a number without its gaps. -/
def signAndRest (t : Text) : Except Failure (Bool × Text) :=
  match t.filter (· ≠ '_') with
  | [] => .error .empty
  | '-' :: rest => .ok (true, rest)
  | '+' :: rest => .ok (false, rest)
  | rest => .ok (false, rest)

/-- A result that has to be there. -/
def inRange {α : Type} : Option α → Except Failure α
  | some a => .ok a
  | none => .error .outOfRange

/-- The number with the given parts to the base of sixty. -/
def sexagesimal (parts : List Int) : Int := parts.foldl (fun n part => 60 * n + part) 0

/-- The whole number of a text without a sign. -/
def unsignedWhole (t : Text) : Except Failure Int :=
  match t with
  | [] => .error .empty
  | ['0'] => .ok 0
  | '0' :: 'b' :: rest => inRange (integerInBase? 2 rest)
  | '0' :: 'x' :: rest => inRange (integerInBase? 16 rest)
  | '0' :: _ => inRange (integerInBase? 8 t)
  | _ =>
    if t.contains ':' then (inRange ((fieldsAt ':' t).mapM integer?)).map sexagesimal
    else inRange (integer? t)

/-- The whole number of a text. -/
def wholeValue (t : Text) : Except Failure Value := do
  let (negative, rest) ← signAndRest t
  let n ← unsignedWhole rest
  return .int (if negative then -n else n)

/-- The sum of parts, the last one first, each with its power of sixty. -/
def sumOfParts (base : Nat) (sum : Binary64) : List Binary64 → Except Failure Binary64
  | [] => .ok sum
  | part :: rest =>
    match Binary64.ofInt base with
    | .infinite _ => .error .tooLarge
    | factor => sumOfParts (60 * base) (sum.add (part.mul factor)) rest

/-- The word for what is not a number. -/
def notANumber : Text := ".nan"

/-- The number of a text without a sign. -/
def unsignedFraction (t : Text) : Except Failure Binary64 :=
  if t = ".inf".toList then .ok (.infinite false)
  else if t = notANumber then .ok (.nan 0)
  else if t.contains ':' then do
    let parts ← inRange ((fieldsAt ':' t).mapM Binary64.read?)
    sumOfParts 1 (.zero false) parts.reverse
  else inRange (Binary64.read? t)

/-- The number with a binary point of the text of a node. The word for what is not a number always
    gives the same value; any other text that gives none gives a value of its node's own. -/
def fractionValue (node : Nat) (t : Text) : Except Failure Value := do
  let (negative, rest) ← signAndRest (lower t)
  let x ← unsignedFraction rest
  let x := if rest = notANumber then x else x.withPayload (node + 1)
  return .float (if negative then x.neg else x)

/-! ## Words -/

/-- The truth value of a word. -/
def truthValue (t : Text) : Except Failure Value :=
  let word := lower t
  let isOneOf (words : List String) : Bool := words.any fun w => w.toList = word
  if isOneOf ["yes", "true", "on"] then .ok (.bool true)
  else if isOneOf ["no", "false", "off"] then .ok (.bool false)
  else .error .unknownWord

/-! ## Dates -/

/-- The offset of a zone in seconds; it is less than a day. -/
def offsetOf : Option (Option Char × Text × Text) → Except Failure (Option Int)
  | none => .ok none
  | some (none, _, _) => .ok (some 0)
  | some (some sign, hours, minutes) =>
    let seconds := digitsValue hours * 3600 + digitsValue minutes * 60
    if seconds < 86400 then .ok (some (if sign = '-' then -(seconds : Int) else seconds))
    else .error .outOfRange

/-- The microseconds of the digits behind a point. -/
def microseconds (digits : Text) : Nat :=
  let six := digits.take 6
  digitsValue (six ++ List.replicate (6 - six.length) '0')

/-- The date or moment of a text. -/
def timestampValue (t : Text) : Except Failure Value := do
  match stamp? (withoutNewline t) with
  | none => throw .formless
  | some s =>
    let date : Date := ⟨digitsValue s.year, digitsValue s.month, digitsValue s.day⟩
    match s.clock with
    | none => if date.isValid then return .date date else throw .outOfRange
    | some (hour, minute, second) =>
      let offset ← offsetOf s.zone
      let m : Moment :=
        { date := date, hour := digitsValue hour, minute := digitsValue minute,
          second := digitsValue second, microsecond := microseconds s.fraction, offset := offset }
      if m.isValid then return .moment m else throw .outOfRange

/-! ## Scalars -/

/-- The text of a scalar as a value. -/
def Content.value : Content → Value
  | .text t => .str t
  | .halves w => .halves w

/-- The bytes of a scalar. -/
def bytesValue (t : Text) : Except Failure Value :=
  if t.all fun c => c.toNat < 0x80 then
    match Base64.decode? t with
    | some bs => .ok (.bytes bs)
    | none => .error .malformed
  else .error .malformed

/-- The value of the node with a number that is a scalar of a type. -/
def scalarValue (node : Nat) (tag : Tag) (content : Content) : Except Failure Value :=
  match tag with
  | .null => .ok .null
  | .bool => truthValue content.readable
  | .int => wholeValue content.readable
  | .float => fractionValue node content.readable
  | .str => .ok content.value
  | .timestamp => timestampValue content.readable
  | .binary => bytesValue content.readable
  | _ => .error .malformed

end HttpFile.Yaml
