import HttpFile.Yaml.Token

/-!
# `HttpFile.Yaml.Tag` — the types of nodes

Every node has a type. It is written as a tag, or follows from the kind of the node, or, for a plain
scalar, from its form.

## Contents
- **Types.** `Tag`, `Tag.ofText`.
- **Forms.** `withoutNewline`, `isTruthWord`, `isNullWord`, `isFraction`, `isWhole`, `isTimestamp`.
- **Plain scalars.** `Tag.ofForm`, `Tag.ofPlain`.
-/

namespace HttpFile.Yaml

open Text

/-- The type of a node. -/
inductive Tag where
  | null
  | bool
  | int
  | float
  | str
  | timestamp
  | binary
  | merge
  | value
  | seq
  | map
  | set
  | omap
  | pairs
  /-- A type that is not known. -/
  | foreign
deriving DecidableEq, Repr

/-- The address that the tags of known types start with. -/
def coreStem : Text := "tag:yaml.org,2002:"

/-- The type that a written tag names. -/
def Tag.ofText (t : Text) : Tag :=
  let known : List (Text × Tag) := [
    ("null", .null), ("bool", .bool), ("int", .int), ("float", .float), ("str", .str),
    ("timestamp", .timestamp), ("binary", .binary), ("merge", .merge), ("value", .value),
    ("seq", .seq), ("map", .map), ("set", .set), ("omap", .omap), ("pairs", .pairs)]
  if coreStem.isPrefixOf t then (known.lookup (t.drop coreStem.length)).getD .foreign else .foreign

/-! ## Forms -/

/-- A text without a newline at its end. One newline there does not change the form of a scalar. -/
def withoutNewline (t : Text) : Text := if endsWith t ['\n'] then t.dropLast else t

/-- A word for a truth value: in small letters, with a capital, or in capitals. -/
def isTruthWord (t : Text) : Bool :=
  ["yes", "Yes", "YES", "no", "No", "NO", "true", "True", "TRUE", "false", "False", "FALSE", "on",
    "On", "ON", "off", "Off", "OFF"].any fun w => w.toList = t

/-- A word for nothing. -/
def isNullWord (t : Text) : Bool := ["", "~", "null", "Null", "NULL"].any fun w => w.toList = t

/-- A text without a sign in front. -/
def unsigned : Text → Text
  | '+' :: rest | '-' :: rest => rest
  | t => t

/-- A digit or an underscore. -/
def isDigitOrGap (c : Char) : Bool := c.isDigit || c == '_'

/-- Whether a text is not empty and of one class. -/
def allOf (p : Char → Bool) (t : Text) : Bool := !t.isEmpty && t.all p

/-- Digits with gaps, the first of a class. -/
def isDigits (first : Char → Bool) : Text → Bool
  | c :: rest => first c && rest.all isDigitOrGap
  | [] => false

/-- A part of a number to the base of sixty: one digit, or two of which the first is below six. -/
def isSixtieth : Text → Bool
  | [c] => c.isDigit
  | [a, b] => '0' ≤ a && a ≤ '5' && b.isDigit
  | _ => false

/-- Parts between colons, of which there are at least two: digits, then parts to the base of
    sixty. -/
def isSexagesimal (first : Char → Bool) (t : Text) : Bool :=
  match fieldsAt ':' t with
  | head :: part :: parts => isDigits first head && (part :: parts).all isSixtieth
  | _ => false

/-- What may stand behind the digits of a fraction: nothing, or an exponent with a sign. -/
def isExponent : Text → Bool
  | [] => true
  | e :: sign :: digits =>
    (e == 'e' || e == 'E') && (sign == '+' || sign == '-') && allOf Char.isDigit digits
  | _ => false

/-- The form of a number with a point. -/
def isFraction (t : Text) : Bool :=
  match cutAt '.' (unsigned t) with
  | (_, none) => false
  | (whole, some rest) =>
    let word (w : String) : Bool := w.toList = rest
    let exponent := rest.dropWhile isDigitOrGap
    if whole.isEmpty then
      word "inf" || word "Inf" || word "INF" ||
        (unsigned t == t &&
          (word "nan" || word "NaN" || word "NAN" ||
            (isDigits Char.isDigit (rest.takeWhile isDigitOrGap) && isExponent exponent)))
    else
      (isDigits Char.isDigit whole && isExponent exponent) ||
        (isSexagesimal Char.isDigit whole && exponent.isEmpty)

/-- A digit that is not nought. -/
def isPositiveDigit (c : Char) : Bool := c.isDigit && c != '0'

/-- The form of a whole number: binary, octal, hexadecimal, decimal or to the base of sixty. -/
def isWhole (t : Text) : Bool :=
  let u := unsigned t
  isDigits isPositiveDigit u || isSexagesimal isPositiveDigit u ||
    match u with
    | ['0'] => true
    | '0' :: 'b' :: rest => allOf (fun c => c == '0' || c == '1' || c == '_') rest
    | '0' :: 'x' :: rest => allOf (fun c => (hexDigit? c).isSome || c == '_') rest
    | '0' :: rest => allOf (fun c => ('0' ≤ c && c ≤ '7') || c == '_') rest
    | _ => false

/-! ## Timestamps -/

/-- The parts of a timestamp as they are written. -/
structure Stamp where
  year : Text
  month : Text
  day : Text
  clock : Option (Text × Text × Text) := none
  fraction : Text := []
  /-- The sign, the hours and the minutes of the offset; no sign stands for universal time. -/
  zone : Option (Option Char × Text × Text) := none
deriving DecidableEq, Repr

/-- One or two digits in front of a text, and the rest. -/
def upToTwoDigits : Text → Option (Text × Text)
  | a :: b :: rest =>
    if !a.isDigit then none else if b.isDigit then some ([a, b], rest) else some ([a], b :: rest)
  | [a] => if a.isDigit then some ([a], []) else none
  | [] => none

/-- Two digits in front of a text, and the rest. -/
def twoDigits : Text → Option (Text × Text)
  | a :: b :: rest => if a.isDigit && b.isDigit then some ([a, b], rest) else none
  | _ => none

/-- A character in front of a text, passed. -/
def passChar (c : Char) : Text → Option Text
  | d :: rest => if c = d then some rest else none
  | [] => none

/-- The zone at the end of a timestamp. -/
def zone? (t : Text) : Option (Option (Option Char × Text × Text)) := do
  match t.dropWhile Unicode.isGap with
  | [] => if t.isEmpty then some none else none
  | ['Z'] => some (some (none, [], []))
  | sign :: rest =>
    if sign != '+' && sign != '-' then none
    else
      let (hours, rest) ← upToTwoDigits rest
      if rest.isEmpty then some (some (some sign, hours, []))
      else
        let (minutes, rest) ← twoDigits (← passChar ':' rest)
        if rest.isEmpty then some (some (some sign, hours, minutes)) else none

/-- What separates the date from the clock: a letter or blanks. -/
def passDivider : Text → Option Text
  | 'T' :: rest | 't' :: rest => some rest
  | c :: rest => if Unicode.isGap c then some (rest.dropWhile Unicode.isGap) else none
  | [] => none

/-- The parts of a timestamp. -/
def stamp? (t : Text) : Option Stamp := do
  let (y1, rest) ← twoDigits t
  let (y2, rest) ← twoDigits rest
  let (month, rest) ← upToTwoDigits (← passChar '-' rest)
  let (day, rest) ← upToTwoDigits (← passChar '-' rest)
  if rest.isEmpty then some { year := y1 ++ y2, month := month, day := day }
  else
    let (hour, rest) ← upToTwoDigits (← passDivider rest)
    let (minute, rest) ← twoDigits (← passChar ':' rest)
    let (second, rest) ← twoDigits (← passChar ':' rest)
    let (fraction, rest) := match rest with
      | '.' :: digits => (digits.takeWhile Char.isDigit, digits.dropWhile Char.isDigit)
      | _ => ([], rest)
    let zone ← zone? rest
    some
      { year := y1 ++ y2, month := month, day := day, clock := some (hour, minute, second),
        fraction := fraction, zone := zone }

/-- The form of a timestamp: a date alone has two digits for month and day. -/
def isTimestamp (t : Text) : Bool :=
  match stamp? t with
  | some s => s.clock.isSome || (s.month.length == 2 && s.day.length == 2)
  | none => false

/-! ## Plain scalars -/

/-- The type that the form of a scalar gives it. -/
def Tag.ofForm (t : Text) : Tag :=
  if isTruthWord t then .bool
  else if isFraction t then .float
  else if isWhole t then .int
  else if t = "<<".toList then .merge
  else if isNullWord t then .null
  else if isTimestamp t then .timestamp
  else if t = "=".toList then .value
  else .str

/-- The type of a scalar without a tag of its own. A newline alone is a text. -/
def Tag.ofPlain (t : Text) : Tag := if t = ['\n'] then .str else .ofForm (withoutNewline t)

end HttpFile.Yaml
