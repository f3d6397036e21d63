import HttpFile.Text.Numeral
import HttpFile.Value.Basic

/-!
# `HttpFile.Json.Reader` — reading JSON

The reader takes a text apart from left to right. A failure keeps the rest of the text from the
place it speaks about, so positions are computed only when a failure is reported. Beyond the
standard, the words `NaN`, `Infinity` and `-Infinity` are numbers. A string may hold escapes of halves
of characters; two that form a pair are read as its character, and one alone stays a half.

## Contents
- **Failures.** `Cause`, `Failure`, and the positions `Located` in a text.
- **Lexemes.** `string`, `number?`, `skipBlanks`; `isShort`.
- **Values.** `value`, with a bound on the nesting that the length of the text supplies: a bracket
  takes two steps.
- **Texts.** `parse`.
-/

namespace HttpFile.Json

open Text

/-! ## Failures -/

/-- Why a text is not JSON. -/
inductive Cause where
  | value
  | propertyName
  | colon
  | comma
  | extraData
  | unterminatedString
  | controlCharacter
  | escape
  | unicodeEscape
  | byteOrderMark
  | digits
deriving DecidableEq, Repr

/-- What is said about a cause. -/
def Cause.message : Cause → String
  | .value => "Expecting value"
  | .propertyName => "Expecting property name enclosed in double quotes"
  | .colon => "Expecting ':' delimiter"
  | .comma => "Expecting ',' delimiter"
  | .extraData => "Extra data"
  | .unterminatedString => "Unterminated string starting at"
  | .controlCharacter => "Invalid control character at"
  | .escape => "Invalid \\escape"
  | .unicodeEscape => "Invalid \\uXXXX escape"
  | .byteOrderMark => "Unexpected UTF-8 BOM (decode using utf-8-sig)"
  | .digits => "Exceeds the limit for integer string conversion"

/-- A cause and the text from the place it speaks about. -/
structure Failure where
  cause : Cause
  rest : Text
deriving DecidableEq, Repr

/-- A cause and the place it speaks about: the number of characters before it, and its line and
    column counted from one. -/
structure Located where
  cause : Cause
  offset : Nat
  line : Nat
  column : Nat
deriving DecidableEq, Repr

/-- The place of a failure in the whole text. -/
def Failure.locate (whole : Text) (f : Failure) : Located :=
  let before := whole.take (whole.length - f.rest.length)
  { cause := f.cause
    offset := before.length
    line := before.count '\n' + 1
    column := (before.reverse.takeWhile (· ≠ '\n')).length + 1 }

/-- A failure as one line. -/
def Located.message (l : Located) : Text :=
  l.cause.message.toList ++ ": line " ++ ofNat l.line ++ " column " ++ ofNat l.column ++
    " (char " ++ ofNat l.offset ++ ")"

/-! ## Lexemes -/

/-- White space between lexemes. -/
def isSpace (c : Char) : Bool := c == ' ' || c == '\t' || c == '\n' || c == '\r'

/-- The text from the next lexeme on. -/
def skipBlanks (t : Text) : Text := t.dropWhile isSpace

/-- The character that a one-letter escape stands for. -/
def simpleEscape? : Char → Option Char
  | '"' => some '"'
  | '\\' => some '\\'
  | '/' => some '/'
  | 'b' => some '\x08'
  | 'f' => some '\x0c'
  | 'n' => some '\n'
  | 'r' => some '\r'
  | 't' => some '\t'
  | _ => none

/-- The number of four hexadecimal digits at the start of a text, and the text after them, which
    must not be empty. -/
def codeUnit? : Text → Option (Nat × Text)
  | a :: b :: c :: d :: next :: rest => (hexValue? [a, b, c, d]).map (·, next :: rest)
  | _ => none

/-- The character of an escape by code units, or half of one, and the number of characters it takes
    with its backslash. The text starts at the letter `u`. -/
def unicodeEscape (t : Text) : Except Failure ((Char ⊕ Half) × Nat) :=
  match codeUnit? (t.drop 1) with
  | none => .error ⟨.unicodeEscape, t⟩
  | some (high, after) =>
    match after with
    | '\\' :: 'u' :: more =>
      if isHighSurrogate high && 4 < more.length then
        match codeUnit? more with
        | none => .error ⟨.unicodeEscape, 'u' :: more⟩
        | some (low, _) =>
          if isLowSurrogate low then .ok (.inl (pairChar high low), 12) else .ok (ofCode high, 6)
      else .ok (ofCode high, 6)
    | _ => .ok (ofCode high, 6)

/-- The character of the escape after a backslash, or half of one, and the number of characters it
    takes with the backslash. `opening` is the text from the opening quote of the string on. -/
def escapeSequence (opening : Text) : Text → Except Failure ((Char ⊕ Half) × Nat)
  | [] => .error ⟨.unterminatedString, opening⟩
  | 'u' :: rest => unicodeEscape ('u' :: rest)
  | letter :: rest =>
    match simpleEscape? letter with
    | some c => .ok (.inl c, 2)
    | none => .error ⟨.escape, '\\' :: letter :: rest⟩

/-- The contents of a string up to its closing quote, and the text after it. The number counts the
    characters of an escape that are still to be passed over. -/
def string (opening : Text) : Nat → Text → Except Failure (Wide × Text)
  | _, [] => .error ⟨.unterminatedString, opening⟩
  | skip + 1, _ :: rest => string opening skip rest
  | 0, c :: rest =>
    if c = '"' then .ok ([], rest)
    else if c = '\\' then
      match escapeSequence opening rest with
      | .error e => .error e
      | .ok (d, width) => (string opening (width - 1) rest).map fun (s, r) => (d :: s, r)
    else if c.toNat ≤ 0x1F then .error ⟨.controlCharacter, c :: rest⟩
    else (string opening 0 rest).map fun (s, r) => (.inl c :: s, r)

/-- The digits at the start of a text, and the text after them, if there is a digit. -/
def digits? (t : Text) : Option (Text × Text) :=
  match t.takeWhile Char.isDigit with
  | [] => none
  | ds => some (ds, t.dropWhile Char.isDigit)

/-- The integer part of a number: nought alone, or digits that do not start with it. -/
def integerPart? : Text → Option (Text × Text)
  | '0' :: rest => some (['0'], rest)
  | t => digits? t

/-- The digits after a point, if there are any. -/
def fraction (t : Text) : Option Text × Text :=
  match t with
  | '.' :: rest =>
    match digits? rest with
    | some (ds, after) => (some ds, after)
    | none => (none, t)
  | _ => (none, t)

/-- The power of ten after an exponent mark, if there is one. -/
def exponent (t : Text) : Option Int × Text :=
  match t with
  | mark :: rest =>
    if mark = 'e' || mark = 'E' then
      let (negative, unsigned) := match rest with
        | '-' :: r => (true, r)
        | '+' :: r => (false, r)
        | r => (false, r)
      match digits? unsigned with
      | some (ds, after) =>
        (some (if negative then -(digitsValue ds : Int) else digitsValue ds), after)
      | none => (none, t)
    else (none, t)
  | [] => (none, t)

/-- The number at the start of a text: an integer, or a number with a binary point if it has a
    fraction or an exponent. -/
def number? (t : Text) : Option (Value × Text) :=
  let (negative, unsigned) := match t with
    | '-' :: r => (true, r)
    | r => (false, r)
  match integerPart? unsigned with
  | none => none
  | some (whole, rest) =>
    let (frac, rest) := fraction rest
    let (power, rest) := exponent rest
    match frac, power with
    | none, none =>
      let n : Int := digitsValue whole
      some (.int (if negative then -n else n), rest)
    | _, _ =>
      let fracDigits := frac.getD []
      some (.float (Binary64.ofDecimal negative (digitsValue (whole ++ fracDigits))
        (power.getD 0 - fracDigits.length)), rest)

/-- The words that are values. -/
def constants : List (String × Value) :=
  [("null", .null), ("true", .bool true), ("false", .bool false), ("NaN", .float (.nan 0)),
    ("Infinity", .float (.infinite false)), ("-Infinity", .float (.infinite true))]

/-- The word or number at the start of a text. -/
def scalar? (t : Text) : Option (Value × Text) :=
  match constants.findSome? fun (word, v) => (word.toList.isPrefixOf? t).map fun r => (v, r) with
  | some found => some found
  | none => number? t

/-- Whether a value is no integer with more digits than are converted. -/
def isShort : Value → Bool
  | .int n => (ofNat n.natAbs).length ≤ maxDigits
  | _ => true

/-! ## Values -/

mutual
/-- The value at the start of a text, and the text after it. -/
def value : Nat → Text → Except Failure (Value × Text)
  | 0, t => .error ⟨.value, t⟩
  | fuel + 1, t =>
    match t with
    | '"' :: rest => (string t 0 rest).map fun (s, r) => (.ofWide s, r)
    | '{' :: rest =>
      match skipBlanks rest with
      | '}' :: after => .ok (.dict [], after)
      | inner => (members fuel [] inner).map fun (entries, r) => (.dict entries, r)
    | '[' :: rest =>
      match skipBlanks rest with
      | ']' :: after => .ok (.list [], after)
      | inner => (elements fuel inner).map fun (items, r) => (.list items, r)
    | _ =>
      match scalar? t with
      | some (v, after) => if isShort v then .ok (v, after) else .error ⟨.digits, t⟩
      | none => .error ⟨.value, t⟩

/-- The values of a list up to its closing bracket. -/
def elements : Nat → Text → Except Failure (List Value × Text)
  | 0, t => .error ⟨.value, t⟩
  | fuel + 1, t =>
    match value fuel t with
    | .error e => .error e
    | .ok (v, after) =>
      match skipBlanks after with
      | ']' :: rest => .ok ([v], rest)
      | ',' :: rest => (elements fuel (skipBlanks rest)).map fun (vs, r) => (v :: vs, r)
      | other => .error ⟨.comma, other⟩

/-- The members of an object up to its closing brace, added to those already read. -/
def members : Nat → List (Value × Value) → Text → Except Failure (List (Value × Value) × Text)
  | 0, _, t => .error ⟨.value, t⟩
  | fuel + 1, entries, t =>
    match t with
    | '"' :: rest =>
      match string t 0 rest with
      | .error e => .error e
      | .ok (key, after) =>
        match skipBlanks after with
        | ':' :: body =>
          match value fuel (skipBlanks body) with
          | .error e => .error e
          | .ok (v, more) =>
            let entries := Value.put entries (.ofWide key) v
            match skipBlanks more with
            | '}' :: rest => .ok (entries, rest)
            | ',' :: rest => members fuel entries (skipBlanks rest)
            | other => .error ⟨.comma, other⟩
        | other => .error ⟨.colon, other⟩
    | _ => .error ⟨.propertyName, t⟩
end

/-! ## Texts -/

/-- The value of a whole text. -/
def read (t : Text) : Except Failure Value :=
  match t with
  | '\uFEFF' :: _ => .error ⟨.byteOrderMark, t⟩
  | _ =>
    match value (2 * t.length + 2) (skipBlanks t) with
    | .error e => .error e
    | .ok (v, after) =>
      match skipBlanks after with
      | [] => .ok v
      | extra => .error ⟨.extraData, extra⟩

/-- The value of a whole text, failures with their place. -/
def parse (t : Text) : Except Located Value :=
  match read t with
  | .ok v => .ok v
  | .error e => .error (e.locate t)

end HttpFile.Json
