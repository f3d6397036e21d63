import HttpFile.Text.Lines
import HttpFile.Text.Surrogate

/-!
# `HttpFile.GraphQL.Token` — the lexemes of a query document

A query document is a sequence of names, numbers, strings and punctuators. Blanks, commas, byte
order marks and comments between them mean nothing. The lexemes are found by a recursion on the
text; a fault ends the sequence, and it matters only if the parser gets that far.

## Contents
- **Tokens.** `Punctuator`, `Token`, and how messages name them.
- **Faults.** `Fault` and its `message`.
- **Strings.** Escapes, plain strings, and block strings with their common indentation removed.
- **Numbers.** `number`.
- **Documents.** `lexemes`.
-/

namespace HttpFile.GraphQL

open Text

/-! ## Tokens -/

/-- The marks of the language. -/
inductive Punctuator where
  | bang | dollar | ampersand | parenL | parenR | spread | colon | equals | at | bracketL | bracketR
  | braceL | pipe | braceR
deriving DecidableEq, Repr

/-- A mark as it is written. -/
def Punctuator.text : Punctuator → Text
  | .bang => ['!']
  | .dollar => ['$']
  | .ampersand => ['&']
  | .parenL => ['(']
  | .parenR => [')']
  | .spread => ['.', '.', '.']
  | .colon => [':']
  | .equals => ['=']
  | .at => ['@']
  | .bracketL => ['[']
  | .bracketR => [']']
  | .braceL => ['{']
  | .pipe => ['|']
  | .braceR => ['}']

/-- The marks of one character. -/
def punctuator? : Char → Option Punctuator
  | '!' => some .bang
  | '$' => some .dollar
  | '&' => some .ampersand
  | '(' => some .parenL
  | ')' => some .parenR
  | ':' => some .colon
  | '=' => some .equals
  | '@' => some .at
  | '[' => some .bracketL
  | ']' => some .bracketR
  | '{' => some .braceL
  | '|' => some .pipe
  | '}' => some .braceR
  | _ => none

/-- A lexeme. -/
inductive Token where
  | punctuator (p : Punctuator)
  | name (t : Text)
  | int (t : Text)
  | float (t : Text)
  | string (t : Text)
  | block (t : Text)
  | eof
deriving DecidableEq, Repr

/-- A text between apostrophes. -/
def inApostrophes (t : Text) : Text := '\'' :: t ++ ['\'']

/-- How messages name a lexeme. -/
def Token.description : Token → Text
  | .punctuator p => inApostrophes p.text
  | .name t => "Name " ++ inApostrophes t
  | .int t => "Int " ++ inApostrophes t
  | .float t => "Float " ++ inApostrophes t
  | .string t => "String " ++ inApostrophes t
  | .block t => "BlockString " ++ inApostrophes t
  | .eof => "<EOF>"

/-- What a lexeme says, if it is not a mark. -/
def Token.value? : Token → Option Text
  | .name t | .int t | .float t | .string t | .block t => some t
  | _ => none

/-! ## Faults -/

/-- Why a text is not a query document. -/
inductive Fault where
  | unexpectedCharacter (rest : Text)
  | singleQuote
  | twoDots
  | missingWholePart (digits : Text)
  | digitExpected (rest : Text)
  | digitAfterZero (rest : Text)
  | unterminatedString
  | characterEscape (shown : Text)
  | unicodeEscape (shown : Text)
  | expected (what : Text) (found : Token)
  | unexpected (found : Token)
  | constantVariable (name : Text)
  | reservedEnumValue (found : Token)
  | strayDescription
  | describedShorthand
  | tooDeep
deriving DecidableEq, Repr

/-- How messages name the character at the start of a text. -/
def characterShown : Text → Text
  | [] => "<EOF>"
  | c :: _ =>
    if 0x20 ≤ c.toNat && c.toNat ≤ 0x7E then inApostrophes [c]
    else
      let digits := (Nat.toDigits 16 c.toNat).map Char.toUpper
      "U+" ++ List.replicate (4 - digits.length) '0' ++ digits

/-- What is said about a fault. -/
def Fault.description : Fault → Text
  | .unexpectedCharacter rest => "Unexpected character: " ++ characterShown rest ++ "."
  | .singleQuote =>
    "Unexpected single quote character ('), did you mean to use a double quote (\")?"
  | .twoDots => "Unexpected '..', did you mean '...'?"
  | .missingWholePart digits =>
    "Invalid number, expected digit before '.', did you mean " ++ inApostrophes ("0." ++ digits) ++
      "?"
  | .digitExpected rest => "Invalid number, expected digit but got: " ++ characterShown rest ++ "."
  | .digitAfterZero rest =>
    "Invalid number, unexpected digit after 0: " ++ characterShown rest ++ "."
  | .unterminatedString => "Unterminated string."
  | .characterEscape shown =>
    "Invalid character escape sequence: " ++ inApostrophes shown ++ "."
  | .unicodeEscape shown => "Invalid Unicode escape sequence: " ++ inApostrophes shown ++ "."
  | .expected what found => "Expected " ++ what ++ ", found " ++ found.description ++ "."
  | .unexpected found => "Unexpected " ++ found.description ++ "."
  | .constantVariable name =>
    "Unexpected variable " ++ inApostrophes ('$' :: name) ++ " in constant value."
  | .reservedEnumValue found =>
    found.description ++ " is reserved and cannot be used for an enum value."
  | .strayDescription =>
    "Unexpected description, only GraphQL definitions support descriptions."
  | .describedShorthand =>
    "Unexpected description, descriptions are not supported on shorthand queries."
  | .tooDeep => "Document is nested too deeply. Parsing aborted."

/-- The message of a fault. -/
def Fault.message (f : Fault) : Text := "Syntax Error: " ++ f.description

/-! ## Character classes -/

/-- A character that may start a name. -/
def isNameStart (c : Char) : Bool := c.isAlpha || c == '_'

/-- A character that may stand in a name. -/
def isNameRest (c : Char) : Bool := c.isAlphanum || c == '_'

/-- A character between lexemes that means nothing. -/
def isIgnored (c : Char) : Bool :=
  c == ' ' || c == '\t' || c == ',' || c == '\uFEFF' || c == '\n' || c == '\r'

/-! ## Strings -/

/-- The character that a one-letter escape stands for. -/
def simpleEscape? : Char → Option Char
  | '"' => some '"'
  | '\\' => some '\\'
  | '/' => some '/'
  | 'b' => some '\x08'
  | 'f' => some '\x0c'
  | 'n' => some '\n'
  | 'r' => some '\r'
  | 't' => some '\t'
  | _ => none

/-- Whether a number is the code point of a character. -/
def isScalarValue (n : Nat) : Bool := n ≤ 0x10FFFF && !isSurrogate n

/-- The number of four hexadecimal digits at the start of a text. -/
def fourDigits? : Text → Option Nat
  | a :: b :: c :: d :: _ => hexValue? [a, b, c, d]
  | _ => none

/-- The character of an escape with four digits or a pair of such escapes, and its width. The text
    starts at the backslash. -/
def fixedEscape (t : Text) : Except Fault (Char × Nat) :=
  let invalid := Except.error (Fault.unicodeEscape (t.take 6))
  match fourDigits? (t.drop 2) with
  | none => invalid
  | some code =>
    if isScalarValue code then .ok (Char.ofNat code, 6)
    else if isHighSurrogate code && "\\u".toList.isPrefixOf (t.drop 6) then
      match fourDigits? (t.drop 8) with
      | none => invalid
      | some low => if isLowSurrogate low then .ok (pairChar code low, 12) else invalid
    else invalid

/-- The value of the digits of an escape in braces and its width, up to the closing brace. At most
    nine characters follow the opening brace, `width` of the escape have been passed. -/
def braceDigits (width point : Nat) : Nat → Text → Except Nat (Nat × Nat)
  | 0, _ => .error width
  | _ + 1, [] => .error width
  | left + 1, c :: rest =>
    if c = '}' then
      if width + 1 < 5 || !isScalarValue point then .error (width + 1) else .ok (point, width + 1)
    else
      match hexDigit? c with
      | some d => braceDigits (width + 1) (16 * point + d) left rest
      | none => .error (width + 1)

/-- The character of an escape with digits in braces, and its width. -/
def variableEscape (t : Text) : Except Fault (Char × Nat) :=
  match braceDigits 3 0 9 (t.drop 3) with
  | .ok (point, width) => .ok (Char.ofNat point, width)
  | .error width => .error (.unicodeEscape (t.take width))

/-- The character of the escape at the start of a text, and its width. A text that ends inside an
    escape is shown as far as it goes. -/
def escapeSequence (t : Text) : Except Fault (Char × Nat) :=
  match t with
  | '\\' :: 'u' :: '{' :: _ => variableEscape t
  | '\\' :: 'u' :: _ => fixedEscape t
  | _ =>
    match (t.drop 1).head?.bind simpleEscape? with
    | some c => .ok (c, 2)
    | none => .error (.characterEscape (t.take 2))

/-- The contents of a string up to its closing quote, and the text after it. The number counts the
    characters of an escape that are still to be passed over. -/
def stringBody : Nat → Text → Except Fault (Text × Text)
  | _, [] => .error .unterminatedString
  | skip + 1, _ :: rest => stringBody skip rest
  | 0, c :: rest =>
    if c = '"' then .ok ([], rest)
    else if c = '\n' || c = '\r' then .error .unterminatedString
    else if c = '\\' then
      match escapeSequence (c :: rest) with
      | .error e => .error e
      | .ok (d, width) => (stringBody (width - 1) rest).map fun (s, r) => (d :: s, r)
    else (stringBody 0 rest).map fun (s, r) => (c :: s, r)

/-- Three quotes. -/
def tripleQuote : Text := ['"', '"', '"']

/-- The raw contents of a block string up to its closing quotes, and the text after them. A
    backslash before three quotes only keeps them from closing the string. -/
def blockBody : Nat → Text → Except Fault (Text × Text)
  | _, [] => .error .unterminatedString
  | skip + 1, c :: rest => (blockBody skip rest).map fun (s, r) => (c :: s, r)
  | 0, c :: rest =>
    if tripleQuote.isPrefixOf (c :: rest) then .ok ([], rest.drop 2)
    else if c = '\\' && tripleQuote.isPrefixOf rest then blockBody 3 rest
    else (blockBody 0 rest).map fun (s, r) => (c :: s, r)

/-- A space or a tab. -/
def isSpaceOrTab (c : Char) : Bool := c == ' ' || c == '\t'

/-- The least indentation of the lines that hold something. -/
def commonIndent (ls : List Text) : Option Nat :=
  ((ls.filter fun l => !l.all isSpaceOrTab).map fun l => (l.takeWhile isSpaceOrTab).length).min?

/-- The lines of a block string: the indentation that all lines but the first share is removed, and
    so are the lines without contents at the start and the end. -/
def blockLines (ls : List Text) : List Text :=
  let dedented := match ls with
    | [] => []
    | first :: more =>
      match commonIndent more with
      | some width => first :: more.map (List.drop width)
      | none => first :: more.map fun _ => []
  let isEmpty := fun (l : Text) => l.all isSpaceOrTab
  ((dedented.dropWhile isEmpty).reverse.dropWhile isEmpty).reverse

/-- The value of a block string with the given raw contents. -/
def blockValue (raw : Text) : Text := joinLines (blockLines (fieldsAt '\n' (unifyNewlines raw)))

/-! ## Numbers -/

/-- The digits at the start of a text, at least one, and the text after them. -/
def digits (t : Text) : Except Fault (Text × Text) :=
  match t.takeWhile Char.isDigit with
  | [] => .error (.digitExpected t)
  | ds => .ok (ds, t.dropWhile Char.isDigit)

/-- The whole part of a number, and the text after it. -/
def wholePart : Text → Except Fault (Text × Text)
  | '0' :: rest =>
    match rest with
    | c :: _ => if c.isDigit then .error (.digitAfterZero rest) else .ok (['0'], rest)
    | [] => .ok (['0'], [])
  | t => digits t

/-- The point and the digits after it, if there is a point. -/
def fractionPart : Text → Except Fault (Text × Text)
  | '.' :: rest => (digits rest).map fun (ds, r) => ('.' :: ds, r)
  | t => .ok ([], t)

/-- The exponent, if there is a mark for it. -/
def exponentPart (t : Text) : Except Fault (Text × Text) :=
  match t with
  | mark :: rest =>
    if mark = 'e' || mark = 'E' then
      match rest with
      | sign :: more =>
        if sign = '+' || sign = '-' then
          (digits more).map fun (ds, r) => (mark :: sign :: ds, r)
        else (digits rest).map fun (ds, r) => (mark :: ds, r)
      | [] => .error (.digitExpected [])
    else .ok ([], t)
  | [] => .ok ([], [])

/-- The number at the start of a text, which a name or a point must not follow. -/
def number (t : Text) : Except Fault (Token × Text) := do
  let (sign, unsigned) := match t with
    | '-' :: r => (['-'], r)
    | r => ([], r)
  let (whole, rest) ← wholePart unsigned
  let (frac, rest) ← fractionPart rest
  let (power, rest) ← exponentPart rest
  let lexeme := sign ++ whole ++ frac ++ power
  let token := if frac.isEmpty && power.isEmpty then Token.int lexeme else Token.float lexeme
  match rest with
  | c :: _ =>
    if c = '.' || isNameStart c then .error (.digitExpected rest) else .ok (token, rest)
  | [] => .ok (token, rest)

/-! ## Documents -/

/-- The lexeme that starts with a dot, and the text after it. -/
def dots (t : Text) : Except Fault (Token × Text) :=
  match t with
  | '.' :: '.' :: '.' :: rest => .ok (.punctuator .spread, rest)
  | '.' :: '.' :: _ => .error .twoDots
  | _ =>
    match (t.drop 1).takeWhile Char.isDigit with
    | [] => .error (.unexpectedCharacter t)
    | ds => .error (.missingWholePart ds)

/-- The lexeme at the start of a text that starts with one, and the text after it. -/
def lexeme (t : Text) : Except Fault (Token × Text) :=
  match t with
  | [] => .ok (.eof, [])
  | c :: rest =>
    match punctuator? c with
    | some p => .ok (.punctuator p, rest)
    | none =>
      if c = '"' then
        if tripleQuote.isPrefixOf t then
          (blockBody 0 (t.drop 3)).map fun (raw, r) => (.block (blockValue raw), r)
        else (stringBody 0 rest).map fun (s, r) => (.string s, r)
      else if c.isDigit || c = '-' then number t
      else if isNameStart c then .ok (.name (t.takeWhile isNameRest), t.dropWhile isNameRest)
      else if c = '.' then dots t
      else if c = '\'' then .error .singleQuote
      else .error (.unexpectedCharacter t)

/-- The lexemes of a text up to the first fault, and the fault. The number counts the characters of
    the last lexeme that are still to be passed over; the flag says whether a comment is being
    read. -/
def lexemesFrom : Bool → Nat → Text → List Token × Option Fault
  | _, _, [] => ([], none)
  | comment, skip + 1, _ :: rest => lexemesFrom comment skip rest
  | true, 0, c :: rest => lexemesFrom (c != '\n' && c != '\r') 0 rest
  | false, 0, c :: rest =>
    if isIgnored c then lexemesFrom false 0 rest
    else if c = '#' then lexemesFrom true 0 rest
    else
      match lexeme (c :: rest) with
      | .error fault => ([], some fault)
      | .ok (token, after) =>
        let (tokens, fault) := lexemesFrom false (rest.length - after.length) rest
        (token :: tokens, fault)

/-- The lexemes of a text up to the first fault, and the fault. -/
def lexemes (t : Text) : List Token × Option Fault := lexemesFrom false 0 t

end HttpFile.GraphQL
