import HttpFile.Json.Reader

/-!
# `HttpFile.Json.Writer` — writing JSON

Plain data are written on one line or with each part on a line of its own, indented by two spaces.
Keys that are numbers, truth values or nothing are written as texts. Halves of characters stand in
strings as they are, unless only ASCII is wanted. Dates, bytes and sets have no form in JSON, and
integers with too many digits are not converted.

## Contents
- **Strings.** `escape`, with or without the characters beyond ASCII.
- **Styles.** `Style`.
- **Values.** `write?`, which is `none` exactly for data without a form.
- **Obstacles.** `Obstacle`, `obstacle?`: the first thing that keeps data from being written.
-/

namespace HttpFile.Json

open Text

/-! ## Strings -/

/-- A code unit as an escape. -/
def unitEscape (n : Nat) : Text := "\\u" ++ hex 4 n

/-- A character beyond ASCII as one escape or a pair. -/
def asciiEscape (c : Char) : Text :=
  let n := c.toNat
  if n < 0x10000 then unitEscape n
  else unitEscape (0xD800 + (n - 0x10000) / 0x400) ++ unitEscape (0xDC00 + (n - 0x10000) % 0x400)

/-- A character inside a string. -/
def escape (asciiOnly : Bool) (c : Char) : Text :=
  if c = '"' then ['\\', '"']
  else if c = '\\' then ['\\', '\\']
  else if c = '\n' then ['\\', 'n']
  else if c = '\r' then ['\\', 'r']
  else if c = '\t' then ['\\', 't']
  else if c = '\x0c' then ['\\', 'f']
  else if c = '\x08' then ['\\', 'b']
  else if c.toNat < 0x20 then unitEscape c.toNat
  else if asciiOnly && 0x7F ≤ c.toNat then asciiEscape c
  else [c]

/-- Half of a character inside a string. -/
def escapeHalf (asciiOnly : Bool) (h : Half) : Wide :=
  if asciiOnly then letters h.escape else [.inr h]

/-- The inside of a string. -/
def escaped (asciiOnly : Bool) (w : Wide) : Wide :=
  w.flatMap (Sum.elim (fun c => letters (escape asciiOnly c)) (escapeHalf asciiOnly))

/-- A string with its quotes. -/
def writeString (asciiOnly : Bool) (w : Wide) : Wide :=
  .inl '"' :: (escaped asciiOnly w ++ [.inl '"'])

/-- A number with a binary point. -/
def layout : Binary64.Layout := { Binary64.plain with infinity := "Infinity", notANumber := "NaN" }

/-! ## Values -/

/-- How data are laid out: over lines or on one, and in which characters. -/
structure Style where
  overLines : Bool
  asciiOnly : Bool

/-- Each part on a line of its own, in any characters. -/
def Style.indented : Style := ⟨true, false⟩

/-- All on one line, in any characters. -/
def Style.line : Style := ⟨false, false⟩

/-- All on one line, in ASCII. -/
def Style.asciiLine : Style := ⟨false, true⟩

/-- The start of a line at a depth. -/
def newline (depth : Nat) : Text := '\n' :: List.replicate (2 * depth) ' '

/-- Parts between an opening and a closing mark. -/
def Style.enclose {α : Type} (style : Style) (depth : Nat) (opening closing : Char)
    (parts : List (Word α)) : Word α :=
  if parts.isEmpty then letters [opening, closing]
  else if style.overLines then
    letters (opening :: newline (depth + 1)) ++
      (letters (',' :: newline (depth + 1))).intercalate parts ++
      letters (newline depth ++ [closing])
  else letters [opening] ++ (letters ", ".toList).intercalate parts ++ letters [closing]

/-- A word for a truth value. -/
def truthWord (b : Bool) : Text := if b then "true" else "false"

/-- An integer, if it has no more digits than are converted. -/
def integerText? (n : Int) : Option Text := if isShort (.int n) then some (ofInt n) else none

/-- A key as the text it is written as. -/
def keyText? : Value → Option Wide
  | .str t => some (letters t)
  | .halves w => some w
  | .bool b => some (letters (truthWord b))
  | .null => some (letters "null")
  | .int n => (integerText? n).map letters
  | .float x => some (letters (layout.write x))
  | _ => none

mutual
/-- A value at a depth of nesting. -/
def writeAt? (style : Style) : Nat → Value → Option Wide
  | _, .null => some (letters "null")
  | _, .bool b => some (letters (truthWord b))
  | _, .int n => (integerText? n).map letters
  | _, .float x => some (letters (layout.write x))
  | _, .str t => some (writeString style.asciiOnly (letters t))
  | _, .halves w => some (writeString style.asciiOnly w)
  | depth, .list items => (writeItems? style (depth + 1) items).map (style.enclose depth '[' ']')
  | depth, .tuple items => (writeItems? style (depth + 1) items).map (style.enclose depth '[' ']')
  | depth, .dict entries =>
    (writeEntries? style (depth + 1) entries).map (style.enclose depth '{' '}')
  | _, _ => none

/-- The parts of a list. -/
def writeItems? (style : Style) (depth : Nat) : List Value → Option (List Wide)
  | [] => some []
  | v :: rest =>
    match writeAt? style depth v, writeItems? style depth rest with
    | some t, some ts => some (t :: ts)
    | _, _ => none

/-- The parts of a mapping. -/
def writeEntries? (style : Style) (depth : Nat) : List (Value × Value) → Option (List Wide)
  | [] => some []
  | (k, v) :: rest =>
    match keyText? k, writeAt? style depth v, writeEntries? style depth rest with
    | some key, some t, some ts =>
      some ((writeString style.asciiOnly key ++ letters ": " ++ t) :: ts)
    | _, _, _ => none
end

/-- A value as JSON, if it has a form there. -/
def write? (style : Style) (v : Value) : Option Wide := writeAt? style 0 v

/-! ## Obstacles -/

/-- What keeps data from being written. -/
inductive Obstacle where
  /-- Data, or a key, of a kind without a form. -/
  | formless
  /-- A container that contains itself. -/
  | endless
  /-- An integer with more digits than are converted. -/
  | digits
deriving DecidableEq, Repr

/-- What is met in the order of writing that cannot be written on the spot: an obstacle, or a
    container with a number that stands elsewhere. -/
inductive Hurdle where
  | obstacle (o : Obstacle)
  | container (number : Nat)
deriving DecidableEq, Repr

/-- The obstacle that is met first at hurdles, given the one inside each container. -/
def firstObstacle (inside : Nat → Option Obstacle) (hurdles : List Hurdle) : Option Obstacle :=
  hurdles.findSome? fun
    | .obstacle o => some o
    | .container n => inside n

/-- The first obstacle inside a container of a table, given the numbers of the containers that are
    being written. The bound is on how many stand inside each other. -/
def obstacleInside (table : List (Nat × List Hurdle)) : Nat → List Nat → Nat → Option Obstacle
  | 0, _, _ => some .endless
  | bound + 1, writing, n =>
    if writing.contains n then some .endless
    else firstObstacle (obstacleInside table bound (n :: writing)) ((table.lookup n).getD [])

/-- The hurdles of an integer. -/
def hurdlesInteger (n : Int) : List Hurdle :=
  if (integerText? n).isSome then [] else [.obstacle .digits]

/-- The hurdles of a key. -/
def hurdlesKey : Value → List Hurdle
  | .int n => hurdlesInteger n
  | k => if (keyText? k).isSome then [] else [.obstacle .formless]

mutual
/-- The hurdles of a value, in the order of writing. -/
def hurdles : Value → List Hurdle
  | .int n => hurdlesInteger n
  | .list items => hurdlesAll items
  | .tuple items => hurdlesAll items
  | .dict entries => hurdlesEntries entries
  | .cyclic table n =>
    match obstacleInside (hurdlesTable table) (table.length + 1) [] n with
    | some o => [.obstacle o]
    | none => []
  | .link n => [.container n]
  | .set _ | .date _ | .moment _ | .bytes _ => [.obstacle .formless]
  | _ => []

/-- The hurdles of the values of a list. -/
def hurdlesAll : List Value → List Hurdle
  | [] => []
  | v :: rest => hurdles v ++ hurdlesAll rest

/-- The hurdles of the entries of a mapping. -/
def hurdlesEntries : List (Value × Value) → List Hurdle
  | [] => []
  | (k, v) :: rest => hurdlesKey k ++ hurdles v ++ hurdlesEntries rest

/-- The hurdles of the containers of a table. -/
def hurdlesTable : List (Nat × Value) → List (Nat × List Hurdle)
  | [] => []
  | (n, v) :: rest => (n, hurdles v) :: hurdlesTable rest
end

/-- The first thing that keeps data from being written. -/
def obstacle? (v : Value) : Option Obstacle := firstObstacle (fun _ => none) (hurdles v)

end HttpFile.Json
