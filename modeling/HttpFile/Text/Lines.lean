import HttpFile.Text.Basic

/-!
# `HttpFile.Text.Lines` — lines, common indentation and indenting

Two notions of a line are in use. Free text is split at every line break of Unicode; request files
and scripts are split at the newline only.

## Contents
- **Line breaks.** `isBreak`, `lines`, `linesWithEnds`, `flatten_linesWithEnds`.
- **Newlines.** `unifyNewlines` turns the pair and the lone carriage return into a newline.
- **Indentation.** `dedent` removes what all lines share, `indent` adds to lines that hold
  something.
-/

namespace HttpFile.Text

open Unicode

/-! ## Line breaks -/

/-- A character that ends a line of free text. -/
def isBreak (c : Char) : Bool :=
  let n := c.toNat
  (0xA ≤ n && n ≤ 0xD) || (0x1C ≤ n && n ≤ 0x1E) || n == 0x85 || n == 0x2028 || n == 0x2029

/-- Put a character in front of the first line, or start one. -/
def consFirst (c : Char) : List Text → List Text
  | [] => [[c]]
  | line :: more => (c :: line) :: more

/-- The lines of a text without their ends. A carriage return and the newline after it are one
    break, and a break at the very end starts no further line. -/
def lines : Text → List Text
  | [] => []
  | '\r' :: '\n' :: rest => [] :: lines rest
  | c :: rest => if isBreak c then [] :: lines rest else consFirst c (lines rest)

/-- The lines of a text, each with its end. -/
def linesWithEnds : Text → List Text
  | [] => []
  | '\r' :: '\n' :: rest => ['\r', '\n'] :: linesWithEnds rest
  | c :: rest => if isBreak c then [c] :: linesWithEnds rest else consFirst c (linesWithEnds rest)

theorem flatten_consFirst (c : Char) (ls : List Text) :
    (consFirst c ls).flatten = c :: ls.flatten := by
  cases ls <;> simp [consFirst]

/-- No character is lost when a text is split into lines with their ends. -/
theorem flatten_linesWithEnds (t : Text) : (linesWithEnds t).flatten = t := by
  fun_induction linesWithEnds t with
  | case1 => rfl
  | case2 rest ih => simp [ih]
  | case3 c rest _ hc ih => simp [ih]
  | case4 c rest _ hc ih => simp [flatten_consFirst, ih]

/-! ## Newlines -/

/-- Write the newline for the carriage return, alone or with a newline after it. -/
def unifyNewlines : Text → Text
  | [] => []
  | '\r' :: '\n' :: rest => '\n' :: unifyNewlines rest
  | '\r' :: rest => '\n' :: unifyNewlines rest
  | c :: rest => c :: unifyNewlines rest

/-- The text with its lines joined by newlines. -/
def joinLines (ls : List Text) : Text := ['\n'].intercalate ls

/-! ## Indentation -/

/-- What two texts have in common at their start. -/
def commonStart : Text → Text → Text
  | a :: as, b :: bs => if a = b then a :: commonStart as bs else []
  | _, _ => []

/-- The spaces and tabs that all the lines with something else in them start with. -/
def margin (ls : List Text) : Text :=
  match (ls.filter fun l => !l.all isGap).map (·.takeWhile isGap) with
  | [] => []
  | m :: ms => ms.foldl commonStart m

/-- Empty the lines of spaces and tabs only, and remove from the others the indentation they
    share. -/
def dedent (t : Text) : Text :=
  let ls := fieldsAt '\n' t
  let width := (margin ls).length
  joinLines (ls.map fun l => if l.all isGap then [] else l.drop width)

/-- Put a text in front of every line that is not blank. -/
def indent (pad t : Text) : Text :=
  (linesWithEnds t).flatMap fun l => if l.all isBlank then l else pad ++ l

end HttpFile.Text
