import HttpFile.Text.Basic
import HttpFile.Unicode.Casing

/-!
# `HttpFile.Text.Casing` — capital and small letters

The full case mappings on texts: a character may become several, and a capital sigma at the end of
a word becomes the final small form.

## Contents
- **Capitals.** `upper`.
- **Small letters.** `lower`, with `isFinalSigma`.
- **Comparison.** `sameIgnoringCase`.
-/

namespace HttpFile.Text

open Unicode

/-- The text in capitals. -/
def upper (t : Text) : Text := t.flatMap upperChar

/-- Whether the first character that is not passed over has case. -/
def startsCased (t : Text) : Bool :=
  match t.dropWhile isCaseIgnorable with
  | c :: _ => isCased c
  | [] => false

/-- A capital sigma takes its final form after a letter with case and before none; the text before
    it is given from right to left. -/
def isFinalSigma (before after : Text) : Bool := startsCased before && !startsCased after

/-- The text in small letters, after a part that is given from right to left. -/
def lowerAfter (before : Text) : Text → Text
  | [] => []
  | c :: rest =>
    let small := if c = 'Σ' then [if isFinalSigma before rest then 'ς' else 'σ'] else lowerChar c
    small ++ lowerAfter (c :: before) rest

/-- The text in small letters. -/
def lower (t : Text) : Text := lowerAfter [] t

/-- Whether two texts have the same small letters. -/
def sameIgnoringCase (a b : Text) : Bool := lower a == lower b

end HttpFile.Text
