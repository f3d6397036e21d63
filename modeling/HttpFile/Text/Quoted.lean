import HttpFile.Text.Basic
import HttpFile.Unicode.Printable

/-!
# `HttpFile.Text.Quoted` — a text as a quoted literal

Messages show a text between quotes. The quote is the apostrophe unless the text holds one and holds
no double quote. Characters that cannot be shown are written as escapes of the shortest form.

## Contents
- **Characters.** `escapeChar`.
- **Texts.** `quoteMark`, `quoted`.
-/

namespace HttpFile.Text

open Unicode

/-- A character as it stands inside a literal with the given quote. -/
def escapeChar (quote c : Char) : Text :=
  if c = quote || c = '\\' then ['\\', c]
  else if c = '\n' then "\\n"
  else if c = '\r' then "\\r"
  else if c = '\t' then "\\t"
  else if isPrintable c then [c]
  else if c.toNat ≤ 0xFF then "\\x" ++ hex 2 c.toNat
  else if c.toNat ≤ 0xFFFF then "\\u" ++ hex 4 c.toNat
  else "\\U" ++ hex 8 c.toNat

/-- The quote that needs fewer escapes, the apostrophe if in doubt. -/
def quoteMark (t : Text) : Char := if t.contains '\'' && !t.contains '"' then '"' else '\''

/-- The text as a literal. -/
def quoted (t : Text) : Text :=
  let quote := quoteMark t
  quote :: t.flatMap (escapeChar quote) ++ [quote]

end HttpFile.Text
