import HttpFile.Unicode.Ranges

/-!
# `HttpFile.Unicode.Blank` — white space

Twenty-nine characters count as blank wherever text is trimmed or split at white space: the ASCII
blanks and information separators, the next-line and no-break characters, and the spaces and line
separators of the other scripts.

## Contents
- **Table.** `blankRanges`.
- **Class.** `isBlank`, `isGap` (the space and the tab only), and `isBlank_of_isGap`.
-/

namespace HttpFile.Unicode

/-- Code points of blank characters. -/
def blankRanges : List (Nat × Nat) := [
  (0x9, 0xD), (0x1C, 0x20), (0x85, 0x85), (0xA0, 0xA0), (0x1680, 0x1680), (0x2000, 0x200A),
  (0x2028, 0x2029), (0x202F, 0x202F), (0x205F, 0x205F), (0x3000, 0x3000)]

/-- White space of any kind, line breaks included. -/
def isBlank (c : Char) : Bool := inRanges blankRanges c.toNat

/-- The two characters that separate words inside a line of a request file. -/
def isGap (c : Char) : Bool := c == ' ' || c == '\t'

theorem isBlank_of_isGap {c : Char} (h : isGap c = true) : isBlank c = true := by
  simp only [isGap, Bool.or_eq_true, beq_iff_eq] at h
  rcases h with rfl | rfl <;> decide

end HttpFile.Unicode
