import HttpFile.Text.Basic

/-!
# `HttpFile.Text.Surrogate` — halves of characters

A character beyond the first plane may be written as a pair of code points that are no characters
themselves. A pair stands for its character; a half alone stands for nothing, and no encoding can
write it.

## Contents
- **Halves.** `isHighSurrogate`, `isLowSurrogate`, `isSurrogate`; `pairChar`, `Half`.
- **Words.** `Word`, `letters`, `spell`: characters with holes between them.
- **Wide texts.** `Wide`: characters with halves between them, `Wide.text?`, `Wide.readable`.
-/

namespace HttpFile

namespace Text

/-! ## Halves -/

/-- Whether a code point opens a pair. -/
def isHighSurrogate (n : Nat) : Bool := 0xD800 ≤ n && n ≤ 0xDBFF

/-- Whether a code point closes a pair. -/
def isLowSurrogate (n : Nat) : Bool := 0xDC00 ≤ n && n ≤ 0xDFFF

/-- Whether a code point is half of a pair. -/
def isSurrogate (n : Nat) : Bool := isHighSurrogate n || isLowSurrogate n

/-- The character of a pair. -/
def pairChar (high low : Nat) : Char :=
  Char.ofNat (0x10000 + (high - 0xD800) * 0x400 + (low - 0xDC00))

/-- Half of a pair that stands alone. -/
structure Half where
  code : Nat
  isSurrogate : isSurrogate code = true
deriving DecidableEq, Repr

/-- A half as the escape that is written where it cannot stand itself. -/
def Half.escape (h : Half) : Text := "\\u" ++ hex 4 h.code

/-! ## Words -/

/-- Characters with holes between them. -/
abbrev Word (α : Type) := List (Char ⊕ α)

variable {α : Type}

/-- A text as a word without holes. -/
def letters (t : Text) : Word α := t.map .inl

/-- A word with a text for each hole. -/
def spell (h : α → Text) (w : Word α) : Text := w.flatMap (Sum.elim (fun c => [c]) h)

/-- The text that a word without holes is. -/
def Word.text? (w : Word α) : Option Text := w.mapM Sum.getLeft?

/-! ## Wide texts -/

/-- A code point as a character or half of one. -/
def ofCode (n : Nat) : Char ⊕ Half :=
  if h : isSurrogate n = true then .inr ⟨n, h⟩ else .inl (Char.ofNat n)

end Text

open Text

/-- A text with halves of characters in it. -/
abbrev Wide := Word Half

/-- A wide text as a text: a pair becomes its character, and a half alone the replacement
    character. -/
def Wide.readable : Wide → Text
  | [] => []
  | .inl c :: rest => c :: Wide.readable rest
  | [.inr _] => ['\uFFFD']
  | .inr _ :: .inl c :: rest => '\uFFFD' :: c :: Wide.readable rest
  | .inr high :: .inr low :: rest =>
    if isHighSurrogate high.code && isLowSurrogate low.code then
      pairChar high.code low.code :: Wide.readable rest
    else '\uFFFD' :: Wide.readable (.inr low :: rest)

end HttpFile
