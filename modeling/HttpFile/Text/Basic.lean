import HttpFile.Unicode.Blank

/-!
# `HttpFile.Text.Basic` — text as a list of characters

Everything this library reads and writes is text, held as the list of its code points, so that every
operation is a recursion on a list. String literals stand for their characters.

## Contents
- **The type.** `Text`, with the coercion from string literals.
- **Trimming.** `trimWhere` (a class), `stripLeft`, `stripRight`, `strip` (blanks of any kind).
- **Cutting.** `fieldsAt` (at every occurrence of a character), `cutAt` (at the first one), `words`.
- **Searching and replacing.** `occursIn`, `replaceAll`, `endsWith`.
- **Order.** `precedes`.
- **Numerals.** `ofNat`, `ofInt`, `hex`.
- **Laws.** `join_fieldsAt`.
-/

namespace HttpFile

open Unicode

/-- A text is the list of its code points. -/
abbrev Text := List Char

instance : Coe String Text := ⟨String.toList⟩

namespace Text

/-! ## Trimming -/

section
variable {γ : Type}

/-- The list without the leading elements of a class. -/
def trimLeftWhere (p : γ → Bool) (t : List γ) : List γ := t.dropWhile p

/-- The list without the trailing elements of a class. -/
def trimRightWhere (p : γ → Bool) (t : List γ) : List γ := (t.reverse.dropWhile p).reverse

/-- The list without the leading and trailing elements of a class. -/
def trimWhere (p : γ → Bool) (t : List γ) : List γ := trimRightWhere p (trimLeftWhere p t)

end

/-- The text without leading blanks. -/
def stripLeft (t : Text) : Text := trimLeftWhere isBlank t

/-- The text without trailing blanks. -/
def stripRight (t : Text) : Text := trimRightWhere isBlank t

/-- The text without leading and trailing blanks. -/
def strip (t : Text) : Text := trimWhere isBlank t

/-- Whether a text has no character but blanks. -/
def allBlank (t : Text) : Bool := t.all isBlank

/-! ## Cutting -/

/-- The pieces between the occurrences of a separator: one more than there are occurrences. -/
def fieldsAt (sep : Char) : Text → List Text
  | [] => [[]]
  | c :: rest =>
    if c = sep then [] :: fieldsAt sep rest
    else
      match fieldsAt sep rest with
      | [] => [[c]]
      | field :: fields => (c :: field) :: fields

/-- The text before the first occurrence of a separator, and the text after it if there is one. -/
def cutAt (sep : Char) : Text → Text × Option Text
  | [] => ([], none)
  | c :: rest =>
    if c = sep then ([], some rest)
    else
      let (before, after) := cutAt sep rest
      (c :: before, after)

/-- The maximal runs of characters that are not blank. -/
def words (t : Text) : List Text := go t |>.filter (· ≠ [])
where
  /-- The pieces between blanks, empty ones included. -/
  go : Text → List Text
    | [] => [[]]
    | c :: rest =>
      if isBlank c then [] :: go rest
      else
        match go rest with
        | [] => [[c]]
        | word :: more => (c :: word) :: more

/-! ## Searching and replacing -/

/-- Whether a pattern stands somewhere in a text. -/
def occursIn (pattern : Text) : Text → Bool
  | [] => pattern.isEmpty
  | c :: rest => pattern.isPrefixOf (c :: rest) || occursIn pattern rest

/-- Whether a text ends in a pattern. -/
def endsWith (t pattern : Text) : Bool := pattern.isSuffixOf t

section
variable {γ : Type} [DecidableEq γ]

/-- Replace the occurrences of a non-empty pattern, from left to right and without overlap. The
    number counts the elements of an occurrence that still have to be passed over. -/
def replaceFrom (pattern replacement : List γ) : Nat → List γ → List γ
  | _, [] => []
  | skip + 1, _ :: rest => replaceFrom pattern replacement skip rest
  | 0, c :: rest =>
    if pattern.isPrefixOf (c :: rest) then
      replacement ++ replaceFrom pattern replacement (pattern.length - 1) rest
    else c :: replaceFrom pattern replacement 0 rest

/-- Replace every occurrence of a non-empty pattern; an empty pattern occurs nowhere. -/
def replaceAll (pattern replacement t : List γ) : List γ :=
  if pattern.isEmpty then t else replaceFrom pattern replacement 0 t

end

/-! ## Order -/

/-- Whether a text is another one or comes before it, by the code points of their characters. -/
def precedes : Text → Text → Bool
  | [], _ => true
  | _ :: _, [] => false
  | a :: s, b :: t => a.toNat < b.toNat || (a == b && precedes s t)

/-! ## Numerals -/

/-- The decimal numeral of a natural number. -/
def ofNat (n : Nat) : Text := Nat.toDigits 10 n

/-- The decimal numeral of an integer, a minus sign before a negative one. -/
def ofInt : Int → Text
  | .ofNat n => ofNat n
  | .negSucc n => '-' :: ofNat (n + 1)

/-- The small hexadecimal numeral of a number, with zeros in front up to a width. -/
def hex (width n : Nat) : Text :=
  let digits := Nat.toDigits 16 n
  List.replicate (width - digits.length) '0' ++ digits

/-- The value of a run of ASCII digits. -/
def digitsValue (t : Text) : Nat := t.foldl (fun n c => 10 * n + (c.toNat - '0'.toNat)) 0

/-- The value of a hexadecimal digit of either case. -/
def hexDigit? (c : Char) : Option Nat :=
  if '0' ≤ c ∧ c ≤ '9' then some (c.toNat - '0'.toNat)
  else if 'a' ≤ c ∧ c ≤ 'f' then some (c.toNat - 'a'.toNat + 10)
  else if 'A' ≤ c ∧ c ≤ 'F' then some (c.toNat - 'A'.toNat + 10)
  else none

/-- The value of a run of hexadecimal digits, if it is one. -/
def hexValue? (t : Text) : Option Nat :=
  t.foldlM (fun n c => (hexDigit? c).map (16 * n + ·)) 0

/-! ## Laws -/

theorem fieldsAt_ne_nil (sep : Char) (t : Text) : fieldsAt sep t ≠ [] := by
  cases t with
  | nil => simp [fieldsAt]
  | cons c rest =>
      unfold fieldsAt
      split
      · simp
      · split <;> simp

/-- Writing the separator back between the pieces gives the text again. -/
theorem join_fieldsAt (sep : Char) (t : Text) : [sep].intercalate (fieldsAt sep t) = t := by
  induction t with
  | nil => rfl
  | cons c rest ih =>
      unfold fieldsAt
      cases hf : fieldsAt sep rest with
      | nil => exact absurd hf (fieldsAt_ne_nil sep rest)
      | cons field fields =>
          rw [hf] at ih
          split
          · next hc => simp [List.intercalate_cons_cons, ih, hc]
          · cases fields with
            | nil => simpa using ih
            | cons g gs =>
                rw [List.intercalate_cons_cons] at ih ⊢
                simp [← ih]

end Text

end HttpFile
