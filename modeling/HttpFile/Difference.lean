import HttpFile.Ansi
import HttpFile.Text.Surrogate

/-!
# `HttpFile.Difference` — what changes between two texts

Two texts are compared character by character. The longest stretch that they share is kept, of
several the first; what stands before it and after it is compared in the same way. What is not kept
is removed from the first text and added from the second. The comparison works for characters of any
kind, so that it also tells what changes in a text with halves of characters.

## Contents
- **Longest match.** `Match`, `longestMatch`.
- **Edits.** `Edit`, `editsWithin`, `edits`.
- **Both sides.** `before` and `after`, with `before_editsWithin` and `after_editsWithin`: the edits
  tell both texts.
- **Display.** `render`: removed text on red, added text on green; `renderWide`, with escapes for halves.
-/

namespace HttpFile.Difference

open Text

variable {γ : Type}

/-! ## Longest match -/

/-- A stretch that two texts share: its length and where it starts in each. -/
structure Match where
  size : Nat
  left : Nat
  right : Nat
deriving DecidableEq, Repr

/-- For each character of the second text, the length of the common stretch that ends there and at a
    given character of the first; `above` are these lengths for the character before it. -/
def matchRow [DecidableEq γ] (x : γ) : List Nat → List γ → List Nat
  | up :: above, c :: rest => (if c = x then up + 1 else 0) :: matchRow x above rest
  | _, _ => []

/-- The better of the best match so far and those of a row, the earlier one if they are equally
    long. -/
def bestInRow (i : Nat) : Nat → List Nat → Match → Match
  | _, [], best => best
  | j, k :: row, best =>
    bestInRow i (j + 1) row (if best.size < k then ⟨k, i + 1 - k, j + 1 - k⟩ else best)

/-- The best match that ends in the rest of the first text. -/
def bestFrom [DecidableEq γ] (b : List γ) : Nat → List Nat → List γ → Match → Match
  | _, _, [], best => best
  | i, above, x :: rest, best =>
    let row := matchRow x (0 :: above) b
    bestFrom b (i + 1) row rest (bestInRow i 0 row best)

/-- The longest stretch that two texts share. -/
def longestMatch [DecidableEq γ] (a b : List γ) : Match := bestFrom b 0 (List.replicate b.length 0) a ⟨0, 0, 0⟩

/-! ## Edits -/

/-- Text that is kept, or text that is removed and text that is added in its place. -/
inductive Edit (γ : Type) where
  | keep (t : List γ)
  | change (removed added : List γ)
deriving DecidableEq, Repr

/-- The edits between two texts, splitting them at most so many times deep. -/
def editsWithin [DecidableEq γ] : Nat → List γ → List γ → List (Edit γ)
  | 0, a, b => [.change a b]
  | depth + 1, a, b =>
    let m := longestMatch a b
    let kept := (a.drop m.left).take m.size
    if m.size = 0 ∨ kept ≠ (b.drop m.right).take m.size then [.change a b]
    else
      editsWithin depth (a.take m.left) (b.take m.right) ++
        .keep kept ::
        editsWithin depth (a.drop (m.left + m.size)) (b.drop (m.right + m.size))

/-- The edits between two texts. Each split takes at least one character out of the first. -/
def edits [DecidableEq γ] (a b : List γ) : List (Edit γ) := editsWithin (a.length + 1) a b

/-! ## Both sides -/

/-- The first text of the edits. -/
def before : List (Edit γ) → List γ
  | [] => []
  | .keep t :: rest => t ++ before rest
  | .change removed _ :: rest => removed ++ before rest

/-- The second text of the edits. -/
def after : List (Edit γ) → List γ
  | [] => []
  | .keep t :: rest => t ++ after rest
  | .change _ added :: rest => added ++ after rest

theorem before_append (es fs : List (Edit γ)) : before (es ++ fs) = before es ++ before fs := by
  induction es with
  | nil => rfl
  | cons e es ih => cases e <;> simp [before, ih]

theorem after_append (es fs : List (Edit γ)) : after (es ++ fs) = after es ++ after fs := by
  induction es with
  | nil => rfl
  | cons e es ih => cases e <;> simp [after, ih]

theorem take_append_drop_take (t : List γ) (i n : Nat) :
    t.take i ++ ((t.drop i).take n ++ t.drop (i + n)) = t := by
  rw [← List.drop_drop, List.take_append_drop, List.take_append_drop]

/-- The edits hold the first text, whatever the depth. -/
theorem before_editsWithin [DecidableEq γ] (depth : Nat) (a b : List γ) : before (editsWithin depth a b) = a := by
  induction depth generalizing a b with
  | zero => simp [editsWithin, before]
  | succ depth ih =>
      unfold editsWithin
      simp only
      split
      · simp [before]
      · rw [before_append, ih, before, ih, take_append_drop_take]

/-- The edits hold the second text, whatever the depth. -/
theorem after_editsWithin [DecidableEq γ] (depth : Nat) (a b : List γ) : after (editsWithin depth a b) = b := by
  induction depth generalizing a b with
  | zero => simp [editsWithin, after]
  | succ depth ih =>
      unfold editsWithin
      simp only
      split
      · simp [after]
      · next h =>
          have hk := (not_or.mp h).2
          simp only [ne_eq, Decidable.not_not] at hk
          rw [after_append, ih, after, ih, hk, take_append_drop_take]

/-! ## Display -/

/-- A text in a colour, or nothing for no text. -/
def paintSome (p : Ansi.Paint) (t : Text) : Text := if t.isEmpty then [] else Ansi.paint p t

/-- Kept text as it is, removed text on red and added text on green. -/
def Edit.render : Edit Char → Text
  | .keep t => t
  | .change removed added => paintSome .redGround removed ++ paintSome .greenGround added

/-- The way from one text to another. -/
def render (a b : Text) : Text := (edits a b).flatMap Edit.render

/-- An edit with its texts put in another form. -/
def Edit.map {δ : Type} (form : List γ → List δ) : Edit γ → Edit δ
  | .keep t => .keep (form t)
  | .change removed added => .change (form removed) (form added)

/-- The way from a text to a wide one, halves of characters shown as escapes. -/
def renderWide (a : Text) (b : Wide) : Text :=
  (edits (letters a) b).flatMap fun e => (e.map (spell Half.escape)).render

end HttpFile.Difference
