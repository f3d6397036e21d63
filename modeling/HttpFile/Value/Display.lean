import HttpFile.Value.Basic

/-!
# `HttpFile.Value.Display` — plain data as text

A text shows itself; inside other data it is quoted. Truth values and nothing are capitalised words,
lists stand in brackets, mappings in braces. A container that contains itself is written once, and
inside it three dots between its brackets stand for it.

## Contents
- **Pieces.** `Piece`, `Outline`: a text with gaps for containers that stand elsewhere.
- **Inside other data.** `Value.pieces`, `Value.shown`.
- **On its own.** `Value.text`.
-/

namespace HttpFile.Value

open Text

/-- A byte inside a literal with the given quote. -/
def escapeByte (quote : Char) (b : UInt8) : Text :=
  let c := Char.ofNat b.toNat
  if c = quote || c = '\\' then ['\\', c]
  else if c = '\t' then "\\t"
  else if c = '\n' then "\\n"
  else if c = '\r' then "\\r"
  else if 0x20 ≤ b.toNat && b.toNat < 0x7F then [c]
  else "\\x" ++ hex 2 b.toNat

/-- Bytes as a literal. -/
def bytesShown (bs : List UInt8) : Text :=
  let quote := quoteMark (bs.map fun b => Char.ofNat b.toNat)
  'b' :: quote :: bs.flatMap (escapeByte quote) ++ [quote]

/-- A wide text as a literal; halves are escapes. -/
def halvesShown (w : Wide) : Text :=
  let quote := quoteMark (Wide.readable w)
  quote :: w.flatMap (Sum.elim (Text.escapeChar quote) Half.escape) ++ [quote]

/-! ## Pieces -/

/-- A piece of the text of data: letters, or a container with a number that stands elsewhere. -/
inductive Piece where
  | letters (t : Text)
  | container (number : Nat)
deriving DecidableEq, Repr

/-- A container's text in pieces, and what stands for the container inside itself. -/
structure Outline where
  ellipsis : Text
  pieces : List Piece
deriving DecidableEq, Repr

/-- What stands for a container inside itself. -/
def ellipsis : Value → Text
  | .dict _ => ['{', '.', '.', '.', '}']
  | .tuple _ => "(...)"
  | _ => "[...]"

/-- Pieces between two marks, with commas between them. -/
def enclosed (before : Text) (parts : List (List Piece)) (after : Text) : List Piece :=
  .letters before :: [Piece.letters ", "].intercalate parts ++ [Piece.letters after]

/-- The text of a container of a table, given the numbers of the containers that are being written.
    The bound is on how many stand inside each other. -/
def assemble (table : List (Nat × Outline)) : Nat → List Nat → Nat → Text
  | 0, _, _ => []
  | bound + 1, writing, n =>
    match table.lookup n with
    | none => []
    | some outline =>
      if writing.contains n then outline.ellipsis
      else
        outline.pieces.flatMap fun
          | .letters t => t
          | .container k => assemble table bound (n :: writing) k

/-- The text of pieces, given the text of each container that stands elsewhere. -/
def fill (container : Nat → Text) (ps : List Piece) : Text :=
  ps.flatMap fun
    | .letters t => t
    | .container n => container n

/-! ## Inside other data -/

mutual
/-- The pieces of a value as it stands inside other data. -/
def pieces : Value → List Piece
  | .null => [.letters "None"]
  | .bool true => [.letters "True"]
  | .bool false => [.letters "False"]
  | .int n => [.letters (ofInt n)]
  | .float x => [.letters (Binary64.plain.write x)]
  | .str t => [.letters (quoted t)]
  | .halves w => [.letters (halvesShown w)]
  | .date d => [.letters d.shown]
  | .moment m => [.letters m.shown]
  | .bytes bs => [.letters (bytesShown bs)]
  | .list items => enclosed "[" (piecesAll items) "]"
  | .tuple items => enclosed "(" (piecesAll items) (if items.length = 1 then ",)" else ")")
  | .set items =>
    if items.isEmpty then [.letters "set()"] else enclosed ['{'] (piecesAll items) ['}']
  | .dict entries => enclosed ['{'] (piecesEntries entries) ['}']
  | .cyclic table n => [.letters (assemble (outlines table) (table.length + 1) [] n)]
  | .link n => [.container n]

/-- The pieces of the values of a list. -/
def piecesAll : List Value → List (List Piece)
  | [] => []
  | v :: rest => pieces v :: piecesAll rest

/-- The pieces of the entries of a mapping. -/
def piecesEntries : List (Value × Value) → List (List Piece)
  | [] => []
  | (k, v) :: rest => (pieces k ++ .letters ": " :: pieces v) :: piecesEntries rest

/-- The outlines of the containers of a table. -/
def outlines : List (Nat × Value) → List (Nat × Outline)
  | [] => []
  | (n, v) :: rest => (n, ⟨ellipsis v, pieces v⟩) :: outlines rest
end

/-- A value as it stands inside other data. -/
def shown (v : Value) : Text := fill (fun _ => []) v.pieces

/-! ## On its own -/

/-- A value on its own. -/
def text : Value → Text
  | .str t => t
  | .halves w => Wide.readable w
  | .date d => d.text
  | .moment m => m.text
  | v => v.shown

end HttpFile.Value
