import HttpFile.Json.Writer
import HttpFile.Text.Utf8
import HttpFile.Value.Display

/-!
# `HttpFile.Source.Shape` — looking at plain data in a given shape

A collection is plain data, and each place in it calls for a shape: a mapping, a sequence, a text.
What is absent or empty often stands for the empty shape; anything else misfits.

## Contents
- **Misfits.** `Misfit`.
- **Shapes.** `fields`, `field`, `elements`, `first`, `asText`.
- **Absence.** `orEmpty`: what does not count as present is an empty mapping.
- **Texts.** `jsonText`, `scalarText`, `optionalText`, `presentText`.
-/

namespace HttpFile.Source

open Text

/-- How data differ from the shape that their place calls for. -/
inductive Misfit where
  /-- A named part is asked of data that have no named parts. -/
  | noNamedParts
  /-- An operation is asked of data of a kind that it does not apply to. -/
  | wrongKind
  /-- A mapping lacks an entry that has to be there. -/
  | noEntry
  /-- Other data stand where a text has to stand. -/
  | notText
  /-- Data that contain themselves cannot be written out. -/
  | endless
  /-- An integer has more digits than are written. -/
  | digits
deriving DecidableEq, Repr

/-! ## Shapes -/

/-- The entries of a mapping. -/
def fields (v : Value) : Except Misfit (List (Value × Value)) :=
  match v.opened with
  | .dict entries => .ok entries
  | _ => .error .noNamedParts

/-- An entry of a mapping, nothing if it is not there. -/
def field (v : Value) (key : Text) : Except Misfit Value :=
  (fields v).map fun entries => (Value.lookup entries key).getD .null

/-- The parts of data in order: the characters of a text, the keys of a mapping. -/
def elements (v : Value) : Except Misfit (List Value) :=
  match v.opened with
  | .list items | .tuple items | .set items => .ok items
  | .dict entries => .ok (entries.map (·.1))
  | .str t => .ok (t.map fun c => .str [c])
  | .bytes bs => .ok (bs.map fun b => .int b.toNat)
  | .halves w => .ok (w.map fun x => .ofWide [x])
  | _ => .error .wrongKind

/-- The first part of data, which for a mapping is the entry of the number nought. -/
def first (v : Value) : Except Misfit Value :=
  match v.opened with
  | .list (v :: _) | .tuple (v :: _) => .ok v
  | .str (c :: _) => .ok (.str [c])
  | .halves (x :: _) => .ok (.ofWide [x])
  | .bytes (b :: _) => .ok (.int b.toNat)
  | .dict entries =>
    match entries.find? fun (k, _) => Value.sameKey k (.int 0) with
    | some (_, v) => .ok v
    | none => .error .noEntry
  | _ => .error .wrongKind

/-- The text that stands in a place for texts only; bytes are read as one. -/
def asText : Value → Except Misfit Text
  | .str t => .ok t
  | .halves w => .ok w.readable
  | .bytes bs =>
    match Utf8.decode bs with
    | .ok t => .ok t
    | .error _ => .error .notText
  | _ => .error .notText

/-! ## Absence -/

/-- Data, or an empty mapping for what does not count as present. -/
def orEmpty (v : Value) : Value := if v.isTruthy then v else .dict []

/-- The parts of data, none for what does not count as present. -/
def elementsIfAny (v : Value) : Except Misfit (List Value) :=
  if v.isTruthy then elements v else .ok []

/-! ## Texts -/

/-- Data as JSON. -/
def jsonText (style : Json.Style) (v : Value) : Except Misfit Text :=
  match Json.write? style v with
  | some w => .ok (Wide.readable w)
  | none =>
    match Json.obstacle? v with
    | some .endless => .error .endless
    | some .digits => .error .digits
    | _ => .error .wrongKind

/-- Data as the value of a header or variable: truth values in small letters, lists and mappings as
    JSON. -/
def scalarText (v : Value) : Except Misfit Text :=
  match v.opened with
  | .bool b => .ok (if b then "true".toList else "false".toList)
  | .dict _ | .list _ => jsonText .line v
  | _ => .ok v.text

/-- The text of data, empty for nothing. -/
def optionalText : Value → Text
  | .null => []
  | v => v.text

/-- The text of data that count as present, else a given one. -/
def presentText (v : Value) (default : Text) : Text := if v.isTruthy then v.text else default

end HttpFile.Source
