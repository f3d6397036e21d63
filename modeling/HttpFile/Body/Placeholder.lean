import HttpFile.Text.Surrogate

/-!
# `HttpFile.Body.Placeholder` — keeping placeholders out of a printer's way

A body may hold placeholders in double braces, which are no JSON and no query. Before such a body is
printed, each placeholder outside quotes is exchanged for a quoted marker; afterwards the markers
are exchanged back. Markers share a stem that does not occur in the body.

## Contents
- **Segments.** `placeholder?`, `quotedRun?`, `segments`: a body as placeholders and other text.
- **Markers.** `stemAt`, `freeStem`, `Guard`.
- **Restoring.** `Guard.restoreIn`; `Guard.restore`, `Guard.restoreWide`.
-/

namespace HttpFile.Body

open Text

/-! ## Segments -/

/-- A part of a body. -/
inductive Segment where
  | plain (t : Text)
  | placeholder (token : Text)
deriving DecidableEq, Repr

/-- The text of a segment. -/
def Segment.text : Segment → Text
  | .plain t => t
  | .placeholder t => t

/-- A character that may stand inside a placeholder. -/
def isPlaceholderChar (c : Char) : Bool := c != '{' && c != '}' && c != '\n'

/-- The placeholder at the start of a text. -/
def placeholder? : Text → Option Text
  | '{' :: '{' :: rest =>
    match rest.dropWhile isPlaceholderChar with
    | '}' :: '}' :: _ => some (['{', '{'] ++ rest.takeWhile isPlaceholderChar ++ ['}', '}'])
    | _ => none
  | _ => none

/-- The text through the first three quotes, if there are any. -/
def throughTripleQuote? : Text → Option Text
  | [] => none
  | '"' :: '"' :: '"' :: _ => some ['"', '"', '"']
  | c :: rest => (throughTripleQuote? rest).map (c :: ·)

/-- The text through the first quote on the line that no backslash precedes, if there is one. -/
def throughQuote? : Text → Option Text
  | [] => none
  | '"' :: _ => some ['"']
  | '\n' :: _ => none
  | '\\' :: [] => none
  | '\\' :: c :: rest => if c = '\n' then none else (throughQuote? rest).map ('\\' :: c :: ·)
  | c :: rest => (throughQuote? rest).map (c :: ·)

/-- The quoted string at the start of a text, in three quotes or in one. -/
def quotedRun? (t : Text) : Option Text :=
  let triple := match t with
    | '"' :: '"' :: '"' :: rest => (throughTripleQuote? rest).map (['"', '"', '"'] ++ ·)
    | _ => none
  match triple, t with
  | some run, _ => some run
  | none, '"' :: rest => (throughQuote? rest).map ('"' :: ·)
  | none, _ => none

/-- The segment at the start of a text that is not empty. -/
def segment (c : Char) (rest : Text) : Segment :=
  match placeholder? (c :: rest) with
  | some token => .placeholder token
  | none => .plain ((quotedRun? (c :: rest)).getD [c])

/-- A text as segments. The number counts the characters of the last segment that are still to be
    passed over. -/
def segmentsFrom : Nat → Text → List Segment
  | _, [] => []
  | skip + 1, _ :: rest => segmentsFrom skip rest
  | 0, c :: rest =>
    let s := segment c rest
    s :: segmentsFrom (s.text.length - 1) rest

/-- A text as segments. -/
def segments (t : Text) : List Segment := segmentsFrom 0 t

/-! ## Markers -/

/-- The stem of markers with a number. -/
def stemAt (index : Nat) : Text := "__HTTPFMT" ++ ofNat index ++ "_"

/-- The first stem that does not occur in a text. A text is too short to hold more stems than it has
    characters. -/
def freeStem (t : Text) : Text :=
  stemAt (((List.range (t.length + 1)).find? fun k => !occursIn (stemAt k) t).getD t.length)

/-- A marker with its number. -/
def marker (stem : Text) (index : Nat) : Text := stem ++ ofNat index ++ "__"

/-- A body with markers for its placeholders, and the placeholder that each marker stands for. -/
structure Guard where
  stem : Text
  text : Text
  placeholders : List (Text × Text)
deriving DecidableEq, Repr

/-- Exchange placeholders for quoted markers, numbered from `index` on. -/
def guardSegments (stem : Text) : Nat → List Segment → Text × List (Text × Text)
  | _, [] => ([], [])
  | index, .plain t :: rest =>
    let (text, pairs) := guardSegments stem index rest
    (t ++ text, pairs)
  | index, .placeholder token :: rest =>
    let (text, pairs) := guardSegments stem (index + 1) rest
    let m := marker stem index
    (['"'] ++ m ++ ['"'] ++ text, (m, token) :: pairs)

/-- Exchange the placeholders of a text for markers. -/
def Guard.of (t : Text) : Guard :=
  let stem := freeStem t
  let (text, pairs) := guardSegments stem 0 (segments t)
  ⟨stem, text, pairs⟩

/-- Exchange markers for their placeholders, quoted ones first. The markers and the placeholders
    stand in the list in the given form. -/
def Guard.restoreIn {γ : Type} [DecidableEq γ] (form : Text → List γ) (g : Guard) (t : List γ) :
    List γ :=
  g.placeholders.foldl (fun t (m, token) =>
    replaceAll (form m) (form token)
      (replaceAll (form (['"'] ++ m ++ ['"'])) (form token) t)) t

/-- Exchange the markers in a text. -/
def Guard.restore (g : Guard) (t : Text) : Text := g.restoreIn id t

/-- Exchange the markers in a wide text. -/
def Guard.restoreWide (g : Guard) (w : Wide) : Wide := g.restoreIn letters w

end HttpFile.Body
