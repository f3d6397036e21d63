import HttpFile.Document.Basic
import HttpFile.Source.Failure
import HttpFile.Unicode.Word

/-!
# `HttpFile.Source.Bruno.Section` — the sections of a file

A file of a collection is a list of sections. A section opens with its name and a bracket at the
start of a line and closes with the matching bracket alone at the start of a line. What stands
outside of sections does not count.

## Contents
- **Sections.** `Section`, with its contents as `text`, as `pairs` and as `items`.
- **Reading.** `opening?`, `sectionsFrom`, `readSections`.
- **Look-up.** `named?`, `valueOf`.
- **Environments.** `environmentVariables`.
-/

namespace HttpFile.Source.Bruno

open Text Unicode

/-! ## Sections -/

/-- A section: its name and the lines between its brackets. -/
structure Section where
  name : Text
  lines : List Text := []
deriving DecidableEq, Repr

/-- A text without the double quotes around it. -/
def unquote : Text → Text
  | '"' :: rest => if rest.getLast? = some '"' then rest.dropLast else '"' :: rest
  | t => t

/-- The contents of a section without the indentation that its lines share. -/
def Section.text (s : Section) : Text := strip (dedent (joinLines s.lines))

/-- The key and the value of a line, which a colon divides. -/
def pair? (line : Text) : Option (Text × Text) :=
  match cutAt ':' (strip line) with
  | (_, none) => none
  | (key, some value) =>
    if (strip key).isEmpty then none else some (strip key, unquote (strip value))

/-- The keys and values of a section. -/
def Section.pairs (s : Section) : List (Text × Text) := s.lines.filterMap pair?

/-- The item on a line, without the comma behind it. -/
def item (line : Text) : Text := unquote (strip (trimRightWhere (· == ',') (strip line)))

/-- The items of a list. -/
def Section.items (s : Section) : List Text := (s.lines.map item).filter (· ≠ [])

/-! ## Reading -/

/-- A character of a section's name. -/
def isNameChar (c : Char) : Bool := isWord c || c == ':' || c == '.' || c == '-'

/-- The bracket that closes what a bracket opens. -/
def closer? : Char → Option Char
  | '{' => some '}'
  | '[' => some ']'
  | _ => none

/-- The name and the closing bracket of the section that a line opens. -/
def opening? (line : Text) : Option (Text × Char) :=
  let t := stripRight line
  let name := t.takeWhile isNameChar
  match (t.dropWhile isNameChar).dropWhile isGap with
  | [bracket] => if name.isEmpty then none else (closer? bracket).map (name, ·)
  | _ => none

/-- The sections in the lines to come, inside a section that closes with the given bracket or
    outside of any. -/
def sectionsFrom : Option (Section × Char) → List Text → Except SchemaError (List Section)
  | none, [] => .ok []
  | some (s, _), [] => .error (.openSection s.name)
  | none, line :: rest =>
    sectionsFrom ((opening? line).map fun (name, closer) => (⟨name, []⟩, closer)) rest
  | some (s, closer), line :: rest =>
    if stripRight line = [closer] then (sectionsFrom none rest).map (s :: ·)
    else sectionsFrom (some ({ s with lines := s.lines ++ [line] }, closer)) rest

/-- The sections of a text. -/
def readSections (t : Text) : Except SchemaError (List Section) :=
  sectionsFrom none (fieldsAt '\n' (replaceAll ['\r', '\n'] ['\n'] t))

/-! ## Look-up -/

/-- The first section with a name. -/
def named? (sections : List Section) (name : Text) : Option Section :=
  sections.find? fun s => s.name == name

/-- The last value of a key, empty if there is none. -/
def valueOf (pairs : List (Text × Text)) (key : Text) : Text :=
  (pairs.reverse.lookup key).getD []

/-! ## Environments -/

/-- Whether a name is switched on. -/
def isOn (name : Text) : Bool := name.head? != some '~'

/-- The variables that a section declares; secret ones have no value. -/
def Section.declarations (s : Section) : List Variable :=
  if s.name = "vars".toList then
    (s.pairs.filter fun (key, _) => isOn key).map fun (key, value) => ⟨key, value⟩
  else if s.name = "vars:secret".toList then
    (s.items.filter isOn).map fun name => ⟨name, []⟩
  else []

/-- The variables of an environment. -/
def environmentVariables (t : Text) : Except SchemaError (List Variable) :=
  (readSections t).map fun sections => sections.flatMap Section.declarations

end HttpFile.Source.Bruno
