import HttpFile.GraphQL.Ast
import HttpFile.Text.Lines

/-!
# `HttpFile.GraphQL.Printer` — writing a query document

Selections stand on lines of their own, indented by two spaces. Arguments, lists and objects stand
on one line unless that line would be longer than eighty characters.

## Contents
- **Joining.** `joined`, `wrapped`, `braced`.
- **Strings.** `stringText`, `blockText`.
- **Parts.** One function per part of a document.
- **Documents.** `print`.
-/

namespace HttpFile.GraphQL

open Text

/-! ## Joining -/

/-- The greatest length of a line that holds several parts. -/
def maxLine : Nat := 80

/-- The parts that are not empty, with a separator between them. -/
def joined (sep : Text) (parts : List Text) : Text := sep.intercalate (parts.filter (· ≠ []))

/-- A text between two others, or nothing if it is empty. -/
def wrapped (before t after : Text) : Text := if t.isEmpty then [] else before ++ t ++ after

/-- A text with each of its lines indented, or nothing if it is empty. -/
def indented (t : Text) : Text := wrapped "  " (replaceAll "\n" "\n  " t) []

/-- Parts on lines of their own between braces, or nothing if there are none. -/
def braced (parts : List Text) : Text :=
  wrapped ['{', '\n'] (indented (joined "\n" parts)) ['\n', '}']

/-- Whether one of the parts goes over several lines. -/
def anyMultiline (parts : List Text) : Bool := parts.any fun p => p.contains '\n'

/-! ## Strings -/

/-- A character inside a string. -/
def stringChar (c : Char) : Text :=
  if c = '"' then ['\\', '"']
  else if c = '\\' then ['\\', '\\']
  else if c = '\x08' then ['\\', 'b']
  else if c = '\x0c' then ['\\', 'f']
  else if c = '\n' then ['\\', 'n']
  else if c = '\r' then ['\\', 'r']
  else if c = '\t' then ['\\', 't']
  else if c.toNat < 0x20 || (0x7F ≤ c.toNat && c.toNat ≤ 0x9F) then
    "\\u" ++ (hex 4 c.toNat).map Char.toUpper
  else [c]

/-- A string in quotes. -/
def stringText (t : Text) : Text := '"' :: t.flatMap stringChar ++ ['"']

/-- Whether a line starts with a space or a tab. -/
def startsIndented : Text → Bool
  | c :: _ => c == ' ' || c == '\t'
  | [] => false

/-- A string as a block. It goes over lines of its own if it has several, is long, or ends in a way
    that would run into the closing quotes. -/
def blockText (t : Text) : Text :=
  let escaped := replaceAll ['"', '"', '"'] ['\\', '"', '"', '"'] t
  let ls := fieldsAt '\n' (unifyNewlines escaped)
  let single := ls.length == 1
  let leading := !single && ls.tail.all fun l => l.isEmpty || startsIndented l
  let tripleEnd := endsWith escaped ['\\', '"', '"', '"']
  let trailing := (endsWith t ['"'] && !tripleEnd) || endsWith t ['\\']
  let spread := !single || 70 < t.length || trailing || leading || tripleEnd
  let start := if (spread && !(single && startsIndented t)) || leading then ['\n'] else []
  let stop := if spread || trailing then ['\n'] else []
  ['"', '"', '"'] ++ start ++ escaped ++ stop ++ ['"', '"', '"']

/-- A string in the form it was written in. -/
def StringValue.print (s : StringValue) : Text :=
  if s.block then blockText s.value else stringText s.value

/-- A description on a line of its own. -/
def describe (d : Option StringValue) : Text :=
  match d with
  | some s => wrapped [] s.print "\n"
  | none => []

/-! ## Values and directives -/

/-- Parts between brackets, on one line if it is not too long. -/
def listText (parts : List Text) : Text :=
  let line := "[" ++ joined ", " parts ++ "]"
  if maxLine < line.length then "[\n" ++ indented (joined "\n" parts) ++ "\n]" else line

/-- Parts between braces, on one line if it is not too long. -/
def objectText (parts : List Text) : Text :=
  let line := ['{', ' '] ++ joined ", " parts ++ [' ', '}']
  if maxLine < line.length then braced parts else line

mutual
/-- A value. -/
def Value.print : Value → Text
  | .variable n => '$' :: n
  | .int t => t
  | .float t => t
  | .string s => s.print
  | .bool b => if b then "true" else "false"
  | .null => "null"
  | .enum t => t
  | .list items => listText (Value.printAll items)
  | .object fields => objectText (Value.printFields fields)

/-- The values of a list. -/
def Value.printAll : List Value → List Text
  | [] => []
  | v :: rest => v.print :: Value.printAll rest

/-- The fields of an object. -/
def Value.printFields : List (Text × Value) → List Text
  | [] => []
  | (n, v) :: rest => (n ++ ": " ++ v.print) :: Value.printFields rest
end

/-- An argument. -/
def Argument.print (a : Argument) : Text := a.name ++ ": " ++ a.value.print

/-- A directive. -/
def Directive.print (d : Directive) : Text :=
  '@' :: d.name ++ wrapped "(" (joined ", " (d.arguments.map Argument.print)) ")"

/-- Directives with spaces between them. -/
def printDirectives (ds : List Directive) : Text := joined " " (ds.map Directive.print)

/-- A type. -/
def TypeRef.print : TypeRef → Text
  | .named n => n
  | .list t => "[" ++ t.print ++ "]"
  | .nonNull t => t.print ++ "!"

/-! ## Queries -/

/-- A default value behind an equals sign. -/
def printDefault (before : Text) (v : Option Value) : Text :=
  match v with
  | some d => wrapped before d.print []
  | none => []

/-- A variable of an operation. -/
def VariableDefinition.print (v : VariableDefinition) : Text :=
  describe v.description ++ '$' :: v.name ++ ": " ++ v.type.print ++
    printDefault " = " v.defaultValue ++ wrapped " " (printDirectives v.directives) []

/-- A field with its arguments, over several lines if one would be too long. -/
def fieldHead (label : Option Text) (name : Text) (args : List Argument) : Text :=
  let start := (match label with
    | some l => wrapped [] l ": "
    | none => []) ++ name
  let parts := args.map Argument.print
  let line := start ++ wrapped "(" (joined ", " parts) ")"
  if maxLine < line.length then start ++ wrapped "(\n" (indented (joined "\n" parts)) "\n)"
  else line

/-- Selections on lines of their own between braces; the braces stay if there are none. -/
def selectionBlock (parts : List Text) : Text :=
  if parts.isEmpty then ['{', '}'] else braced parts

mutual
/-- A selection. -/
def Selection.print : Selection → Text
  | .field label name args ds none =>
    joined " " [fieldHead label name args, printDirectives ds]
  | .field label name args ds (some parts) =>
    joined " " [fieldHead label name args, printDirectives ds,
      selectionBlock (Selection.printAll parts)]
  | .spread name ds => "..." ++ name ++ wrapped " " (printDirectives ds) []
  | .inline condition ds parts =>
    joined " " ["...", wrapped "on " (condition.getD []) [], printDirectives ds,
      selectionBlock (Selection.printAll parts)]

/-- The selections of a set. -/
def Selection.printAll : List Selection → List Text
  | [] => []
  | s :: rest => s.print :: Selection.printAll rest
end

/-- Selections in braces. -/
def printSelections (ss : List Selection) : Text := selectionBlock (Selection.printAll ss)

/-! ## Type systems -/

/-- An argument of a definition. -/
def InputValue.print (v : InputValue) : Text :=
  describe v.description ++
    joined " " [v.name ++ ": " ++ v.type.print, printDefault "= " v.defaultValue,
      printDirectives v.directives]

/-- Arguments of a definition in parentheses, over several lines if one of them needs it. -/
def printArguments (args : List InputValue) : Text :=
  let parts := args.map InputValue.print
  if anyMultiline parts then wrapped "(\n" (indented (joined "\n" parts)) "\n)"
  else wrapped "(" (joined ", " parts) ")"

/-- A field of a type. -/
def FieldDefinition.print (f : FieldDefinition) : Text :=
  describe f.description ++ f.name ++ printArguments f.arguments ++ ": " ++ f.type.print ++
    wrapped " " (printDirectives f.directives) []

/-- A value of an enumeration. -/
def EnumValue.print (v : EnumValue) : Text :=
  describe v.description ++ joined " " [v.name, printDirectives v.directives]

/-- The interfaces of a type. -/
def printInterfaces (is : List Text) : Text := wrapped "implements " (joined " & " is) []

/-- The parts of a definition or extension, its word first. -/
def TypeBody.parts : TypeBody → List Text
  | .schema ds ops =>
    ["schema", printDirectives ds, braced (ops.map fun (kind, t) => kind.text ++ ": " ++ t)]
  | .scalar n ds => ["scalar", n, printDirectives ds]
  | .object n is ds fs =>
    ["type", n, printInterfaces is, printDirectives ds, braced (fs.map FieldDefinition.print)]
  | .interface n is ds fs =>
    ["interface", n, printInterfaces is, printDirectives ds, braced (fs.map FieldDefinition.print)]
  | .union n ds ts => ["union", n, printDirectives ds, wrapped "= " (joined " | " ts) []]
  | .enum n ds vs => ["enum", n, printDirectives ds, braced (vs.map EnumValue.print)]
  | .input n ds fs => ["input", n, printDirectives ds, braced (fs.map InputValue.print)]

/-! ## Documents -/

/-- The variables of an operation, over several lines if one of them needs it. -/
def printVariables (vs : List VariableDefinition) : Text :=
  let parts := vs.map VariableDefinition.print
  if anyMultiline parts then wrapped "(\n" (joined "\n" parts) "\n)"
  else wrapped "(" (joined ", " parts) ")"

/-- A definition. A query without a name, variables and directives needs no word. -/
def Definition.print : Definition → Text
  | .operation desc kind name vars ds ss =>
    let head := describe desc ++
      joined " " [kind.text, joined [] [name.getD [], printVariables vars], printDirectives ds]
    (if head = "query" then [] else head ++ [' ']) ++ printSelections ss
  | .fragment desc name condition ds ss =>
    describe desc ++ "fragment " ++ name ++ " on " ++ condition ++ " " ++
      wrapped [] (printDirectives ds) " " ++ printSelections ss
  | .type desc body => describe desc ++ joined " " body.parts
  | .extension (.type body) => joined " " ("extend" :: body.parts)
  | .extension (.directive name ds) =>
    joined " " ["extend directive @" ++ name, printDirectives ds]
  | .directive desc name args ds repeatable locations =>
    describe desc ++ "directive @" ++ name ++ printArguments args ++
      wrapped " " (printDirectives ds) [] ++
      (if repeatable then " repeatable".toList else []) ++ " on " ++ joined " | " locations

/-- A document: its definitions with a blank line between them. -/
def print (ds : List Definition) : Text := joined "\n\n" (ds.map Definition.print)

end HttpFile.GraphQL
