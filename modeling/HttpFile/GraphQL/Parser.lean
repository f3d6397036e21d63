import HttpFile.GraphQL.Ast
import HttpFile.GraphQL.Token

/-!
# `HttpFile.GraphQL.Parser` — from lexemes to a query document

The parser looks at one lexeme at a time. A fault among the lexemes is met when the parser steps
onto it, so of two faults the one that comes first in the text is reported.

## Contents
- **Reading.** `Stream`, `Parse`, `advance`, `expect`, `skipIf`, `keyword`.
- **Repetition.** `upTo`, `surrounded`, `optionalSurrounded`, `separated`.
- **Parts.** Values, directives, types, selections and definitions. Each takes the number of
  lexemes, which bounds its repetitions, and the `levels` that it may still open.
- **Documents.** `parse`.
-/

namespace HttpFile.GraphQL

/-! ## Reading -/

/-- The lexeme at hand, the lexemes after it, and the fault that ends them. -/
structure Stream where
  here : Token
  rest : List Token
  fault : Option Fault

/-- A reader of lexemes. -/
abbrev Parse := StateT Stream (Except Fault)

/-- Step onto the next lexeme; after the last one comes the end, and the end stays. -/
def advance : Parse Unit := fun s =>
  match s.rest, s.fault with
  | t :: rest, _ => .ok ((), { s with here := t, rest := rest })
  | [], some fault => .error fault
  | [], none => .ok ((), { s with here := .eof })

/-- The lexeme at hand. -/
def here : Parse Token := fun s => .ok (s.here, s)

/-- The lexeme after the one at hand. -/
def lookahead : Parse Token := fun s =>
  match s.here, s.rest, s.fault with
  | .eof, _, _ => .ok (.eof, s)
  | _, t :: _, _ => .ok (t, s)
  | _, [], some fault => .error fault
  | _, [], none => .ok (.eof, s)

/-- Refuse the lexeme at hand. -/
def unexpected {α : Type} : Parse α := do throw (.unexpected (← here))

/-- Whether a mark is at hand. -/
def peek (p : Punctuator) : Parse Bool := do return (← here) = .punctuator p

/-- Step over a mark. -/
def expect (p : Punctuator) : Parse Unit := do
  let t ← here
  if t = .punctuator p then advance else throw (.expected (inApostrophes p.text) t)

/-- Step over a mark if it is at hand, and say whether it was. -/
def skipIf (p : Punctuator) : Parse Bool := do
  if ← peek p then
    advance
    return true
  else return false

/-- Read a name. -/
def name : Parse Text := do
  match ← here with
  | .name t =>
    advance
    return t
  | t => throw (.expected "Name" t)

/-- Step over a given word. -/
def keyword (word : Text) : Parse Unit := do
  let t ← here
  if t = .name word then advance else throw (.expected (inApostrophes word) t)

/-- Step over a given word if it is at hand, and say whether it was. -/
def skipWord (word : Text) : Parse Bool := do
  if (← here) = .name word then
    advance
    return true
  else return false

/-! ## Repetition -/

/-- Read parts until a closing mark, which is stepped over. -/
def upTo {α : Type} (closing : Punctuator) (part : Parse α) : Nat → Parse (List α)
  | 0 => unexpected
  | fuel + 1 => do
    if ← skipIf closing then return []
    else
      let first ← part
      let more ← upTo closing part fuel
      return first :: more

/-- Read any number of parts between two marks. -/
def surrounded {α : Type} (fuel : Nat) (opening closing : Punctuator) (part : Parse α) :
    Parse (List α) := do
  expect opening
  upTo closing part fuel

/-- Read at least one part between two marks. -/
def surroundedSome {α : Type} (fuel : Nat) (opening closing : Punctuator) (part : Parse α) :
    Parse (List α) := do
  expect opening
  let first ← part
  let more ← upTo closing part fuel
  return first :: more

/-- Read at least one part between two marks if the opening one is at hand. -/
def optionalSurrounded {α : Type} (fuel : Nat) (opening closing : Punctuator) (part : Parse α) :
    Parse (List α) := do
  if ← peek opening then surroundedSome fuel opening closing part else return []

/-- Read parts with a mark between them, and possibly before the first. -/
def separatedBy {α : Type} (mark : Punctuator) (part : Parse α) : Nat → Parse (List α)
  | 0 => unexpected
  | fuel + 1 => do
    let first ← part
    if ← skipIf mark then
      let more ← separatedBy mark part fuel
      return first :: more
    else return [first]

/-- Read parts with a mark between them, and possibly before the first. -/
def separated {α : Type} (fuel : Nat) (mark : Punctuator) (part : Parse α) : Parse (List α) := do
  discard (skipIf mark)
  separatedBy mark part fuel

/-! ## Values -/

/-- How many levels of selections, values or types may stand inside each other. -/
def maxNesting : Nat := 200

/-- Read a variable. -/
def variableName : Parse Text := do
  expect .dollar
  name

/-- Read a variable where a constant must stand: always a fault. -/
def constantVariable {α : Type} : Parse α := do
  let mark ← here
  expect .dollar
  match ← here with
  | .name t => throw (.constantVariable t)
  | _ => throw (.unexpected mark)

/-- The value that a name stands for. -/
def Value.ofName (t : Text) : Value :=
  if t = "true" then .bool true
  else if t = "false" then .bool false
  else if t = "null" then .null
  else .enum t

/-- Step over the lexeme at hand and give a value for it. -/
def taking (v : Value) : Parse Value := do
  advance
  return v

/-- Read a value that holds no other values; a constant is no variable. -/
def simpleValue (constant : Bool) : Parse Value := do
  match ← here with
  | .int t => taking (.int t)
  | .float t => taking (.float t)
  | .string t => taking (.string ⟨false, t⟩)
  | .block t => taking (.string ⟨true, t⟩)
  | .name t => taking (Value.ofName t)
  | .punctuator .dollar =>
    if constant then constantVariable else return .variable (← variableName)
  | _ => unexpected

/-- Read a value; a constant holds no variables. A list or an object opens a level. -/
def value (fuel : Nat) (constant : Bool) : Nat → Parse Value
  | 0 => do
    if (← peek .bracketL) || (← peek .braceL) then throw .tooDeep else simpleValue constant
  | levels + 1 => do
    if ← peek .bracketL then
      return .list (← surrounded fuel .bracketL .bracketR (value fuel constant levels))
    else if ← peek .braceL then
      let field : Parse (Text × Value) := do
        let n ← name
        expect .colon
        return (n, ← value fuel constant levels)
      return .object (← surrounded fuel .braceL .braceR field)
    else simpleValue constant

/-- Read an argument. -/
def argument (fuel : Nat) (constant : Bool) (levels : Nat) : Parse Argument := do
  let n ← name
  expect .colon
  return ⟨n, ← value fuel constant levels⟩

/-- Read arguments in parentheses, if there are any. -/
def arguments (fuel : Nat) (constant : Bool) (levels : Nat) : Parse (List Argument) :=
  optionalSurrounded fuel .parenL .parenR (argument fuel constant levels)

/-- Read directives, at most as many as the last number says. -/
def directivesUpTo (fuel : Nat) (constant : Bool) (levels : Nat) : Nat → Parse (List Directive)
  | 0 => unexpected
  | count + 1 => do
    if ← skipIf .at then
      let n ← name
      let args ← arguments fuel constant levels
      let more ← directivesUpTo fuel constant levels count
      return ⟨n, args⟩ :: more
    else return []

/-- Read directives. -/
def directives (fuel : Nat) (constant : Bool) (levels : Nat) : Parse (List Directive) :=
  directivesUpTo fuel constant levels fuel

/-- Read directives whose arguments are constants. -/
def constantDirectives (fuel : Nat) : Parse (List Directive) := directives fuel true maxNesting

/-! ## Types -/

/-- A type, without null if an exclamation mark follows it, which is stepped over. -/
def banged (t : TypeRef) : Parse TypeRef := do
  if ← skipIf .bang then return .nonNull t else return t

/-- Read a type. A list opens a level. -/
def typeRef : Nat → Parse TypeRef
  | 0 => do
    if ← peek .bracketL then throw .tooDeep else banged (.named (← name))
  | levels + 1 => do
    if ← skipIf .bracketL then
      let item ← typeRef levels
      expect .bracketR
      banged (.list item)
    else banged (.named (← name))

/-! ## Queries -/

/-- Read a description, if there is one. -/
def description : Parse (Option StringValue) := do
  match ← here with
  | .string t =>
    advance
    return some ⟨false, t⟩
  | .block t =>
    advance
    return some ⟨true, t⟩
  | _ => return none

/-- Read a default value, if there is one. -/
def defaultValue (fuel : Nat) : Parse (Option Value) := do
  if ← skipIf .equals then return some (← value fuel true maxNesting) else return none

/-- Read a variable of an operation. -/
def variableDefinition (fuel : Nat) : Parse VariableDefinition := do
  let desc ← description
  let n ← variableName
  expect .colon
  let t ← typeRef maxNesting
  let d ← defaultValue fuel
  return ⟨desc, n, t, d, ← constantDirectives fuel⟩

/-- Read the name of a fragment, which is not the word `on`. -/
def fragmentName : Parse Text := do
  if (← here).value? = some "on".toList then unexpected else name

/-- Read a spread or an inline fragment behind its dots, given how to read its selections. -/
def spreadSelection (fuel levels : Nat) (inner : Parse (List Selection)) : Parse Selection := do
  let conditional ← skipWord "on"
  match ← here with
  | .name _ =>
    if conditional then
      let condition ← name
      let ds ← directives fuel false levels
      return .inline (some condition) ds (← inner)
    else
      let n ← fragmentName
      return .spread n (← directives fuel false levels)
  | t =>
    if conditional then throw (.expected "Name" t)
    else
      let ds ← directives fuel false levels
      return .inline none ds (← inner)

/-- Read a field, given how to read its selections. -/
def fieldSelection (fuel levels : Nat) (inner : Parse (List Selection)) : Parse Selection := do
  let first ← name
  let (label, n) ←
    if ← skipIf .colon then pure (some first, ← name) else pure (none, first)
  let args ← arguments fuel false levels
  let ds ← directives fuel false levels
  let parts ← if ← peek .braceL then pure (some (← inner)) else pure none
  return .field label n args ds parts

/-- Read a selection, given how to read the selections inside it. -/
def selection (fuel levels : Nat) (inner : Parse (List Selection)) : Parse Selection := do
  if ← skipIf .spread then spreadSelection fuel levels inner
  else fieldSelection fuel levels inner

/-- Read selections in braces, which open a level. -/
def selections (fuel : Nat) : Nat → Parse (List Selection)
  | 0 => throw .tooDeep
  | levels + 1 =>
    surrounded fuel .braceL .braceR (selection fuel levels (selections fuel levels))

/-- Read the word for a kind of operation. -/
def operationType : Parse OperationType := do
  let t ← here
  let word ← name
  if word = "query" then return .query
  else if word = "mutation" then return .mutation
  else if word = "subscription" then return .subscription
  else throw (.unexpected t)

/-- Read an operation. -/
def operation (fuel : Nat) : Parse Definition := do
  if ← peek .braceL then
    return .operation none .query none [] [] (← selections fuel maxNesting)
  else
    let desc ← description
    let kind ← operationType
    let n ← match ← here with
      | .name _ => pure (some (← name))
      | _ => pure none
    let vars ← optionalSurrounded fuel .parenL .parenR (variableDefinition fuel)
    let ds ← directives fuel false maxNesting
    return .operation desc kind n vars ds (← selections fuel maxNesting)

/-- Read a fragment. -/
def fragment (fuel : Nat) : Parse Definition := do
  let desc ← description
  keyword "fragment"
  let n ← fragmentName
  keyword "on"
  let condition ← name
  let ds ← directives fuel false maxNesting
  return .fragment desc n condition ds (← selections fuel maxNesting)

/-! ## Type systems -/

/-- Read an argument of a definition. -/
def inputValue (fuel : Nat) : Parse InputValue := do
  let desc ← description
  let n ← name
  expect .colon
  let t ← typeRef maxNesting
  let d ← defaultValue fuel
  return ⟨desc, n, t, d, ← constantDirectives fuel⟩

/-- Read a field of a type. -/
def fieldDefinition (fuel : Nat) : Parse FieldDefinition := do
  let desc ← description
  let n ← name
  let args ← optionalSurrounded fuel .parenL .parenR (inputValue fuel)
  expect .colon
  let t ← typeRef maxNesting
  return ⟨desc, n, args, t, ← constantDirectives fuel⟩

/-- Read a value of an enumeration, which is none of the words for constants. -/
def enumValue (fuel : Nat) : Parse EnumValue := do
  let desc ← description
  let t ← here
  if ["true", "false", "null"].any fun word => t.value? = some word.toList then
    throw (.reservedEnumValue t)
  else
    let n ← name
    return ⟨desc, n, ← constantDirectives fuel⟩

/-- Read the interfaces of a type. -/
def interfaces (fuel : Nat) : Parse (List Text) := do
  if ← skipWord "implements" then separated fuel .ampersand name else return []

/-- Read the operations of a schema. -/
def operationTypeDefinition : Parse (OperationType × Text) := do
  let kind ← operationType
  expect .colon
  return (kind, ← name)

/-- Read what a definition says after its word, and an extension too. A definition of a schema must
    name operations. -/
def typeBody (fuel : Nat) (extending : Bool) : Parse TypeBody := do
  let word ← name
  if word = "schema" then
    let ds ← constantDirectives fuel
    let ops ←
      if extending then optionalSurrounded fuel .braceL .braceR operationTypeDefinition
      else surroundedSome fuel .braceL .braceR operationTypeDefinition
    return .schema ds ops
  else if word = "scalar" then
    let n ← name
    return .scalar n (← constantDirectives fuel)
  else if word = "type" then
    let n ← name
    let is ← interfaces fuel
    let ds ← constantDirectives fuel
    return .object n is ds (← optionalSurrounded fuel .braceL .braceR (fieldDefinition fuel))
  else if word = "interface" then
    let n ← name
    let is ← interfaces fuel
    let ds ← constantDirectives fuel
    return .interface n is ds (← optionalSurrounded fuel .braceL .braceR (fieldDefinition fuel))
  else if word = "union" then
    let n ← name
    let ds ← constantDirectives fuel
    let types ← if ← skipIf .equals then separated fuel .pipe name else pure []
    return .union n ds types
  else if word = "enum" then
    let n ← name
    let ds ← constantDirectives fuel
    return .enum n ds (← optionalSurrounded fuel .braceL .braceR (enumValue fuel))
  else
    let n ← name
    let ds ← constantDirectives fuel
    return .input n ds (← optionalSurrounded fuel .braceL .braceR (inputValue fuel))

/-- Whether an extension of a schema or type adds nothing. -/
def TypeBody.isEmpty : TypeBody → Bool
  | .schema ds ops => ds.isEmpty && ops.isEmpty
  | .scalar _ ds => ds.isEmpty
  | .object _ is ds fs => is.isEmpty && ds.isEmpty && fs.isEmpty
  | .interface _ is ds fs => is.isEmpty && ds.isEmpty && fs.isEmpty
  | .union _ ds ts => ds.isEmpty && ts.isEmpty
  | .enum _ ds vs => ds.isEmpty && vs.isEmpty
  | .input _ ds fs => ds.isEmpty && fs.isEmpty

/-- The words that open a definition of a type system, directives aside. -/
def typeWords : List String := ["schema", "scalar", "type", "interface", "union", "enum", "input"]

/-- Whether a lexeme is one of the given words. -/
def Token.isOneOf (words : List String) (t : Token) : Bool :=
  words.any fun word => t = .name word.toList

/-- Read an extension of a directive. -/
def directiveExtension (fuel : Nat) : Parse Extension := do
  keyword "directive"
  expect .at
  let n ← name
  return .directive n (← constantDirectives fuel)

/-- Whether an extension adds nothing. -/
def Extension.isEmpty : Extension → Bool
  | .type body => body.isEmpty
  | .directive _ ds => ds.isEmpty

/-- Read an extension, which must add something. -/
def extension (fuel : Nat) : Parse Definition := do
  let word ← lookahead
  if word.isOneOf ("directive" :: typeWords) then
    keyword "extend"
    let added ←
      if word.isOneOf ["directive"] then directiveExtension fuel
      else pure (.type (← typeBody fuel true))
    if added.isEmpty then unexpected else return .extension added
  else throw (.unexpected word)

/-- The places where a directive may stand. -/
def directiveLocations : List String :=
  ["QUERY", "MUTATION", "SUBSCRIPTION", "FIELD", "FRAGMENT_DEFINITION", "FRAGMENT_SPREAD",
    "INLINE_FRAGMENT", "VARIABLE_DEFINITION", "FRAGMENT_VARIABLE_DEFINITION", "SCHEMA", "SCALAR",
    "OBJECT", "FIELD_DEFINITION", "ARGUMENT_DEFINITION", "INTERFACE", "UNION", "ENUM", "ENUM_VALUE",
    "INPUT_OBJECT", "INPUT_FIELD_DEFINITION", "DIRECTIVE_DEFINITION"]

/-- Read a place where a directive may stand. -/
def directiveLocation : Parse Text := do
  let t ← here
  let n ← name
  if t.isOneOf directiveLocations then return n else throw (.unexpected t)

/-- Read the definition of a directive. -/
def directiveDefinition (fuel : Nat) : Parse Definition := do
  let desc ← description
  keyword "directive"
  expect .at
  let n ← name
  let args ← optionalSurrounded fuel .parenL .parenR (inputValue fuel)
  let ds ← constantDirectives fuel
  let repeatable ← skipWord "repeatable"
  keyword "on"
  return .directive desc n args ds repeatable (← separated fuel .pipe directiveLocation)

/-! ## Documents -/

/-- Read a definition. -/
def definition (fuel : Nat) : Parse Definition := do
  if ← peek .braceL then operation fuel
  else
    let described := match ← here with
      | .string _ | .block _ => true
      | _ => false
    let word ← if described then lookahead else here
    if described && word = .punctuator .braceL then throw .describedShorthand
    else if word.isOneOf typeWords then
      let desc ← description
      return .type desc (← typeBody fuel false)
    else if word.isOneOf ["directive"] then directiveDefinition fuel
    else if word.isOneOf ["query", "mutation", "subscription"] then operation fuel
    else if word.isOneOf ["fragment"] then fragment fuel
    else
      match word with
      | .name _ =>
        if described then throw .strayDescription
        else if word.isOneOf ["extend"] then extension fuel
        else throw (.unexpected word)
      | _ => throw (.unexpected word)

/-- Read definitions up to the end. -/
def definitions (bound : Nat) : Nat → Parse (List Definition)
  | 0 => unexpected
  | fuel + 1 => do
    let first ← definition bound
    if (← here) = .eof then return [first]
    else
      let more ← definitions bound fuel
      return first :: more

/-- The definitions of a query document. -/
def parse (t : Text) : Except Fault (List Definition) :=
  let (tokens, fault) := lexemes t
  let bound := tokens.length + 2
  match tokens, fault with
  | [], some f => .error f
  | [], none => .error (.unexpected .eof)
  | first :: rest, _ =>
    match (definitions bound bound).run ⟨first, rest, fault⟩ with
    | .ok (ds, _) => .ok ds
    | .error e => .error e

end HttpFile.GraphQL
