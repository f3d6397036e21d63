import HttpFile.Text.Basic

/-!
# `HttpFile.GraphQL.Ast` — the structure of a query document

A document is a list of definitions: operations and fragments over selections of fields, and the
definitions and extensions of a type system.

## Contents
- **Values.** `StringValue`, `Value`, `Argument`, `Directive`.
- **Types.** `TypeRef`.
- **Queries.** `VariableDefinition`, `Selection`.
- **Type systems.** `InputValue`, `FieldDefinition`, `EnumValue`, `TypeBody`, `Extension`.
- **Documents.** `Definition`.
-/

namespace HttpFile.GraphQL

/-- A string, written with one quote or as a block. -/
structure StringValue where
  block : Bool
  value : Text
deriving DecidableEq, Repr

/-- A value given to an argument or as a default. -/
inductive Value where
  | variable (name : Text)
  | int (numeral : Text)
  | float (numeral : Text)
  | string (s : StringValue)
  | bool (b : Bool)
  | null
  | enum (name : Text)
  | list (items : List Value)
  | object (fields : List (Text × Value))
deriving Repr

/-- A named value. -/
structure Argument where
  name : Text
  value : Value
deriving Repr

/-- A directive with its arguments. -/
structure Directive where
  name : Text
  arguments : List Argument
deriving Repr

/-- The type of a variable, argument or field. -/
inductive TypeRef where
  | named (name : Text)
  | list (item : TypeRef)
  | nonNull (type : TypeRef)
deriving DecidableEq, Repr

/-- A variable of an operation. -/
structure VariableDefinition where
  description : Option StringValue
  name : Text
  type : TypeRef
  defaultValue : Option Value
  directives : List Directive
deriving Repr

/-- A field, a spread fragment or an inline fragment. -/
inductive Selection where
  | field (label : Option Text) (name : Text) (arguments : List Argument)
      (directives : List Directive) (selections : Option (List Selection))
  | spread (name : Text) (directives : List Directive)
  | inline (condition : Option Text) (directives : List Directive) (selections : List Selection)
deriving Repr

/-- The kinds of operations. -/
inductive OperationType where
  | query
  | mutation
  | subscription
deriving DecidableEq, Repr

/-- The word for a kind of operation. -/
def OperationType.text : OperationType → Text
  | .query => "query"
  | .mutation => "mutation"
  | .subscription => "subscription"

/-- An argument of a field or directive, or a field of an input type. -/
structure InputValue where
  description : Option StringValue
  name : Text
  type : TypeRef
  defaultValue : Option Value
  directives : List Directive
deriving Repr

/-- A field of an object or interface type. -/
structure FieldDefinition where
  description : Option StringValue
  name : Text
  arguments : List InputValue
  type : TypeRef
  directives : List Directive
deriving Repr

/-- A value of an enumeration. -/
structure EnumValue where
  description : Option StringValue
  name : Text
  directives : List Directive
deriving Repr

/-- What the definition or the extension of a schema or type says after its description. -/
inductive TypeBody where
  | schema (directives : List Directive) (operations : List (OperationType × Text))
  | scalar (name : Text) (directives : List Directive)
  | object (name : Text) (interfaces : List Text) (directives : List Directive)
      (fields : List FieldDefinition)
  | interface (name : Text) (interfaces : List Text) (directives : List Directive)
      (fields : List FieldDefinition)
  | union (name : Text) (directives : List Directive) (types : List Text)
  | enum (name : Text) (directives : List Directive) (values : List EnumValue)
  | input (name : Text) (directives : List Directive) (fields : List InputValue)
deriving Repr

/-- What an extension adds to: a schema or type, or a directive. -/
inductive Extension where
  | type (body : TypeBody)
  | directive (name : Text) (directives : List Directive)
deriving Repr

/-- A definition of a document. -/
inductive Definition where
  | operation (description : Option StringValue) (type : OperationType) (name : Option Text)
      (vars : List VariableDefinition) (directives : List Directive)
      (selections : List Selection)
  | fragment (description : Option StringValue) (name : Text) (condition : Text)
      (directives : List Directive) (selections : List Selection)
  | type (description : Option StringValue) (body : TypeBody)
  | extension (added : Extension)
  | directive (description : Option StringValue) (name : Text) (arguments : List InputValue)
      (directives : List Directive) (repeatable : Bool) (locations : List Text)
deriving Repr

end HttpFile.GraphQL
