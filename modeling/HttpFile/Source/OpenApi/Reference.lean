import HttpFile.Source.Failure

/-!
# `HttpFile.Source.OpenApi.Reference` — references inside a specification

A mapping with a `$ref` stands for another place of the specification. The place is named by a path
of keys from the top. Chains of references are followed up to a bound.

## Contents
- **Pointers.** `pointerKeys`, `descend`.
- **Following.** `resolveWithin`, `resolve`.
-/

namespace HttpFile.Source.OpenApi

open Text

/-- The greatest number of references that are followed in a row. -/
def maxReferences : Nat := 16

/-- The key under which a reference stands. -/
def referenceKey : Text := "$ref"

/-- A key of a pointer with its escapes undone. -/
def unescapeKey (t : Text) : Text := replaceAll ['~', '0'] ['~'] (replaceAll ['~', '1'] ['/'] t)

/-- The keys of a pointer, given the text behind its mark. -/
def pointerKeys (pointer : Text) : List Text := (fieldsAt '/' pointer).map unescapeKey

/-- The data at the end of a path of keys; nothing if the path leaves the mappings. -/
def descend (v : Value) (keys : List Text) : Value :=
  keys.foldl (fun v key => (v.get? key).getD .null) v

/-- The data that a node stands for, following at most so many references. A reference to another
    file is skipped with a warning. -/
def resolveWithin (spec : Value) : Nat → Value → Work Value
  | links, node =>
    match node.get? referenceKey with
    | none => return node
    | some reference =>
      match links with
      | 0 => lacking (.referenceTooDeep reference.text)
      | links + 1 =>
        match reference with
        | .str ('#' :: '/' :: pointer) =>
          match descend spec (pointerKeys pointer) with
          | .null => lacking (.referenceUnresolved ('#' :: '/' :: pointer))
          | target => resolveWithin spec links target
        | _ => do
          Logged.warn ("Skipping non-local $ref " ++ reference.text)
          return .null

/-- The data that a node stands for. -/
def resolve (spec node : Value) : Work Value := resolveWithin spec maxReferences node

end HttpFile.Source.OpenApi
