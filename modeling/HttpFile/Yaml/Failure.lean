import HttpFile.Text.Basic

/-!
# `HttpFile.Yaml.Failure` — why a text has no YAML value

A text may not be YAML at all, a scalar in it may be no value of the type that it is tagged with, or its
collections may stand too deep inside each other.

## Contents
- **Causes.** `Failure` and its `message`.
-/

namespace HttpFile.Yaml

/-- Why a text has no value. -/
inductive Failure where
  /-- The text is not a document, or a node is no value of its tag. -/
  | malformed
  /-- A scalar is no number, date or character code in the range of its type. -/
  | outOfRange
  /-- A scalar is no word for a truth value. -/
  | unknownWord
  /-- A scalar does not have the form of a date. -/
  | formless
  /-- A scalar that should hold a number is empty. -/
  | empty
  /-- A number is too large for its type. -/
  | tooLarge
  /-- A scalar is given by a mapping that gives itself. -/
  | endless
  /-- A date is given by a mapping. -/
  | notAScalar
  /-- There is no room for so many collections inside each other. -/
  | tooDeep
deriving DecidableEq, Repr

/-- What is said about a failure. -/
def Failure.message : Failure → Text
  | .malformed => "the text is not a well-formed document"
  | .outOfRange => "a scalar is out of the range of its type"
  | .unknownWord => "a scalar is no truth value"
  | .formless => "a scalar is no date"
  | .empty => "a number is empty"
  | .tooLarge => "a number is too large"
  | .endless => "a scalar is given by itself"
  | .notAScalar => "a date is given by a mapping"
  | .tooDeep => "too many collections stand inside each other"

end HttpFile.Yaml
