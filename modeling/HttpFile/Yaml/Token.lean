import HttpFile.Text.Surrogate
import HttpFile.Yaml.Glyph

/-!
# `HttpFile.Yaml.Token` — the tokens of a YAML text

Tokens are the scalars, marks and properties of a text, and marks that layout implies: where a block
of entries starts and ends, and that a scalar before a colon is a key.

## Contents
- **Scalars.** `Content`: the text of a scalar, or a wide text.
- **Tokens.** `Directive`, `Token`.
-/

namespace HttpFile.Yaml

open Text

/-- What a scalar holds: a text, or one with halves of characters. -/
inductive Content where
  | text (t : Text)
  | halves (w : Wide)
deriving DecidableEq, Repr

/-- The content with the given code points. -/
def Content.ofCodes (codes : List Nat) : Content :=
  let w := codes.map ofCode
  match Word.text? w with
  | some t => .text t
  | none => .halves w

/-- The text of a scalar. -/
def Content.readable : Content → Text
  | .text t => t
  | .halves w => Wide.readable w

/-- A directive in front of a document. -/
inductive Directive where
  | version (major : Nat)
  | tagHandle (handle stem : Text)
  | other
deriving DecidableEq, Repr

/-- A token. -/
inductive Token where
  | directive (d : Directive)
  | documentStart
  | documentEnd
  | sequenceOpen
  | sequenceClose
  | mappingOpen
  | mappingClose
  | comma
  | dash
  | key
  | colon
  | blockSequence
  | blockMapping
  | blockEnd
  | alias (name : Text)
  | anchor (name : Text)
  | tag (handle : Option Text) (suffix : Text)
  | scalar (content : Content) (plain : Bool)
  | streamEnd
  /-- What follows is no token. -/
  | broken (f : Failure)
deriving DecidableEq, Repr

/-- Whether a collection may start with a token. The marks of entries start a collection that is not
    indented, or one that is a single entry. -/
def Token.opens : Token → Bool
  | .sequenceOpen | .mappingOpen | .blockSequence | .blockMapping | .dash | .key => true
  | _ => false

end HttpFile.Yaml
