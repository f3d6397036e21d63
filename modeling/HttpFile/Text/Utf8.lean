import HttpFile.Text.Basic

/-!
# `HttpFile.Text.Utf8` — texts as bytes

Files hold texts in UTF-8. Bytes that are no text are refused with the place of the first wrong
sequence and the reason.

## Contents
- **Writing.** `encodeChar`, `encode`.
- **Reading.** `DecodeError`, `firstChar`, `decode`.
-/

namespace HttpFile.Utf8

open Text

/-! ## Writing -/

/-- The bytes of a character. -/
def encodeChar (c : Char) : List UInt8 :=
  let n := c.toNat
  let byte (k : Nat) : UInt8 := UInt8.ofNat k
  if n < 0x80 then [byte n]
  else if n < 0x800 then [byte (0xC0 + n / 0x40), byte (0x80 + n % 0x40)]
  else if n < 0x10000 then
    [byte (0xE0 + n / 0x1000), byte (0x80 + n / 0x40 % 0x40), byte (0x80 + n % 0x40)]
  else
    [byte (0xF0 + n / 0x40000), byte (0x80 + n / 0x1000 % 0x40), byte (0x80 + n / 0x40 % 0x40),
      byte (0x80 + n % 0x40)]

/-- The bytes of a text. -/
def encode (t : Text) : List UInt8 := t.flatMap encodeChar

/-! ## Reading -/

/-- Why bytes are no text. -/
inductive Reason where
  | startByte
  | continuationByte
  | endOfData
deriving DecidableEq, Repr

/-- What is said about a reason. -/
def Reason.message : Reason → Text
  | .startByte => "invalid start byte"
  | .continuationByte => "invalid continuation byte"
  | .endOfData => "unexpected end of data"

/-- A sequence of bytes that is no character: its place, its bytes and the reason. -/
structure DecodeError where
  offset : Nat
  bytes : List UInt8
  reason : Reason
deriving DecidableEq, Repr

/-- The failure as one line. -/
def DecodeError.message (e : DecodeError) : Text :=
  let place := match e.bytes with
    | [b] => "byte 0x" ++ hex 2 b.toNat ++ " in position " ++ ofNat e.offset
    | bs => "bytes in position " ++ ofNat e.offset ++ "-" ++ ofNat (e.offset + bs.length - 1)
  "'utf-8' codec can't decode " ++ place ++ ": " ++ e.reason.message

/-- Whether a byte continues a sequence. -/
def isContinuation (b : UInt8) : Bool := 0x80 ≤ b.toNat && b.toNat ≤ 0xBF

/-- The number of bytes of the sequence that a byte starts, and the bounds of the second byte. -/
def sequenceShape? (b : UInt8) : Option (Nat × Nat × Nat) :=
  let n := b.toNat
  if n < 0x80 then some (1, 0x80, 0xBF)
  else if n < 0xC2 then none
  else if n < 0xE0 then some (2, 0x80, 0xBF)
  else if n = 0xE0 then some (3, 0xA0, 0xBF)
  else if n = 0xED then some (3, 0x80, 0x9F)
  else if n < 0xF0 then some (3, 0x80, 0xBF)
  else if n = 0xF0 then some (4, 0x90, 0xBF)
  else if n < 0xF4 then some (4, 0x80, 0xBF)
  else if n = 0xF4 then some (4, 0x80, 0x8F)
  else none

/-- How many of the bytes after the first belong to its sequence: the second within the given
    bounds, the others any that continue one. -/
def continued (lo hi : Nat) : List UInt8 → Nat
  | [] => 0
  | b :: rest =>
    if lo ≤ b.toNat && b.toNat ≤ hi then 1 + (rest.takeWhile isContinuation).length else 0

/-- The code point of a full sequence. -/
def codePoint : List UInt8 → Nat
  | [a] => a.toNat
  | [a, b] => (a.toNat - 0xC0) * 0x40 + (b.toNat - 0x80)
  | [a, b, c] => (a.toNat - 0xE0) * 0x1000 + (b.toNat - 0x80) * 0x40 + (c.toNat - 0x80)
  | [a, b, c, d] =>
    (a.toNat - 0xF0) * 0x40000 + (b.toNat - 0x80) * 0x1000 + (c.toNat - 0x80) * 0x40 +
      (d.toNat - 0x80)
  | _ => 0

/-- The character that a list of bytes starts with and its number of bytes, or the bytes of the
    wrong sequence and the reason. -/
def firstChar (first : UInt8) (rest : List UInt8) : Except (List UInt8 × Reason) (Char × Nat) :=
  match sequenceShape? first with
  | none => .error ([first], .startByte)
  | some (width, lo, hi) =>
    let more := (rest.take (width - 1))
    let good := continued lo hi more
    if good = width - 1 then .ok (Char.ofNat (codePoint (first :: more)), width)
    else if good = more.length then .error (first :: more, .endOfData)
    else .error (first :: more.take good, .continuationByte)

/-- The text of bytes from an offset on. The number counts the bytes of the last character that are
    still to be passed over. -/
def decodeFrom : Nat → Nat → List UInt8 → Except DecodeError Text
  | _, _, [] => .ok []
  | offset, skip + 1, _ :: rest => decodeFrom (offset + 1) skip rest
  | offset, 0, b :: rest =>
    match firstChar b rest with
    | .error (bytes, reason) => .error ⟨offset, bytes, reason⟩
    | .ok (c, width) => (decodeFrom (offset + 1) (width - 1) rest).map (c :: ·)

/-- The text of bytes. -/
def decode (bytes : List UInt8) : Except DecodeError Text := decodeFrom 0 0 bytes

end HttpFile.Utf8
