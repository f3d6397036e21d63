import HttpFile.Text.Basic

/-!
# `HttpFile.Text.Base64` — bytes written in sixty-four characters

Four characters write three bytes. Characters outside of the sixty-four do not count, and padding
ends the text once it completes a group.

## Contents
- **Characters.** `sextet?`.
- **Bytes.** `decode?`.
-/

namespace HttpFile.Base64

/-- The six bits of a character. -/
def sextet? (c : Char) : Option Nat :=
  if 'A' ≤ c ∧ c ≤ 'Z' then some (c.toNat - 'A'.toNat)
  else if 'a' ≤ c ∧ c ≤ 'z' then some (c.toNat - 'a'.toNat + 26)
  else if '0' ≤ c ∧ c ≤ '9' then some (c.toNat - '0'.toNat + 52)
  else if c = '+' then some 62
  else if c = '/' then some 63
  else none

/-- The bytes of the characters to come. `group` counts the characters of the group at hand, `left`
    holds the bits of the last one that are still to be used, and `pads` counts the padding. -/
def decodeFrom (group left pads : Nat) : Text → Option (List UInt8)
  | [] => if group = 0 then some [] else none
  | c :: rest =>
    if c = '=' then
      if 2 ≤ group then
        if 4 ≤ group + pads + 1 then some [] else decodeFrom group left (pads + 1) rest
      else decodeFrom group left pads rest
    else
      match sextet? c with
      | none => decodeFrom group left pads rest
      | some n =>
        match group with
        | 0 => decodeFrom 1 n 0 rest
        | 1 => (decodeFrom 2 (n % 16) 0 rest).map (UInt8.ofNat (left * 4 + n / 16) :: ·)
        | 2 => (decodeFrom 3 (n % 4) 0 rest).map (UInt8.ofNat (left * 16 + n / 4) :: ·)
        | _ => (decodeFrom 0 0 0 rest).map (UInt8.ofNat (left * 64 + n) :: ·)

/-- The bytes that a text writes, if its last group is complete. -/
def decode? (t : Text) : Option (List UInt8) := decodeFrom 0 0 0 t

end HttpFile.Base64
