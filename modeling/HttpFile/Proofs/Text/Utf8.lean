import Mathlib.Data.List.TakeWhile
import HttpFile.Text.Utf8

/-!
# `HttpFile.Proofs.Text.Utf8` — bytes that were written are read back

The bytes of a character have the shape that its first byte announces, and no other reading. So decoding
takes the characters of an encoded text off one after the other.

## Contents
- **One character.** `continued_eq_length`; `ReadsAs`, `readsAs_of_shape`.
- **The four widths.** `readsAs_one` to `readsAs_four`; `readsAs_encodeChar`.
- **Texts.** `decode_encode`.
-/

namespace HttpFile.Utf8

open Text

/-! ## One character -/

theorem toNat_byte {n : Nat} (h : n < 256) : (UInt8.ofNat n).toNat = n := by
  rw [UInt8.toNat_ofNat']
  exact Nat.mod_eq_of_lt h

theorem continued_eq_length {lo hi : Nat} {b : UInt8} {rest : List UInt8} (hlo : lo ≤ b.toNat)
    (hhi : b.toNat ≤ hi) (hrest : ∀ x ∈ rest, isContinuation x = true) :
    continued lo hi (b :: rest) = (b :: rest).length := by
  have hall : rest.takeWhile isContinuation = rest := List.takeWhile_eq_self_iff.mpr hrest
  rw [continued, if_pos (by simp [hlo, hhi]), hall, List.length_cons, Nat.add_comm]

theorem isContinuation_byte {n : Nat} (hlo : 0x80 ≤ n) (hhi : n ≤ 0xBF) :
    isContinuation (UInt8.ofNat n) = true := by
  simp [isContinuation, toNat_byte (show n < 256 by omega), hlo, hhi]

/-- Bytes that are read as a character, whatever stands behind them. -/
def ReadsAs (bytes : List UInt8) (c : Char) : Prop :=
  ∃ b more, bytes = b :: more ∧ ∀ rest, firstChar b (more ++ rest) = .ok (c, more.length + 1)

/-- A first byte with as many bytes behind it as it announces. -/
theorem readsAs_of_shape {b : UInt8} {more : List UInt8} {lo hi n : Nat}
    (hshape : sequenceShape? b = some (more.length + 1, lo, hi)) (hmore : continued lo hi more = more.length)
    (hcode : codePoint (b :: more) = n) : ReadsAs (b :: more) (Char.ofNat n) := by
  refine ⟨b, more, rfl, fun rest => ?_⟩
  unfold firstChar
  rw [hshape]
  simp only [Nat.add_sub_cancel, List.take_left]
  rw [if_pos hmore, hcode]

/-! ## The four widths -/

theorem readsAs_one {n : Nat} (h : n < 0x80) : ReadsAs [UInt8.ofNat n] (Char.ofNat n) := by
  have hb := toNat_byte (show n < 256 by omega)
  have hshape : sequenceShape? (UInt8.ofNat n) = some (1, 0x80, 0xBF) := by
    unfold sequenceShape?
    simp only [hb]
    rw [if_pos h]
  have hmore : continued 0x80 0xBF [] = ([] : List UInt8).length := by rw [continued, List.length_nil]
  exact readsAs_of_shape hshape hmore hb

theorem readsAs_two {n : Nat} (hlow : 0x80 ≤ n) (hhigh : n < 0x800) :
    ReadsAs [UInt8.ofNat (0xC0 + n / 0x40), UInt8.ofNat (0x80 + n % 0x40)] (Char.ofNat n) := by
  have hb := toNat_byte (show 0xC0 + n / 0x40 < 256 by omega)
  have hc := toNat_byte (show 0x80 + n % 0x40 < 256 by omega)
  have hshape : sequenceShape? (UInt8.ofNat (0xC0 + n / 0x40)) = some (2, 0x80, 0xBF) := by
    unfold sequenceShape?
    simp only [hb]
    rw [if_neg (by omega), if_neg (by omega), if_pos (by omega)]
  have hmore : continued 0x80 0xBF [UInt8.ofNat (0x80 + n % 0x40)] = _ :=
    continued_eq_length (hc.symm ▸ by omega) (hc.symm ▸ by omega) (by simp)
  refine readsAs_of_shape hshape hmore ?_
  show ((UInt8.ofNat _).toNat - 0xC0) * 0x40 + ((UInt8.ofNat _).toNat - 0x80) = n
  rw [hb, hc]
  omega

/-- After the first byte with the smallest numbers the second byte keeps out the shorter widths, and after
    another one the halves of surrogate pairs. -/
theorem readsAs_three {n : Nat} (hlow : 0x800 ≤ n) (hhigh : n < 0x10000) (hhalf : n < 0xD800 ∨ 0xDFFF < n) :
    ReadsAs [UInt8.ofNat (0xE0 + n / 0x1000), UInt8.ofNat (0x80 + n / 0x40 % 0x40),
      UInt8.ofNat (0x80 + n % 0x40)] (Char.ofNat n) := by
  have hb := toNat_byte (show 0xE0 + n / 0x1000 < 256 by omega)
  have hc := toNat_byte (show 0x80 + n / 0x40 % 0x40 < 256 by omega)
  have hd := toNat_byte (show 0x80 + n % 0x40 < 256 by omega)
  obtain ⟨lo, hi, hshape, hlo, hhi⟩ : ∃ lo hi,
      sequenceShape? (UInt8.ofNat (0xE0 + n / 0x1000)) = some (3, lo, hi) ∧
        lo ≤ 0x80 + n / 0x40 % 0x40 ∧ 0x80 + n / 0x40 % 0x40 ≤ hi := by
    unfold sequenceShape?
    simp only [hb]
    rw [if_neg (by omega), if_neg (by omega), if_neg (by omega)]
    by_cases hfirst : 0xE0 + n / 0x1000 = 0xE0
    · exact ⟨_, _, if_pos hfirst, by omega, by omega⟩
    rw [if_neg hfirst]
    by_cases hhalves : 0xE0 + n / 0x1000 = 0xED
    · exact ⟨_, _, if_pos hhalves, by omega, by omega⟩
    rw [if_neg hhalves]
    exact ⟨_, _, if_pos (by omega), by omega, by omega⟩
  have hrest : ∀ x ∈ [UInt8.ofNat (0x80 + n % 0x40)], isContinuation x = true :=
    List.forall_mem_singleton.mpr (isContinuation_byte (by omega) (by omega))
  have hmore := continued_eq_length (hc.symm ▸ hlo) (hc.symm ▸ hhi) hrest
  refine readsAs_of_shape hshape hmore ?_
  show ((UInt8.ofNat _).toNat - 0xE0) * 0x1000 + ((UInt8.ofNat _).toNat - 0x80) * 0x40 +
    ((UInt8.ofNat _).toNat - 0x80) = n
  rw [hb, hc, hd]
  omega

/-- After the first byte with the smallest numbers the second byte keeps out the shorter widths, and after
    the last one the numbers that are too great. -/
theorem readsAs_four {n : Nat} (hlow : 0x10000 ≤ n) (hhigh : n < 0x110000) :
    ReadsAs [UInt8.ofNat (0xF0 + n / 0x40000), UInt8.ofNat (0x80 + n / 0x1000 % 0x40),
      UInt8.ofNat (0x80 + n / 0x40 % 0x40), UInt8.ofNat (0x80 + n % 0x40)] (Char.ofNat n) := by
  have hb := toNat_byte (show 0xF0 + n / 0x40000 < 256 by omega)
  have hc := toNat_byte (show 0x80 + n / 0x1000 % 0x40 < 256 by omega)
  have hd := toNat_byte (show 0x80 + n / 0x40 % 0x40 < 256 by omega)
  have he := toNat_byte (show 0x80 + n % 0x40 < 256 by omega)
  obtain ⟨lo, hi, hshape, hlo, hhi⟩ : ∃ lo hi,
      sequenceShape? (UInt8.ofNat (0xF0 + n / 0x40000)) = some (4, lo, hi) ∧
        lo ≤ 0x80 + n / 0x1000 % 0x40 ∧ 0x80 + n / 0x1000 % 0x40 ≤ hi := by
    unfold sequenceShape?
    simp only [hb]
    rw [if_neg (by omega), if_neg (by omega), if_neg (by omega), if_neg (by omega), if_neg (by omega),
      if_neg (by omega)]
    -- the first and the last of these bytes bound the second one
    by_cases hfirst : 0xF0 + n / 0x40000 = 0xF0
    · exact ⟨_, _, if_pos hfirst, by omega, by omega⟩
    rw [if_neg hfirst]
    by_cases hmiddle : 0xF0 + n / 0x40000 < 0xF4
    · exact ⟨_, _, if_pos hmiddle, by omega, by omega⟩
    rw [if_neg hmiddle]
    exact ⟨_, _, if_pos (by omega), by omega, by omega⟩
  have hrest : ∀ x ∈ [UInt8.ofNat (0x80 + n / 0x40 % 0x40), UInt8.ofNat (0x80 + n % 0x40)],
      isContinuation x = true :=
    List.forall_mem_cons.mpr ⟨isContinuation_byte (by omega) (by omega),
      List.forall_mem_singleton.mpr (isContinuation_byte (by omega) (by omega))⟩
  have hmore := continued_eq_length (hc.symm ▸ hlo) (hc.symm ▸ hhi) hrest
  refine readsAs_of_shape hshape hmore ?_
  show ((UInt8.ofNat _).toNat - 0xF0) * 0x40000 + ((UInt8.ofNat _).toNat - 0x80) * 0x1000 +
    ((UInt8.ofNat _).toNat - 0x80) * 0x40 + ((UInt8.ofNat _).toNat - 0x80) = n
  rw [hb, hc, hd, he]
  omega

/-- **A character is what its bytes are read as.** -/
theorem readsAs_encodeChar (c : Char) : ReadsAs (encodeChar c) c := by
  have hvalid : c.toNat < 0xD800 ∨ (0xDFFF < c.toNat ∧ c.toNat < 0x110000) := c.valid
  suffices hnumber : ReadsAs (encodeChar c) (Char.ofNat c.toNat) by rwa [Char.ofNat_toNat] at hnumber
  unfold encodeChar
  by_cases h1 : c.toNat < 0x80
  · simp only [if_pos h1]
    exact readsAs_one h1
  by_cases h2 : c.toNat < 0x800
  · simp only [if_neg h1, if_pos h2]
    exact readsAs_two (by omega) h2
  by_cases h3 : c.toNat < 0x10000
  · simp only [if_neg h1, if_neg h2, if_pos h3]
    exact readsAs_three (by omega) h3 (by omega)
  · simp only [if_neg h1, if_neg h2, if_neg h3]
    exact readsAs_four (by omega) (by omega)

/-! ## Texts -/

theorem decodeFrom_skip (offset : Nat) (more rest : List UInt8) :
    decodeFrom offset more.length (more ++ rest) = decodeFrom (offset + more.length) 0 rest := by
  induction more generalizing offset with
  | nil => rfl
  | cons b more ih =>
      have hoffset : offset + 1 + more.length = offset + (more.length + 1) := by omega
      rw [List.cons_append, List.length_cons, decodeFrom, ih, hoffset]

/-- **A text is read back from its bytes.** -/
theorem decode_encode (t : Text) : decode (encode t) = .ok t := by
  have hfrom : ∀ offset, decodeFrom offset 0 (encode t) = .ok t := by
    induction t with
    | nil => intro offset; rfl
    | cons c t ih =>
        intro offset
        obtain ⟨b, more, hbytes, hfirst⟩ := readsAs_encodeChar c
        have hcons : encode (c :: t) = b :: (more ++ encode t) := by
          show encodeChar c ++ encode t = _
          rw [hbytes, List.cons_append]
        rw [hcons, decodeFrom, hfirst]
        simp only [Nat.add_sub_cancel]
        rw [decodeFrom_skip, ih]
        rfl
  exact hfrom 0

end HttpFile.Utf8
