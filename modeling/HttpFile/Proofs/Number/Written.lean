import HttpFile.Number.Shortest
import HttpFile.Proofs.Number.Rounding
import HttpFile.Proofs.Text.Trim

/-!
# `HttpFile.Proofs.Number.Written` — the digits that a number is written with

A number is written with the first decimal that reads back, or with the exact one. Either way the decimal reads
back, whatever the search finds. From its digits the zeros at the end go into the power of ten.

## Contents
- **Digits.** `digitsValue_append`, `digitsValue_zeros`, `ofNat_eq_cons`.
- **Decimals.** `decimal_reads`: the decimal of a number reads back.
- **Layout.** `significant_spec`.
-/

namespace HttpFile.Text

/-! ## Digits -/

theorem digitsValue_ofNat (n : Nat) : digitsValue (ofNat n) = n :=
  Nat.ofDigitChars_toDigits (by decide) (by decide)

theorem isDigit_of_mem_ofNat {n : Nat} {c : Char} (h : c ∈ ofNat n) : c.isDigit = true :=
  Nat.isDigit_of_mem_toDigits (by decide) (by decide) h

theorem ofNat_ne_nil (n : Nat) : ofNat n ≠ [] := Nat.toDigits_ne_nil

theorem digitsValue_snoc (u : Text) (c : Char) :
    digitsValue (u ++ [c]) = 10 * digitsValue u + (c.toNat - '0'.toNat) := by
  simp [digitsValue]

theorem digitsValue_append (u v : Text) :
    digitsValue (u ++ v) = digitsValue u * 10 ^ v.length + digitsValue v := by
  induction v using List.reverseRecOn with
  | nil => simp [digitsValue]
  | append_singleton v c ih =>
      rw [← List.append_assoc, digitsValue_snoc, ih, digitsValue_snoc, List.length_append, List.length_singleton,
        Nat.pow_succ]
      ring

theorem digitsValue_zeros (k : Nat) : digitsValue (List.replicate k '0') = 0 := by
  induction k with
  | zero => rfl
  | succ k ih => rw [List.replicate_succ', digitsValue_snoc, ih, Nat.sub_self]

theorem digitsValue_pos {c : Char} (ds : Text) (hc : c.isDigit = true) (h0 : c ≠ '0') :
    0 < digitsValue (c :: ds) := by
  have hfirst : 0 < digitsValue [c] := by
    have hne : c.toNat ≠ '0'.toNat := fun he => h0 (Char.toNat_inj.mp he)
    have hle : '0'.toNat ≤ c.toNat := by
      simp only [Char.isDigit, Bool.and_eq_true, decide_eq_true_eq] at hc
      exact hc.1
    show 0 < 10 * 0 + (c.toNat - '0'.toNat)
    omega
  rw [← List.singleton_append, digitsValue_append]
  exact Nat.add_pos_left (Nat.mul_pos hfirst (Nat.pow_pos (by decide))) _

/-- The numeral of a positive number does not start with a nought. -/
theorem ofNat_eq_cons {n : Nat} (hn : 0 < n) : ∃ c ds, ofNat n = c :: ds ∧ c ≠ '0' := by
  induction n using Nat.strongRecOn with
  | ind n ih =>
      by_cases hsmall : n < 10
      · refine ⟨n.digitChar, [], Nat.toDigits_of_lt_base hsmall, ?_⟩
        have hdigit : ∀ d < 10, 0 < d → d.digitChar ≠ '0' := by decide
        exact hdigit n hsmall hn
      · obtain ⟨c, ds, heq, hc⟩ := ih (n / 10) (by omega) (by omega)
        refine ⟨c, ds ++ [(n % 10).digitChar], ?_, hc⟩
        unfold ofNat at heq ⊢
        rw [Nat.toDigits_of_base_le (by decide) (by omega), heq]
        rfl

/-- The characters at the end of a text that trimming takes away. -/
theorem trimRightWhere_spec (p : Char → Bool) (t : Text) :
    ∃ w, t = trimRightWhere p t ++ w ∧ ∀ c ∈ w, p c = true := by
  refine ⟨(t.reverse.takeWhile p).reverse, ?_, ?_⟩
  · rw [trimRightWhere, ← List.reverse_append, List.takeWhile_append_dropWhile, List.reverse_reverse]
  · intro c hc
    exact List.mem_takeWhile_imp (List.mem_reverse.mp hc)

end HttpFile.Text

namespace HttpFile.Binary64

open Text

/-! ## Decimals -/

theorem shortest?_reads {m : Nat} {e : Int} {d : Decimal} (h : shortest? m e = some d) :
    ofDecimal false d.digits d.exponent = .finite false m e := by
  obtain ⟨count, -, hfind⟩ := List.exists_of_findSome?_eq_some h
  simpa using List.find?_some hfind

/-- **The decimal that a number is written with reads back as the number.** -/
theorem decimal_reads {m : Nat} {e : Int} (hc : Canonical m e) (hm : 0 < m) (s : Bool) :
    0 < (decimal m e).digits ∧ ofDecimal s (decimal m e).digits (decimal m e).exponent = .finite s m e := by
  unfold decimal
  split
  · next d hd =>
      have hreads := shortest?_reads hd
      refine ⟨Nat.pos_of_ne_zero fun h0 => ?_, by rw [ofDecimal_withSign, hreads]; rfl⟩
      rw [h0] at hreads
      injection hreads with _ hzero
      exact hm.ne hzero
  · split
    · next he =>
        have hpos : 0 < m * 5 ^ (-e).toNat := Nat.mul_pos hm (Nat.pow_pos (by decide))
        refine ⟨hpos, ofDecimal_eq_finite hc hm hpos ?_ s⟩
        push_cast
        rw [zpow_toNat 5 (by omega : (0 : Int) ≤ -e), zpow_neg, show (10 : ℚ) = 5 * 2 by norm_num, mul_zpow]
        field_simp
    · next he =>
        have hpos : 0 < m * 2 ^ e.toNat := Nat.mul_pos hm (Nat.pow_pos (by decide))
        refine ⟨hpos, ofDecimal_eq_finite hc hm hpos ?_ s⟩
        push_cast
        rw [zpow_toNat 2 (by omega : (0 : Int) ≤ e), mul_one]

/-! ## Layout -/

/-- The significant digits of a positive decimal start with a digit that is not nought, and the zeros that are
    left out count as a power of ten. -/
theorem significant_spec {d : Decimal} (hd : 0 < d.digits) :
    ∃ c ds, ∃ z : Nat, significant d = (c :: ds, d.exponent + ds.length + z) ∧ c ≠ '0' ∧
      (∀ x ∈ c :: ds, x.isDigit = true) ∧ d.digits = digitsValue (c :: ds) * 10 ^ z := by
  obtain ⟨c, all, hall, hc⟩ := ofNat_eq_cons hd
  obtain ⟨zeros, hsplit, hzeros⟩ := trimRightWhere_spec (· == '0') (ofNat d.digits)
  have hzeros : zeros = List.replicate zeros.length '0' :=
    List.eq_replicate_iff.mpr ⟨rfl, fun x hx => by simpa using hzeros x hx⟩
  cases hkept : trimRightWhere (· == '0') (ofNat d.digits) with
  | nil =>
      -- the first digit is not nought, so it is not left out
      rw [hkept, hall, List.nil_append, hzeros] at hsplit
      exact absurd (List.eq_of_mem_replicate (hsplit ▸ List.mem_cons_self)) hc
  | cons c' ds =>
      rw [hkept] at hsplit
      obtain rfl : c = c' := by
        rw [hall] at hsplit
        injection hsplit
      have hdigits : ∀ x ∈ c :: ds, x.isDigit = true := by
        intro x hx
        refine isDigit_of_mem_ofNat (n := d.digits) ?_
        rw [hsplit]
        exact List.mem_append_left _ hx
      refine ⟨c, ds, zeros.length, ?_, hc, hdigits, ?_⟩
      · have hlength := congrArg List.length hsplit
        rw [List.length_append, List.length_cons] at hlength
        show (trimRightWhere (· == '0') (ofNat d.digits), d.exponent + (ofNat d.digits).length - 1) = _
        rw [hkept, hlength]
        congr 1
        push_cast
        omega
      · conv_lhs => rw [← digitsValue_ofNat d.digits, hsplit, hzeros, digitsValue_append, digitsValue_zeros]
        rw [List.length_replicate, Nat.add_zero]

end HttpFile.Binary64
