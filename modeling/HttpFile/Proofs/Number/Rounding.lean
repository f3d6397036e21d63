import HttpFile.Number.Binary64
import Mathlib.Data.Int.Log
import Mathlib.Data.Rat.Floor
import Mathlib.Tactic.FieldSimp
import Mathlib.Tactic.NormNum
import Mathlib.Tactic.Positivity
import Mathlib.Tactic.Ring

/-!
# `HttpFile.Proofs.Number.Rounding` — the nearest number depends on the quotient only

A quotient is rounded by integer arithmetic on its numerator and denominator. What comes out depends on the
quotient alone, not on the way it is written: the exponent is its binary logarithm, and rounding to a natural
does not see a common factor. So digits may be moved over the point of a decimal without changing the number
that is read, and a number of the format is read back from any quotient that it equals.

## Contents
- **Exponents.** `scaled_cast`, `exponentFor_eq`: the exponent as a logarithm.
- **Rounding.** `roundDiv_mul`, `roundDiv_self`, `le_roundDiv`, `roundDiv_le`; `ofRatio_congr`.
- **Numbers of the format.** `Readable`: what comes out of rounding; `readable_ofRatio`, `ofRatio_eq_finite`.
- **Signs.** `withSign`; `ofRatio_withSign`, `ofDecimal_withSign`.
- **Decimals.** `magnitude_eq`, `ofDecimal_congr`: only the value of a decimal counts; `ofDecimal_eq_finite`,
  `readable_ofDecimal`.
-/

namespace HttpFile.Binary64

/-! ## Exponents -/

theorem scaled_pos {num den : Nat} (hn : 0 < num) (hd : 0 < den) (e : Int) :
    0 < (scaled num den e).1 ∧ 0 < (scaled num den e).2 := by
  unfold scaled
  split
  · exact ⟨Nat.mul_pos hn (Nat.pow_pos (by decide)), hd⟩
  · exact ⟨hn, Nat.mul_pos hd (Nat.pow_pos (by decide))⟩

theorem zpow_toNat (b : ℚ) {e : Int} (h : 0 ≤ e) : b ^ e.toNat = b ^ e := by
  rw [← zpow_natCast, Int.toNat_of_nonneg h]

theorem scaled_cast (num den : Nat) (e : Int) :
    ((scaled num den e).1 : ℚ) / (scaled num den e).2 = num / den * (2 : ℚ) ^ (-e) := by
  unfold scaled
  split
  · next he =>
      show ((num * 2 ^ (-e).toNat : Nat) : ℚ) / den = _
      push_cast
      rw [zpow_toNat 2 (by omega : (0 : Int) ≤ -e)]
      ring
  · next he =>
      show (num : ℚ) / ((den * 2 ^ e.toNat : Nat) : ℚ) = _
      push_cast
      rw [zpow_toNat 2 (by omega : (0 : Int) ≤ e), zpow_neg]
      field_simp

theorem two_zpow_pos (e : Int) : (0 : ℚ) < (2 : ℚ) ^ e := zpow_pos (by norm_num) e

/-- A quotient lies within a factor of two of the power of two that the lengths of its parts give. -/
theorem quotient_bracket {num den : Nat} (hn : 0 < num) (hd : 0 < den) :
    (2 : ℚ) ^ ((num.log2 : Int) - den.log2 - 1) ≤ num / den ∧
      (num : ℚ) / den < (2 : ℚ) ^ ((num.log2 : Int) - den.log2 + 1) := by
  have hd' : (0 : ℚ) < den := by exact_mod_cast hd
  -- each part lies between the two powers of two that its length gives
  have hnumLow : (2 : ℚ) ^ (num.log2 : Int) ≤ num := by
    rw [zpow_natCast]
    exact_mod_cast Nat.log2_self_le (by omega : num ≠ 0)
  have hnumHigh : (num : ℚ) < (2 : ℚ) ^ ((num.log2 : Int) + 1) := by
    rw [← Nat.cast_succ, zpow_natCast]
    exact_mod_cast Nat.lt_log2_self (n := num)
  have hdenLow : (2 : ℚ) ^ (den.log2 : Int) ≤ den := by
    rw [zpow_natCast]
    exact_mod_cast Nat.log2_self_le (by omega : den ≠ 0)
  have hdenHigh : (den : ℚ) ≤ (2 : ℚ) ^ ((den.log2 : Int) + 1) := by
    rw [← Nat.cast_succ, zpow_natCast]
    exact_mod_cast (Nat.lt_log2_self (n := den)).le
  constructor
  · rw [le_div_iff₀ hd']
    calc (2 : ℚ) ^ ((num.log2 : Int) - den.log2 - 1) * den
        ≤ (2 : ℚ) ^ ((num.log2 : Int) - den.log2 - 1) * (2 : ℚ) ^ ((den.log2 : Int) + 1) :=
          mul_le_mul_of_nonneg_left hdenHigh (two_zpow_pos _).le
      _ = (2 : ℚ) ^ (num.log2 : Int) := by
          rw [← zpow_add₀ (by norm_num : (2 : ℚ) ≠ 0)]
          congr 1
          omega
      _ ≤ num := hnumLow
  · rw [div_lt_iff₀ hd']
    calc (num : ℚ) < (2 : ℚ) ^ ((num.log2 : Int) + 1) := hnumHigh
      _ = (2 : ℚ) ^ ((num.log2 : Int) - den.log2 + 1) * (2 : ℚ) ^ (den.log2 : Int) := by
          rw [← zpow_add₀ (by norm_num : (2 : ℚ) ≠ 0)]
          congr 1
          omega
      _ ≤ (2 : ℚ) ^ ((num.log2 : Int) - den.log2 + 1) * den :=
          mul_le_mul_of_nonneg_left hdenLow (two_zpow_pos _).le

/-- Comparing a scaled quotient with a natural compares the quotient with a multiple of a power. -/
theorem scaled_lt_iff {num den : Nat} (hn : 0 < num) (hd : 0 < den) (e : Int) (m : Nat) :
    (scaled num den e).1 < (scaled num den e).2 * m ↔ (num : ℚ) / den < m * (2 : ℚ) ^ e := by
  have hpos : (0 : ℚ) < (scaled num den e).2 := by exact_mod_cast (scaled_pos hn hd e).2
  have hcast := scaled_cast num den e
  rw [zpow_neg, div_eq_iff hpos.ne'] at hcast
  rw [← Nat.cast_lt (α := ℚ), hcast, Nat.cast_mul, mul_comm ((scaled num den e).2 : ℚ),
    mul_lt_mul_iff_left₀ hpos, ← div_eq_mul_inv, div_lt_iff₀ (two_zpow_pos e)]

/-- The exponent of a quotient is its binary logarithm less the 52 bits behind the first, within the
    format. -/
theorem exponentFor_eq {num den : Nat} (hn : 0 < num) (hd : 0 < den) :
    exponentFor num den = max minExponent (Int.log 2 ((num : ℚ) / den) - 52) := by
  have hx : (0 : ℚ) < num / den := div_pos (by exact_mod_cast hn) (by exact_mod_cast hd)
  obtain ⟨hlow, hhigh⟩ := quotient_bracket hn hd
  have hlow := (Int.zpow_le_iff_le_log (b := 2) (by decide) hx).mp (by rw [Nat.cast_ofNat]; exact hlow)
  have hhigh := (Int.lt_zpow_iff_log_lt (b := 2) (by decide) hx).mp (by rw [Nat.cast_ofNat]; exact hhigh)
  obtain ⟨g, hg⟩ : ∃ g : Int, g = (num.log2 : Int) - den.log2 - 52 := ⟨_, rfl⟩
  -- comparing with the least mantissa decides between the two exponents that are left
  have hdecide : (scaled num den g).1 < (scaled num den g).2 * leastMantissa ↔
      Int.log 2 ((num : ℚ) / den) < g + 52 := by
    rw [scaled_lt_iff hn hd, ← Int.lt_zpow_iff_log_lt (b := 2) (by decide) hx, Nat.cast_ofNat,
      zpow_add₀ (by norm_num : (2 : ℚ) ≠ 0), mul_comm]
    norm_num [leastMantissa]
  unfold exponentFor
  rw [← hg]
  simp only [hdecide]
  split <;> split <;> omega

/-! ## Rounding -/

theorem roundDiv_mul (n d : Nat) {k : Nat} (hk : 0 < k) : roundDiv (n * k) (d * k) = roundDiv n d := by
  have hlt : ∀ a b : Nat, a * k < b * k ↔ a < b := fun a b => Nat.mul_lt_mul_right hk
  unfold roundDiv
  simp only [Nat.mul_div_mul_right n d hk, Nat.mul_mod_mul_right, ← Nat.mul_assoc, hlt]

theorem roundDiv_self (m : Nat) {d : Nat} (hd : 0 < d) : roundDiv (m * d) d = m := by
  unfold roundDiv
  simp [Nat.mul_div_cancel m hd, hd]

theorem le_roundDiv {a n d : Nat} (hd : 0 < d) (h : a * d ≤ n) : a ≤ roundDiv n d := by
  have hq : a ≤ n / d := (Nat.le_div_iff_mul_le hd).mpr h
  unfold roundDiv
  dsimp only
  split
  · exact hq
  · split <;> omega

theorem roundDiv_le {b n d : Nat} (hd : 0 < d) (h : n < b * d) : roundDiv n d ≤ b := by
  have hq : n / d < b := (Nat.div_lt_iff_lt_mul hd).mpr h
  unfold roundDiv
  dsimp only
  split
  · omega
  · split <;> omega

theorem leastMantissa_pos : 0 < leastMantissa := by decide

/-- A number out of a rounded mantissa and its exponent. A mantissa that was rounded up to `2 ^ 53` is
    halved. -/
def assembled (negative : Bool) (m : Nat) (e : Int) : Binary64 :=
  if m = 2 * leastMantissa then
    if maxExponent < e + 1 then .infinite negative else .finite negative leastMantissa (e + 1)
  else if maxExponent < e then .infinite negative
  else if m = 0 then zero negative
  else .finite negative m e

/-- The rounded mantissa of a quotient. -/
def roundedMantissa (num den : Nat) : Nat :=
  roundDiv (scaled num den (exponentFor num den)).1 (scaled num den (exponentFor num den)).2

theorem ofRatio_eq {n d : Nat} (hn : 0 < n) (hd : 0 < d) (s : Bool) :
    ofRatio s n d = assembled s (roundedMantissa n d) (exponentFor n d) := by
  have hpos : ¬(n = 0 ∨ d = 0) := by omega
  -- behind these names there is nothing left for the matches to compute with
  obtain ⟨e, he⟩ : ∃ e, e = exponentFor n d := ⟨_, rfl⟩
  obtain ⟨m, hm⟩ : ∃ m, m = roundDiv (scaled n d e).1 (scaled n d e).2 := ⟨_, rfl⟩
  unfold ofRatio roundedMantissa assembled
  rw [if_neg hpos, ← he]
  dsimp only
  rw [← hm]
  by_cases hcarry : m = 2 * leastMantissa
  · rw [if_pos hcarry, if_pos hcarry]
    dsimp only
    rw [if_neg leastMantissa_pos.ne']
  · rw [if_neg hcarry, if_neg hcarry]

/-- **Only the quotient counts**, not the numerator and the denominator it is written with. -/
theorem ofRatio_congr {n d n' d' : Nat} (hn : 0 < n) (hd : 0 < d) (hn' : 0 < n') (hd' : 0 < d')
    (h : (n : ℚ) / d = n' / d') (s : Bool) : ofRatio s n d = ofRatio s n' d' := by
  have hexponent : exponentFor n d = exponentFor n' d' := by
    rw [exponentFor_eq hn hd, exponentFor_eq hn' hd', h]
  have hmantissa : roundedMantissa n d = roundedMantissa n' d' := by
    unfold roundedMantissa
    rw [hexponent]
    obtain ⟨e, he⟩ : ∃ e, e = exponentFor n' d' := ⟨_, rfl⟩
    rw [← he]
    have hpos := (scaled_pos hn hd e).2
    have hpos' := (scaled_pos hn' hd' e).2
    have hcross : (scaled n d e).1 * (scaled n' d' e).2 = (scaled n' d' e).1 * (scaled n d e).2 := by
      have hcast := (scaled_cast n d e).trans ((congrArg (· * (2 : ℚ) ^ (-e)) h).trans
        (scaled_cast n' d' e).symm)
      rw [div_eq_div_iff (by exact_mod_cast hpos.ne') (by exact_mod_cast hpos'.ne')] at hcast
      exact_mod_cast hcast
    rw [← roundDiv_mul _ _ hpos', hcross, Nat.mul_comm (scaled n d e).2, roundDiv_mul _ _ hpos]
  rw [ofRatio_eq hn hd, ofRatio_eq hn' hd', hexponent, hmantissa]

/-! ## Numbers of the format -/

/-- A mantissa and an exponent of the format: all 53 bits are used unless the exponent is the least. -/
def Canonical (m : Nat) (e : Int) : Prop :=
  m < 2 * leastMantissa ∧ minExponent ≤ e ∧ e ≤ maxExponent ∧ (leastMantissa ≤ m ∨ e = minExponent)

/-- What reading a number can give: a number of the format, or the one value that is none. -/
def Readable : Binary64 → Prop
  | .finite _ m e => Canonical m e
  | .infinite _ => True
  | .nan p => p = 0

theorem readable_zero (s : Bool) : Readable (zero s) := by
  refine ⟨by decide, le_refl _, by decide, Or.inr rfl⟩

/-- A quotient scaled with its exponent is below `2 ^ 53`, and at least `2 ^ 52` unless the exponent is the
    least. -/
theorem scaled_exponentFor {n d : Nat} (hn : 0 < n) (hd : 0 < d) :
    (scaled n d (exponentFor n d)).1 < 2 * leastMantissa * (scaled n d (exponentFor n d)).2 ∧
      (leastMantissa * (scaled n d (exponentFor n d)).2 ≤ (scaled n d (exponentFor n d)).1 ∨
        exponentFor n d = minExponent) := by
  obtain ⟨e, he⟩ : ∃ e, e = exponentFor n d := ⟨_, rfl⟩
  have hx : (0 : ℚ) < n / d := div_pos (by exact_mod_cast hn) (by exact_mod_cast hd)
  have hlog := exponentFor_eq hn hd
  rw [← he] at hlog ⊢
  have hpower : ∀ k : Nat, ((2 ^ k : Nat) : ℚ) * (2 : ℚ) ^ e = ((2 : Nat) : ℚ) ^ ((k : Int) + e) := by
    intro k
    rw [Nat.cast_ofNat, zpow_add₀ (by norm_num : (2 : ℚ) ≠ 0), zpow_natCast, Nat.cast_pow, Nat.cast_ofNat]
  constructor
  · rw [Nat.mul_comm, show 2 * leastMantissa = 2 ^ 53 from rfl, scaled_lt_iff hn hd, hpower,
      Int.lt_zpow_iff_log_lt (by decide) hx]
    omega
  · by_cases hmin : e = minExponent
    · exact Or.inr hmin
    · refine Or.inl (Nat.le_of_not_lt ?_)
      rw [Nat.mul_comm, show leastMantissa = 2 ^ 52 from rfl, scaled_lt_iff hn hd, hpower,
        Int.lt_zpow_iff_log_lt (by decide) hx]
      omega

theorem readable_assembled (s : Bool) {m : Nat} {e : Int} (hle : m ≤ 2 * leastMantissa)
    (hmin : minExponent ≤ e) (hge : leastMantissa ≤ m ∨ e = minExponent) : Readable (assembled s m e) := by
  have hleast := leastMantissa_pos
  unfold assembled
  split
  · split
    · exact True.intro
    · exact ⟨by omega, by omega, by omega, Or.inl (le_refl _)⟩
  · split
    · exact True.intro
    · split
      · exact readable_zero s
      · exact ⟨by omega, hmin, by omega, hge⟩

theorem readable_ofRatio (s : Bool) (n d : Nat) : Readable (ofRatio s n d) := by
  by_cases hzero : n = 0 ∨ d = 0
  · unfold ofRatio
    rw [if_pos hzero]
    exact readable_zero s
  · have hn : 0 < n := by omega
    have hd : 0 < d := by omega
    obtain ⟨hhigh, hlow⟩ := scaled_exponentFor hn hd
    have hden := (scaled_pos hn hd (exponentFor n d)).2
    have hmin : minExponent ≤ exponentFor n d := by
      rw [exponentFor_eq hn hd]
      exact le_max_left _ _
    rw [ofRatio_eq hn hd]
    exact readable_assembled s (roundDiv_le hden hhigh) hmin (hlow.imp_left (le_roundDiv hden))

/-- **A number of the format is read from every quotient that equals it.** -/
theorem ofRatio_eq_finite {m : Nat} {e : Int} (hc : Canonical m e) (hm : 0 < m) {n d : Nat} (hn : 0 < n)
    (hd : 0 < d) (h : (n : ℚ) / d = m * (2 : ℚ) ^ e) (s : Bool) : ofRatio s n d = .finite s m e := by
  obtain ⟨hhigh, hmin, hmax, hlow⟩ := hc
  have hm' : (0 : ℚ) < m := by exact_mod_cast hm
  have hx : (0 : ℚ) < m * (2 : ℚ) ^ e := mul_pos hm' (two_zpow_pos e)
  have hlogHigh : Int.log 2 ((m : ℚ) * (2 : ℚ) ^ e) < 53 + e := by
    refine (Int.lt_zpow_iff_log_lt (by decide) hx).mp ?_
    rw [Nat.cast_ofNat, zpow_add₀ (by norm_num : (2 : ℚ) ≠ 0)]
    refine mul_lt_mul_of_pos_right ?_ (two_zpow_pos e)
    exact_mod_cast hhigh
  have hlogLow : leastMantissa ≤ m → 52 + e ≤ Int.log 2 ((m : ℚ) * (2 : ℚ) ^ e) := by
    intro hle
    refine (Int.zpow_le_iff_le_log (by decide) hx).mp ?_
    rw [Nat.cast_ofNat, zpow_add₀ (by norm_num : (2 : ℚ) ≠ 0)]
    refine mul_le_mul_of_nonneg_right ?_ (two_zpow_pos e).le
    exact_mod_cast hle
  -- the exponent is given by the logarithm, or it is the least one
  have hexponent : exponentFor n d = e := by
    rw [exponentFor_eq hn hd, h]
    rcases hlow with hle | rfl
    · have := hlogLow hle
      omega
    · omega
  have hmantissa : roundedMantissa n d = m := by
    unfold roundedMantissa
    rw [hexponent]
    have hpos := (scaled_pos hn hd e).2
    have hcast := scaled_cast n d e
    rw [h, mul_assoc, ← zpow_add₀ (by norm_num : (2 : ℚ) ≠ 0), add_neg_cancel, zpow_zero, mul_one,
      div_eq_iff (by exact_mod_cast hpos.ne')] at hcast
    have hcast : (scaled n d e).1 = m * (scaled n d e).2 := by exact_mod_cast hcast
    rw [hcast, roundDiv_self m hpos]
  have hcarry : m ≠ 2 * leastMantissa := hhigh.ne
  have hrange : ¬maxExponent < e := by omega
  rw [ofRatio_eq hn hd, hexponent, hmantissa, assembled, if_neg hcarry, if_neg hrange, if_neg hm.ne']

/-! ## Signs -/

/-- A number with a sign of its own. -/
def withSign (negative : Bool) : Binary64 → Binary64
  | .finite _ m e => .finite negative m e
  | .infinite _ => .infinite negative
  | .nan p => .nan p

theorem withSign_assembled (s : Bool) (m : Nat) (e : Int) :
    withSign s (assembled false m e) = assembled s m e := by
  unfold assembled
  split
  · split <;> rfl
  · split
    · rfl
    · split <;> rfl

theorem ofRatio_withSign (s : Bool) (n d : Nat) : ofRatio s n d = withSign s (ofRatio false n d) := by
  by_cases hzero : n = 0 ∨ d = 0
  · unfold ofRatio
    rw [if_pos hzero, if_pos hzero]
    rfl
  · rw [ofRatio_eq (by omega) (by omega), ofRatio_eq (by omega) (by omega), withSign_assembled]

theorem ofDecimal_withSign (s : Bool) (d : Nat) (x : Int) :
    ofDecimal s d x = withSign s (ofDecimal false d x) := by
  unfold ofDecimal
  dsimp only
  simp only [apply_ite (withSign s), ← ofRatio_withSign]
  rfl

/-! ## Decimals -/

/-- The power of ten of the first digit of a decimal is its decimal logarithm. -/
theorem magnitude_eq {d : Nat} (hd : 0 < d) (x : Int) :
    x + (Nat.toDigits 10 d).length = Int.log 10 ((d : ℚ) * (10 : ℚ) ^ x) + 1 := by
  have hd' : (0 : ℚ) < d := by exact_mod_cast hd
  have hten : (0 : ℚ) < (10 : ℚ) ^ x := zpow_pos (by norm_num) x
  have hpos := mul_pos hd' hten
  have hlen : 0 < (Nat.toDigits 10 d).length := List.length_pos_of_ne_nil Nat.toDigits_ne_nil
  obtain ⟨k, hk⟩ : ∃ k, (Nat.toDigits 10 d).length = k + 1 := ⟨_, (Nat.succ_pred_eq_of_pos hlen).symm⟩
  have hhigh : d < 10 ^ (k + 1) := (Nat.length_toDigits_le_iff (by decide) (by omega)).mp hk.le
  have hlow : 10 ^ k ≤ d := by
    rcases Nat.eq_zero_or_pos k with rfl | hkpos
    · exact hd
    · refine Nat.le_of_not_lt fun hlt => ?_
      have := (Nat.length_toDigits_le_iff (by decide : 1 < 10) hkpos).mpr hlt
      omega
  have hlogHigh : Int.log 10 ((d : ℚ) * (10 : ℚ) ^ x) < ((k + 1 : Nat) : Int) + x := by
    refine (Int.lt_zpow_iff_log_lt (by decide) hpos).mp ?_
    rw [Nat.cast_ofNat, zpow_add₀ (by norm_num : (10 : ℚ) ≠ 0), zpow_natCast]
    exact mul_lt_mul_of_pos_right (by exact_mod_cast hhigh) hten
  have hlogLow : (k : Int) + x ≤ Int.log 10 ((d : ℚ) * (10 : ℚ) ^ x) := by
    refine (Int.zpow_le_iff_le_log (by decide) hpos).mp ?_
    rw [Nat.cast_ofNat, zpow_add₀ (by norm_num : (10 : ℚ) ≠ 0), zpow_natCast]
    exact mul_le_mul_of_nonneg_right (by exact_mod_cast hlow) hten.le
  omega

/-- A decimal within the range of the format is rounded as a quotient. -/
theorem ofDecimal_eq_ofRatio {d : Nat} (hd : 0 < d) {x : Int}
    (hhigh : x + (Nat.toDigits 10 d).length ≤ 310) (hlow : -330 ≤ x + (Nat.toDigits 10 d).length) (s : Bool) :
    ∃ num den : Nat, 0 < num ∧ 0 < den ∧ (num : ℚ) / den = d * (10 : ℚ) ^ x ∧
      ofDecimal s d x = ofRatio s num den := by
  unfold ofDecimal
  rw [if_neg hd.ne']
  dsimp only
  rw [if_neg (not_lt.mpr hhigh), if_neg (not_lt.mpr hlow)]
  split
  · next hx =>
      refine ⟨d, 10 ^ (-x).toNat, hd, Nat.pow_pos (by decide), ?_, rfl⟩
      push_cast
      rw [zpow_toNat 10 (by omega : (0 : Int) ≤ -x), zpow_neg]
      field_simp
  · next hx =>
      refine ⟨d * 10 ^ x.toNat, 1, Nat.mul_pos hd (Nat.pow_pos (by decide)), Nat.one_pos, ?_, rfl⟩
      push_cast
      rw [zpow_toNat 10 (by omega : (0 : Int) ≤ x), div_one]

/-- **Only the value of a decimal counts**, not where its point stands. -/
theorem ofDecimal_congr {d d' : Nat} (hd : 0 < d) (hd' : 0 < d') {x x' : Int}
    (h : (d : ℚ) * (10 : ℚ) ^ x = d' * (10 : ℚ) ^ x') (s : Bool) : ofDecimal s d x = ofDecimal s d' x' := by
  have hmagnitude : x + (Nat.toDigits 10 d).length = x' + (Nat.toDigits 10 d').length := by
    rw [magnitude_eq hd, magnitude_eq hd', h]
  by_cases hrange : x + (Nat.toDigits 10 d).length ≤ 310 ∧ -330 ≤ x + (Nat.toDigits 10 d).length
  · obtain ⟨num, den, hnum, hden, hvalue, heq⟩ := ofDecimal_eq_ofRatio hd hrange.1 hrange.2 s
    obtain ⟨num', den', hnum', hden', hvalue', heq'⟩ :=
      ofDecimal_eq_ofRatio hd' (hmagnitude ▸ hrange.1) (hmagnitude ▸ hrange.2) s
    rw [heq, heq']
    exact ofRatio_congr hnum hden hnum' hden' (hvalue.trans (h.trans hvalue'.symm)) s
  · unfold ofDecimal
    rw [if_neg hd.ne', if_neg hd'.ne']
    dsimp only
    rw [hmagnitude] at hrange ⊢
    by_cases hhigh : 310 < x' + (Nat.toDigits 10 d').length
    · rw [if_pos hhigh, if_pos hhigh]
    · have hlow : x' + (Nat.toDigits 10 d').length < -330 := by omega
      rw [if_neg hhigh, if_neg hhigh, if_pos hlow, if_pos hlow]

/-- The numbers of the format lie between powers of ten that decimals are not yet cut off at. -/
theorem canonical_bracket {m : Nat} {e : Int} (hc : Canonical m e) (hm : 0 < m) :
    (10 : ℚ) ^ (-330 : Int) ≤ m * (2 : ℚ) ^ e ∧ (m : ℚ) * (2 : ℚ) ^ e < (10 : ℚ) ^ (309 : Int) := by
  obtain ⟨hhigh, hmin, hmax, -⟩ := hc
  have hone : (1 : ℚ) ≤ m := by exact_mod_cast hm
  have hpower : (m : ℚ) ≤ (2 : ℚ) ^ (53 : Nat) := by exact_mod_cast hhigh.le
  constructor
  · calc (10 : ℚ) ^ (-330 : Int) ≤ (2 : ℚ) ^ (-1074 : Int) := by
          rw [zpow_neg, zpow_neg]
          refine inv_anti₀ (two_zpow_pos _) ?_
          rw [zpow_ofNat, zpow_ofNat]
          exact_mod_cast (by decide +kernel : 2 ^ 1074 ≤ 10 ^ 330)
      _ ≤ 1 * (2 : ℚ) ^ e := by
          rw [one_mul]
          exact zpow_le_zpow_right₀ (by norm_num) hmin
      _ ≤ m * (2 : ℚ) ^ e := mul_le_mul_of_nonneg_right hone (two_zpow_pos e).le
  · calc (m : ℚ) * (2 : ℚ) ^ e ≤ (2 : ℚ) ^ (53 : Nat) * (2 : ℚ) ^ (971 : Int) :=
          mul_le_mul hpower (zpow_le_zpow_right₀ (by norm_num) hmax) (two_zpow_pos e).le (by positivity)
      _ < (10 : ℚ) ^ (309 : Int) := by
          rw [zpow_ofNat, zpow_ofNat]
          exact_mod_cast (by decide +kernel : 2 ^ 53 * 2 ^ 971 < 10 ^ 309)

/-- **A number of the format is read from every decimal that equals it.** -/
theorem ofDecimal_eq_finite {m : Nat} {e : Int} (hc : Canonical m e) (hm : 0 < m) {d : Nat} (hd : 0 < d)
    {x : Int} (h : (d : ℚ) * (10 : ℚ) ^ x = m * (2 : ℚ) ^ e) (s : Bool) :
    ofDecimal s d x = .finite s m e := by
  obtain ⟨hlow, hhigh⟩ := canonical_bracket hc hm
  have hpos : (0 : ℚ) < m * (2 : ℚ) ^ e := mul_pos (by exact_mod_cast hm) (two_zpow_pos e)
  have hmagnitude := magnitude_eq hd x
  rw [h] at hmagnitude
  have hhigh := (Int.lt_zpow_iff_log_lt (b := 10) (by decide) hpos).mp (by rw [Nat.cast_ofNat]; exact hhigh)
  have hlow := (Int.zpow_le_iff_le_log (b := 10) (by decide) hpos).mp (by rw [Nat.cast_ofNat]; exact hlow)
  obtain ⟨num, den, hnum, hden, hvalue, heq⟩ :=
    ofDecimal_eq_ofRatio (x := x) hd (by omega) (by omega) s
  rw [heq]
  exact ofRatio_eq_finite hc hm hnum hden (hvalue.trans h) s

theorem readable_ofDecimal (s : Bool) (d : Nat) (x : Int) : Readable (ofDecimal s d x) := by
  unfold ofDecimal
  dsimp only
  split
  · exact readable_zero s
  · split
    · exact True.intro
    · split
      · exact readable_zero s
      · split <;> exact readable_ofRatio s _ _

end HttpFile.Binary64
