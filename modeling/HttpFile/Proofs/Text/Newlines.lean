import HttpFile.Text.Lines

/-!
# `HttpFile.Proofs.Text.Newlines` — newlines in one spelling

Unifying newlines takes out the carriage returns and touches nothing else. So it does nothing the second
time, and other characters are there as often as before.

## Contents
- **Carriage returns.** `carriage_notMem_unifyNewlines`, `unifyNewlines_eq_self`.
- **Other characters.** `count_unifyNewlines`.
-/

namespace HttpFile.Text

/-! ## Carriage returns -/

theorem carriage_notMem_unifyNewlines (t : Text) : '\r' ∉ unifyNewlines t := by
  fun_induction unifyNewlines t with
  | case1 => simp
  | case2 rest ih => simpa using ih
  | case3 rest _ ih => simpa using ih
  | case4 c rest _ hno ih =>
      intro hm
      rcases List.mem_cons.mp hm with he | hm
      · exact hno he.symm
      · exact ih hm

theorem unifyNewlines_eq_self {t : Text} (h : '\r' ∉ t) : unifyNewlines t = t := by
  fun_induction unifyNewlines t with
  | case1 => rfl
  | case2 rest ih => exact absurd (by simp) h
  | case3 rest _ ih => exact absurd (by simp) h
  | case4 c rest _ hno ih => rw [ih fun hm => h (by simp [hm])]

/-! ## Other characters -/

theorem count_unifyNewlines {c : Char} (hn : c ≠ '\n') (hr : c ≠ '\r') (t : Text) :
    (unifyNewlines t).count c = t.count c := by
  fun_induction unifyNewlines t with
  | case1 => rfl
  | case2 rest ih => simp [ih, hn.symm, hr.symm]
  | case3 rest _ ih => simp [ih, hn.symm, hr.symm]
  | case4 d rest _ _ ih => simp only [List.count_cons, ih]

end HttpFile.Text
