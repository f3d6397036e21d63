/-!
# `HttpFile.Unicode.Ranges` — membership in sorted tables of code points

Character classes are kept as sorted lists of disjoint closed ranges. Looking a code point up stops
at the first range that starts beyond it, so common characters are found at once.

## Contents
- **Look-up.** `inRanges`.
- **What it decides.** `exists_of_inRanges`: a code point found lies in a range of the table.
-/

namespace HttpFile.Unicode

/-- Whether a code point lies in one of the ranges of a sorted table. -/
def inRanges : List (Nat × Nat) → Nat → Bool
  | [], _ => false
  | (lo, hi) :: rest, n =>
    if n < lo then false
    else if n ≤ hi then true
    else inRanges rest n

/-- A code point that is found lies in a range of the table, whether it is sorted or not. -/
theorem exists_of_inRanges {table : List (Nat × Nat)} {n : Nat} (h : inRanges table n = true) :
    ∃ r ∈ table, r.1 ≤ n ∧ n ≤ r.2 := by
  induction table with
  | nil => simp [inRanges] at h
  | cons r rest ih =>
      obtain ⟨lo, hi⟩ := r
      unfold inRanges at h
      split at h
      · simp at h
      · next hlo =>
          split at h
          · next hhi => exact ⟨(lo, hi), by simp, by omega, hhi⟩
          · obtain ⟨s, hs, hb⟩ := ih h
            exact ⟨s, by simp [hs], hb⟩

end HttpFile.Unicode
