import HttpFile.Ansi
import HttpFile.Proofs.Text.Newlines

/-!
# `HttpFile.Proofs.Ansi` — texts that lose their sequences

A text loses a sequence together with the character that opens it, and nothing puts such a character into
a text. So what is left of a text that holds a sequence is another text, and not in its newlines only.

## Contents
- **Sequences.** `Unmarked`: a text without sequences.
- **Removal.** `stripSequences_eq_self`, `count_stripSequences_lt`: a text stays as it is, or loses an escape
  character.
- **Newlines.** `unifyNewlines_stripSequences_iff`.
-/

namespace HttpFile.Ansi

open Text

/-! ## Sequences -/

/-- A text without sequences: no escape character in it opens one. -/
def Unmarked (t : Text) : Prop := ∀ rest, escapeChar :: rest <:+ t → sequenceLength? rest = none

theorem unmarked_nil : Unmarked [] := by
  intro rest h
  simpa using h.length_le

theorem unmarked_cons {c : Char} {t : Text} :
    Unmarked (c :: t) ↔ (c = escapeChar → sequenceLength? t = none) ∧ Unmarked t := by
  unfold Unmarked
  simp only [List.suffix_cons_iff, List.cons.injEq]
  constructor
  · exact fun h => ⟨fun hc => h t (.inl ⟨hc.symm, rfl⟩), fun rest hrest => h rest (.inr hrest)⟩
  · rintro ⟨hc, ht⟩ rest (⟨hrest, rfl⟩ | hrest)
    · exact hc hrest.symm
    · exact ht rest hrest

/-! ## Removal -/

/-- No escape character is put in. -/
theorem count_stripFrom_le (skip : Nat) (t : Text) :
    (stripFrom skip t).count escapeChar ≤ t.count escapeChar := by
  fun_induction stripFrom skip t with
  | case1 => exact Nat.le_refl _
  | case2 skip c rest ih => exact Nat.le_trans ih List.count_le_count_cons
  | case3 rest n hn ih => exact Nat.le_trans ih List.count_le_count_cons
  | case4 rest hn ih => simpa only [List.count_cons] using Nat.add_le_add_right ih _
  | case5 c rest hc ih => simpa only [List.count_cons] using Nat.add_le_add_right ih _

/-- A character that opens no sequence stays. -/
theorem stripFrom_cons {c : Char} {t : Text} (h : c = escapeChar → sequenceLength? t = none) :
    stripFrom 0 (c :: t) = c :: stripFrom 0 t := by
  rw [stripFrom]
  split
  · next hc => rw [h hc]
  · rfl

theorem stripSequences_eq_self {t : Text} (h : Unmarked t) : stripSequences t = t := by
  unfold stripSequences
  induction t with
  | nil => rfl
  | cons c t ih =>
      obtain ⟨hc, ht⟩ := unmarked_cons.mp h
      rw [stripFrom_cons hc, ih ht]

/-- A sequence takes the character that opens it along. -/
theorem count_stripSequences_lt {t : Text} (h : ¬ Unmarked t) :
    (stripSequences t).count escapeChar < t.count escapeChar := by
  unfold stripSequences
  induction t with
  | nil => exact absurd unmarked_nil h
  | cons c t ih =>
      by_cases hc : c = escapeChar → sequenceLength? t = none
      · -- the first sequence opens further on
        have ht : ¬ Unmarked t := fun ht => h (unmarked_cons.mpr ⟨hc, ht⟩)
        rw [stripFrom_cons hc]
        simpa only [List.count_cons] using Nat.add_lt_add_right (ih ht) _
      · obtain ⟨rfl, hsome⟩ := Classical.not_imp.mp hc
        obtain ⟨n, hn⟩ := Option.ne_none_iff_exists'.mp hsome
        have hstrip : stripFrom 0 (escapeChar :: t) = stripFrom (n - 1) t := by
          rw [stripFrom, if_pos rfl, hn]
        rw [hstrip, List.count_cons_self]
        exact Nat.lt_succ_of_le (count_stripFrom_le (n - 1) t)

/-! ## Newlines -/

/-- **What is left of a text differs from it exactly if it holds a sequence**, and not in its newlines
    only: these have no escape characters to make up for the ones that are lost. -/
theorem unifyNewlines_stripSequences_iff {t : Text} :
    unifyNewlines (stripSequences t) = unifyNewlines t ↔ Unmarked t := by
  constructor
  · intro hsame
    refine Classical.byContradiction fun hu => ?_
    have hcount := congrArg (List.count escapeChar) hsame
    rw [count_unifyNewlines (by decide) (by decide), count_unifyNewlines (by decide) (by decide)] at hcount
    exact Nat.ne_of_lt (count_stripSequences_lt hu) hcount
  · intro hu
    rw [stripSequences_eq_self hu]

end HttpFile.Ansi
