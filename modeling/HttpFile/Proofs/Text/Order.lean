import HttpFile.Text.Basic
import Mathlib.Data.List.Sort

/-!
# `HttpFile.Proofs.Text.Order` — the order of texts

Texts are ordered by the code points of their characters. This order is total, so names that are all
different have one order only.

## Contents
- **The order.** `precedes_total`, `precedes_trans`, `precedes_antisymm`.
- **Before.** `ComesBefore`: another text that precedes; `ComesBefore.asymm`.
-/

namespace HttpFile.Text

/-! ## The order -/

theorem precedes_cons {a b : Char} {s t : Text} :
    precedes (a :: s) (b :: t) = true ↔ a.toNat < b.toNat ∨ (a = b ∧ precedes s t = true) := by
  simp [precedes]

theorem precedes_total (s t : Text) : precedes s t = true ∨ precedes t s = true := by
  induction s generalizing t with
  | nil => exact .inl rfl
  | cons a s ih =>
      cases t with
      | nil => exact .inr rfl
      | cons b t =>
          rw [precedes_cons, precedes_cons]
          by_cases hab : a = b
          · exact (ih t).imp (fun h => .inr ⟨hab, h⟩) fun h => .inr ⟨hab.symm, h⟩
          · have hne : a.toNat ≠ b.toNat := fun h => hab (Char.toNat_inj.mp h)
            rcases Nat.lt_or_gt_of_ne hne with h | h
            · exact .inl (.inl h)
            · exact .inr (.inl h)

theorem precedes_trans {s t u : Text} (hst : precedes s t = true) (htu : precedes t u = true) :
    precedes s u = true := by
  induction s generalizing t u with
  | nil => rfl
  | cons a s ih =>
      cases t with
      | nil => cases hst
      | cons b t =>
          cases u with
          | nil => cases htu
          | cons c u =>
              rw [precedes_cons] at hst htu ⊢
              rcases hst with hab | ⟨rfl, hst⟩
              · rcases htu with hbc | ⟨rfl, -⟩
                · exact .inl (hab.trans hbc)
                · exact .inl hab
              · rcases htu with hbc | ⟨rfl, htu⟩
                · exact .inl hbc
                · exact .inr ⟨rfl, ih hst htu⟩

theorem precedes_antisymm {s t : Text} (hst : precedes s t = true) (hts : precedes t s = true) : s = t := by
  induction s generalizing t with
  | nil =>
      cases t with
      | nil => rfl
      | cons b t => cases hts
  | cons a s ih =>
      cases t with
      | nil => cases hst
      | cons b t =>
          rw [precedes_cons] at hst hts
          rcases hst with hab | ⟨rfl, hst⟩
          · rcases hts with hba | ⟨rfl, -⟩
            · exact absurd hab (Nat.lt_asymm hba)
            · exact absurd hab (Nat.lt_irrefl _)
          · rcases hts with haa | ⟨-, hts⟩
            · exact absurd haa (Nat.lt_irrefl _)
            · rw [ih hst hts]

/-! ## Before -/

/-- A text comes before another one if it precedes it and is not the same. -/
def ComesBefore (s t : Text) : Prop := precedes s t = true ∧ s ≠ t

theorem ComesBefore.asymm {s t : Text} (h : ComesBefore s t) : ¬ComesBefore t s :=
  fun h' => h.2 (precedes_antisymm h.1 h'.1)

instance : Std.Asymm ComesBefore := ⟨fun _ _ h => h.asymm⟩

instance : Std.Irrefl ComesBefore := ⟨fun _ h => h.2 rfl⟩

instance : Std.Antisymm ComesBefore := ⟨fun _ _ h h' => absurd h' h.asymm⟩

/-- Different texts that were sorted each come before those behind them. -/
theorem pairwise_mergeSort_precedes {names : List Text} (h : names.Nodup) :
    (names.mergeSort precedes).Pairwise ComesBefore := by
  have htotal : ∀ s t : Text, (precedes s t || precedes t s) = true := fun s t => by
    simpa using precedes_total s t
  have htrans : ∀ s t u : Text, precedes s t = true → precedes t u = true → precedes s u = true :=
    fun _ _ _ => precedes_trans
  have hsorted := List.pairwise_mergeSort htrans htotal names
  exact hsorted.and ((List.mergeSort_perm names precedes).nodup_iff.mpr h)

end HttpFile.Text
