import HttpFile.Difference
import HttpFile.Text.Lines

/-!
# `HttpFile.Proofs.Difference.Longest` — the longest stretch that two texts share

The longest stretch is found row by row: for each place in the first text, the lengths of the stretches that
end there are kept for all places in the second. A stretch that ends at two places is one that the texts up
to there, read backwards, have in common at their start, so a row is known from the row before it. The best
stretch so far is better than all that end at places which were looked at.

## Contents
- **Stretches.** `Shares`; `shares_iff`: stretches and common starts.
- **Rows.** `rowOf`, `matchRow_rowOf`.
- **The best.** `Match.Beats`, `BestSoFar`; `BestSoFar.step`, `bestFrom_best`.
- **Main result.** `IsLongest`, `isLongest_longestMatch`; `IsLongest.unique`.
-/

namespace HttpFile.Difference

open Text

/-! ## Stretches -/

/-- A stretch that stands in both texts. -/
structure Shares (a b : Text) (m : Match) : Prop where
  left : m.left + m.size ≤ a.length
  right : m.right + m.size ≤ b.length
  same : (a.drop m.left).take m.size = (b.drop m.right).take m.size

/-- Two texts have as many characters in common at their start as agree. -/
theorem le_length_commonStart {k : Nat} {s t : Text} (hs : k ≤ s.length) (ht : k ≤ t.length) :
    k ≤ (commonStart s t).length ↔ s.take k = t.take k := by
  induction k generalizing s t with
  | zero => simp
  | succ k ih =>
      cases s with
      | nil => simp at hs
      | cons x s =>
          cases t with
          | nil => simp at ht
          | cons y t =>
              rw [commonStart, List.take_succ_cons, List.take_succ_cons, List.cons.injEq]
              split
              · next hxy =>
                  rw [List.length_cons, Nat.succ_le_succ_iff, ih (Nat.le_of_succ_le_succ hs) (Nat.le_of_succ_le_succ ht)]
                  exact ⟨fun h => ⟨hxy, h⟩, fun h => h.2⟩
              · next hxy => simp [hxy]

theorem length_commonStart_le (s t : Text) :
    (commonStart s t).length ≤ s.length ∧ (commonStart s t).length ≤ t.length := by
  induction s generalizing t with
  | nil => cases t <;> simp [commonStart]
  | cons x s ih =>
      cases t with
      | nil => simp [commonStart]
      | cons y t =>
          rw [commonStart]
          split
          · simpa using ih t
          · simp

/-- The end of a text that was read backwards. -/
theorem take_drop_reverse_append {s : Text} {k : Nat} (hk : k ≤ s.length) (u : Text) :
    ((s.reverse ++ u).drop (s.length - k)).take k = (s.take k).reverse := by
  have hlength : (s.reverse.drop (s.length - k)).length = k := by
    rw [List.length_drop, List.length_reverse]
    omega
  rw [List.drop_append_of_le_length (by rw [List.length_reverse]; omega),
    List.take_append_of_le_length (Nat.le_of_eq hlength.symm), List.take_of_length_le (Nat.le_of_eq hlength),
    List.reverse_take]

/-- **The stretches that end at two places** are no longer than what the texts up to there have in common,
    read backwards. -/
theorem shares_iff {s t u v : Text} {k : Nat} (hs : k ≤ s.length) (ht : k ≤ t.length) :
    Shares (s.reverse ++ u) (t.reverse ++ v) ⟨k, s.length - k, t.length - k⟩ ↔
      k ≤ (commonStart s t).length := by
  have hsame : ((s.reverse ++ u).drop (s.length - k)).take k = ((t.reverse ++ v).drop (t.length - k)).take k ↔
      k ≤ (commonStart s t).length := by
    rw [take_drop_reverse_append hs, take_drop_reverse_append ht, List.reverse_inj, le_length_commonStart hs ht]
  constructor
  · exact fun h => hsame.mp h.same
  · refine fun h => ⟨?_, ?_, hsame.mpr h⟩
    · show s.length - k + k ≤ (s.reverse ++ u).length
      rw [List.length_append, List.length_reverse]
      omega
    · show t.length - k + k ≤ (t.reverse ++ v).length
      rw [List.length_append, List.length_reverse]
      omega

/-! ## Rows -/

/-- The lengths of the longest stretches that end where a text ends and at each further place of another
    one; both texts are read backwards up to there. -/
def rowOf (s : Text) : Text → Text → List Nat
  | _, [] => []
  | t, c :: rest => (commonStart s (c :: t)).length :: rowOf s (c :: t) rest

theorem rowOf_nil (t b : Text) : rowOf [] t b = List.replicate b.length 0 := by
  induction b generalizing t with
  | nil => rfl
  | cons c b ih => rw [rowOf, ih, List.length_cons, List.replicate_succ]; rfl

/-- **Each row is known from the row before it.** -/
theorem matchRow_rowOf (x : Char) (s t rest : Text) :
    matchRow x ((commonStart s t).length :: rowOf s t rest) rest = rowOf (x :: s) t rest := by
  induction rest generalizing t with
  | nil => rfl
  | cons c rest ih =>
      rw [matchRow, rowOf, rowOf, ih, commonStart]
      by_cases hc : c = x
      · rw [if_pos hc, if_pos hc.symm, List.length_cons]
      · rw [if_neg hc, if_neg (Ne.symm hc), List.length_nil]

/-! ## The best -/

/-- A stretch is better than another one if it is longer, or as long and starts earlier in the first text, or
    at the same place there and no later in the second. -/
def Match.Beats (m m' : Match) : Prop :=
  m'.size < m.size ∨
    (m'.size = m.size ∧ (m.left < m'.left ∨ (m.left = m'.left ∧ m.right ≤ m'.right)))

/-- A stretch that ends at a place which was looked at: in the first places of the first text, or at the one
    behind them and in the first places of the second text. -/
def Match.EndsBy (m : Match) (i j : Nat) : Prop :=
  m.left + m.size ≤ i ∨ (m.left + m.size = i + 1 ∧ m.right + m.size ≤ j)

/-- A stretch that is better than all others that end at places which were looked at. -/
structure BestSoFar (a b : Text) (i j : Nat) (m : Match) : Prop where
  shares : Shares a b m
  ends : m.size = 0 ∨ m.EndsBy i j
  beats : ∀ m', Shares a b m' → 0 < m'.size → m'.EndsBy i j → m.Beats m'

theorem bestSoFar_zero (a b : Text) : BestSoFar a b 0 0 ⟨0, 0, 0⟩ where
  shares := ⟨Nat.zero_le _, Nat.zero_le _, rfl⟩
  ends := .inl rfl
  beats := by
    rintro m' - hsize (h | ⟨-, h⟩) <;> omega

/-- At the end of a row all stretches that end there were looked at. -/
theorem BestSoFar.nextRow {a b : Text} {i : Nat} {m : Match} (h : BestSoFar a b i b.length m) :
    BestSoFar a b (i + 1) 0 m where
  shares := h.shares
  ends := h.ends.imp_right fun hends => .inl <| by
    rcases hends with hends | ⟨hends, -⟩ <;> omega
  beats := by
    intro m' hshares hsize hends
    have hright := hshares.right
    refine h.beats m' hshares hsize ?_
    unfold Match.EndsBy at hends ⊢
    omega

/-- **One more place is looked at.** The longest stretch that ends there takes the place of the best one if it is
    longer. -/
theorem BestSoFar.step {s t u v : Text} {best : Match} (hs : s ≠ []) (ht : t ≠ [])
    (h : BestSoFar (s.reverse ++ u) (t.reverse ++ v) (s.length - 1) (t.length - 1) best) :
    BestSoFar (s.reverse ++ u) (t.reverse ++ v) (s.length - 1) t.length
      (if best.size < (commonStart s t).length then
        ⟨(commonStart s t).length, s.length - (commonStart s t).length, t.length - (commonStart s t).length⟩
      else best) := by
  have hslen : 0 < s.length := List.length_pos_iff.mpr hs
  have htlen : 0 < t.length := List.length_pos_iff.mpr ht
  obtain ⟨hsk, htk⟩ := length_commonStart_le s t
  -- a stretch was looked at before, or it ends at the new place
  have hnew : ∀ m', Shares (s.reverse ++ u) (t.reverse ++ v) m' → 0 < m'.size → m'.EndsBy (s.length - 1) t.length →
      best.Beats m' ∨ (m'.size ≤ (commonStart s t).length ∧ m'.left = s.length - m'.size ∧
        m'.right = t.length - m'.size) := by
    intro m' hshares hsize hends
    by_cases hbefore : m'.EndsBy (s.length - 1) (t.length - 1)
    · exact .inl (h.beats m' hshares hsize hbefore)
    · unfold Match.EndsBy at hends hbefore
      obtain ⟨k, i, j⟩ := m'
      simp only at hsize hends hbefore ⊢
      obtain rfl : i = s.length - k := by omega
      obtain rfl : j = t.length - k := by omega
      exact .inr ⟨(shares_iff (by omega) (by omega)).mp hshares, rfl, rfl⟩
  have hlongest := (shares_iff (u := u) (v := v) hsk htk).mpr (Nat.le_refl _)
  generalize (commonStart s t).length = k at hsk htk hnew hlongest ⊢
  split
  · next hlonger =>
      refine ⟨hlongest, .inr (.inr ?_), fun m' hshares hsize hm' => ?_⟩
      · dsimp only
        omega
      · have hcases := hnew m' hshares hsize hm'
        unfold Match.Beats at hcases ⊢
        dsimp only
        omega
  · next hnot =>
      refine ⟨h.shares, h.ends.imp_right fun hbest => ?_, fun m' hshares hsize hm' => ?_⟩
      · unfold Match.EndsBy at hbest ⊢
        omega
      · -- the best stretch ends before the new place, so it starts before one of the same length
        have hcases := hnew m' hshares hsize hm'
        have hends := h.ends
        unfold Match.EndsBy at hends
        unfold Match.Beats at hcases ⊢
        omega

/-- A row is looked at. -/
theorem bestInRow_best {s t u rest : Text} {best : Match} (hs : s ≠ [])
    (h : BestSoFar (s.reverse ++ u) (t.reverse ++ rest) (s.length - 1) t.length best) :
    BestSoFar (s.reverse ++ u) (t.reverse ++ rest) (s.length - 1) (t.reverse ++ rest).length
      (bestInRow (s.length - 1) t.length (rowOf s t rest) best) := by
  induction rest generalizing t best with
  | nil => simpa [rowOf, bestInRow] using h
  | cons c rest ih =>
      have hshift : t.reverse ++ c :: rest = (c :: t).reverse ++ rest := by simp
      have hi : s.length - 1 + 1 = s.length := Nat.sub_add_cancel (List.length_pos_iff.mpr hs)
      rw [hshift] at h ⊢
      have hstep := BestSoFar.step hs (List.cons_ne_nil c t) (by simpa using h)
      rw [rowOf, bestInRow, hi]
      exact ih hstep

/-- All rows are looked at. -/
theorem bestFrom_best {b s rest : Text} {best : Match}
    (h : BestSoFar (s.reverse ++ rest) b s.length 0 best) :
    BestSoFar (s.reverse ++ rest) b (s.reverse ++ rest).length 0 (bestFrom b s.length (rowOf s [] b) rest best) := by
  induction rest generalizing s best with
  | nil => simpa [bestFrom] using h
  | cons x rest ih =>
      have hshift : s.reverse ++ x :: rest = (x :: s).reverse ++ rest := by simp
      have hrow : matchRow x (0 :: rowOf s [] b) b = rowOf (x :: s) [] b := by
        have hzero : (commonStart s []).length = 0 := by cases s <;> rfl
        rw [← hzero]
        exact matchRow_rowOf x s [] b
      rw [hshift] at h ⊢
      have hfirst : BestSoFar ((x :: s).reverse ++ rest) (([] : Text).reverse ++ b) ((x :: s).length - 1)
          ([] : Text).length best := by simpa using h
      have hall := bestInRow_best (List.cons_ne_nil x s) hfirst
      rw [bestFrom, hrow]
      exact ih hall.nextRow

/-! ## Main result -/

/-- A stretch that is better than all others. -/
structure IsLongest (a b : Text) (m : Match) : Prop where
  shares : Shares a b m
  beats : ∀ m', Shares a b m' → 0 < m'.size → m.Beats m'

/-- **The longest stretch is found**, of several the first. -/
theorem isLongest_longestMatch (a b : Text) : IsLongest a b (longestMatch a b) := by
  have hbest := bestFrom_best (s := []) (bestSoFar_zero a b)
  rw [rowOf_nil] at hbest
  exact ⟨hbest.shares, fun m' hshares hsize => hbest.beats m' hshares hsize (.inl hshares.left)⟩

/-- There is one longest stretch, if the texts share any. -/
theorem IsLongest.unique {a b : Text} {m m' : Match} (h : IsLongest a b m) (h' : IsLongest a b m')
    (hsize : 0 < m.size) : m = m' := by
  have hbeats' := h'.beats m h.shares hsize
  have hsize' : 0 < m'.size := by
    unfold Match.Beats at hbeats'
    omega
  have hbeats := h.beats m' h'.shares hsize'
  obtain ⟨k, i, j⟩ := m
  obtain ⟨k', i', j'⟩ := m'
  unfold Match.Beats at hbeats hbeats'
  simp only at hbeats hbeats'
  rw [Match.mk.injEq]
  omega

end HttpFile.Difference
