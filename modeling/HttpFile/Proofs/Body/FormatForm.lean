import HttpFile.Body.Format
import HttpFile.Proofs.Text.Line

/-!
# `HttpFile.Proofs.Body.FormatForm` — form data on lines

Form data are pairs with ampersands between them. Several pairs are written without their blanks, one on each line; a
single one is only trimmed. Which of the two is done depends on the pairs alone, and neither changes them: so what was
written on lines is written on the same lines again, and what was trimmed is trimmed.

## Contents
- **Blanks.** `filter_intercalate`, `filter_strip`.
- **Pairs.** `formPairs`, `mem_formPairs`, `formatForm_eq`; `formPairs_formatForm`: formatting changes none of them.
- **Lines.** `pairLines`, `intercalate_pairLines`, `flatten_pairLines`.
- **Main results.** `formatForm_idem`; `formatForm_lines`, with an example.
-/

namespace HttpFile

open Text Unicode

/-! ## Blanks -/

theorem filter_intercalate (p : Char → Bool) (sep : Text) (fs : List Text) :
    (sep.intercalate fs).filter p = (sep.filter p).intercalate (fs.map (List.filter p)) := by
  induction fs with
  | nil => rfl
  | cons f fs ih =>
      cases fs with
      | nil => simp
      | cons g gs =>
          have hmap : (f :: g :: gs).map (List.filter p) =
              f.filter p :: g.filter p :: gs.map (List.filter p) := rfl
          rw [hmap, List.intercalate_cons_cons, List.intercalate_cons_cons, List.filter_append,
            List.filter_append, ih]
          rfl

/-- Trimming takes off nothing that is kept where blanks are dropped. -/
theorem filter_strip (t : Text) :
    (strip t).filter (fun c => !isBlank c) = t.filter fun c => !isBlank c := by
  obtain ⟨u, v, ht, hu, hv⟩ := strip_spec t
  have hdrop : ∀ w : Text, (∀ c ∈ w, isBlank c = true) → (w.filter fun c => !isBlank c) = [] := by
    intro w hw
    rw [List.filter_eq_nil_iff]
    intro c hc
    simp [hw c hc]
  conv => rhs; rw [ht]
  rw [List.filter_append, List.filter_append, hdrop u hu, hdrop v hv]
  simp

/-! ## Pairs -/

/-- The pairs of form data. -/
def formPairs (t : Text) : List Text :=
  (fieldsAt '&' (t.filter fun c => !isBlank c)).filter (· ≠ [])

/-- A pair has something in it, but no blank and no ampersand. -/
theorem mem_formPairs {t g : Text} (hg : g ∈ formPairs t) : Solid g ∧ '&' ∉ g ∧ g ≠ [] := by
  obtain ⟨hg, hne⟩ := List.mem_filter.mp hg
  refine ⟨fun c hc => ?_, notMem_of_mem_fieldsAt hg, by simpa using hne⟩
  have hkept := (List.mem_filter.mp ((infix_of_mem_fieldsAt hg).subset hc)).2
  simpa using hkept

theorem formatForm_eq (t : Text) :
    formatForm t = if 2 ≤ (formPairs t).length then ['\n', '&'].intercalate (formPairs t) else strip t := by
  unfold formatForm formPairs
  dsimp only
  rcases (fieldsAt '&' (t.filter fun c => !isBlank c)).filter (· ≠ []) with _ | ⟨first, _ | ⟨second, more⟩⟩
  · rfl
  · rfl
  · simp

/-- Formatting does not change which pairs there are. -/
theorem formPairs_formatForm (t : Text) : formPairs (formatForm t) = formPairs t := by
  rw [formatForm_eq]
  split
  · next hmany =>
      have hkeep : (formPairs t).map (List.filter fun c => !isBlank c) = formPairs t := by
        conv => rhs; rw [← List.map_id (formPairs t)]
        exact List.map_congr_left fun g hg => List.filter_eq_self.mpr fun c hc => by
          simp [(mem_formPairs hg).1 c hc]
      have hmark : (['\n', '&'].filter fun c => !isBlank c) = ['&'] := by decide
      have hjoined : formPairs (['\n', '&'].intercalate (formPairs t)) = (fieldsAt '&'
          ((['\n', '&'].intercalate (formPairs t)).filter fun c => !isBlank c)).filter (· ≠ []) := rfl
      rw [hjoined, filter_intercalate, hkeep, hmark]
      have hpairs : ∀ g ∈ formPairs t, '&' ∉ g ∧ g ≠ [] := fun g hg => (mem_formPairs hg).2
      cases hcases : formPairs t with
      | nil => rw [hcases] at hmany; simp at hmany
      | cons first more =>
          rw [hcases] at hpairs
          rw [fieldsAt_intercalate fun g hg => (hpairs g hg).1]
          exact List.filter_eq_self.mpr fun g hg => by simpa using (hpairs g hg).2
  · unfold formPairs
    rw [filter_strip]

/-! ## Lines -/

/-- A line for each pair; all but the first have an ampersand in front. -/
def pairLines : List Text → List Text
  | [] => []
  | first :: more => first :: more.map ('&' :: ·)

/-- The mark between two pairs is the end of one line and the start of the next one. -/
theorem intercalate_pairLines (pairs : List Text) :
    ['\n'].intercalate (pairLines pairs) = ['\n', '&'].intercalate pairs := by
  cases pairs with
  | nil => rfl
  | cons first more =>
      induction more generalizing first with
      | nil => simp [pairLines]
      | cons second more ih =>
          have hrest : ['\n'].intercalate (('&' :: second) :: more.map ('&' :: ·)) =
              '&' :: ['\n'].intercalate (second :: more.map ('&' :: ·)) := by
            cases more <;> simp [List.intercalate_cons_cons]
          have hlines : pairLines (first :: second :: more) =
              first :: ('&' :: second) :: more.map ('&' :: ·) := rfl
          rw [hlines, List.intercalate_cons_cons, hrest, List.intercalate_cons_cons, ← ih second]
          simp [pairLines]

/-- Without the newlines the lines are the pairs with ampersands between them. -/
theorem flatten_pairLines (pairs : List Text) : (pairLines pairs).flatten = ['&'].intercalate pairs := by
  cases pairs with
  | nil => rfl
  | cons first more =>
      induction more generalizing first with
      | nil => simp [pairLines]
      | cons second more ih =>
          have hflat : (pairLines (first :: second :: more)).flatten =
              first ++ '&' :: (pairLines (second :: more)).flatten := by simp [pairLines]
          rw [hflat, ih second, List.intercalate_cons_cons, List.append_assoc]
          rfl

/-- A line has something on it, and no blank. -/
theorem solid_pairLines {pairs : List Text} (h : ∀ g ∈ pairs, Solid g ∧ g ≠ []) :
    ∀ line ∈ pairLines pairs, line ≠ [] ∧ Solid line := by
  cases pairs with
  | nil => simp [pairLines]
  | cons first more =>
      intro line hline
      rcases List.mem_cons.mp hline with rfl | hline
      · exact (h line (by simp)).symm
      · obtain ⟨g, hg, rfl⟩ := List.mem_map.mp hline
        refine ⟨by simp, fun c hc => ?_⟩
        rcases List.mem_cons.mp hc with rfl | hc
        · decide
        · exact (h g (by simp [hg])).1 c hc

/-! ## Main results -/

/-- **Form data are formatted once and for all.** -/
theorem formatForm_idem (t : Text) : formatForm (formatForm t) = formatForm t := by
  have hpairs := formPairs_formatForm t
  rw [formatForm_eq (formatForm t), hpairs, formatForm_eq t]
  split
  · rfl
  · exact trimmed_strip t

/-- **Formatting form data is stable and keeps the pairs.** Formatted twice they are as formatted once. If there are at
    least two pairs, each has a line of its own, in their order, and all lines but the first start with an ampersand;
    no line is empty or holds a blank, and the lines put together are taken apart into the pairs. -/
theorem formatForm_lines (t : Text) :
    formatForm (formatForm t) = formatForm t ∧
      (2 ≤ (formPairs t).length →
        fieldsAt '\n' (formatForm t) = pairLines (formPairs t) ∧
          (∀ line ∈ fieldsAt '\n' (formatForm t), line ≠ [] ∧ Solid line) ∧
          fieldsAt '&' (fieldsAt '\n' (formatForm t)).flatten = formPairs t) := by
  refine ⟨formatForm_idem t, fun hmany => ?_⟩
  have hpairs : ∀ g ∈ formPairs t, Solid g ∧ '&' ∉ g ∧ g ≠ [] := fun g => mem_formPairs
  have hsolid := solid_pairLines fun g hg => ⟨(hpairs g hg).1, (hpairs g hg).2.2⟩
  -- with two pairs at least each has a line of its own
  have hlines : fieldsAt '\n' (formatForm t) = pairLines (formPairs t) := by
    rw [formatForm_eq, if_pos hmany, ← intercalate_pairLines]
    cases hcases : formPairs t with
    | nil => rw [hcases] at hmany; simp at hmany
    | cons first more =>
        rw [hcases] at hsolid
        exact fieldsAt_intercalate fun line hline hbreak =>
          absurd ((hsolid line hline).2 '\n' hbreak) (by decide)
  rw [hlines]
  refine ⟨rfl, hsolid, ?_⟩
  rw [flatten_pairLines]
  cases hcases : formPairs t with
  | nil => rw [hcases] at hmany; simp at hmany
  | cons first more =>
      rw [hcases] at hpairs
      exact fieldsAt_intercalate fun g hg => (hpairs g hg).2.1

/-- A form with blanks around and inside of its pairs and with empty pairs. -/
def spacedForm : Text := "&a = 1& &b&\tc=2\n&"

theorem formatForm_lines_example :
    2 ≤ (formPairs spacedForm).length ∧
      (fieldsAt '\n' (formatForm spacedForm) = [("a=1" : Text), "&b", "&c=2"] ∧
        (∀ line ∈ fieldsAt '\n' (formatForm spacedForm), line ≠ [] ∧ Solid line) ∧
        fieldsAt '&' (fieldsAt '\n' (formatForm spacedForm)).flatten = [("a=1" : Text), "b", "c=2"]) := by
  obtain ⟨hlines, hsolid, hpairs⟩ := (formatForm_lines spacedForm).2 (by decide)
  have hfound : formPairs spacedForm = [("a=1" : Text), "b", "c=2"] := by decide
  refine ⟨by decide, hlines.trans ?_, hsolid, hpairs.trans hfound⟩
  rw [hfound]
  rfl

end HttpFile
