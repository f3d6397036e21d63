import HttpFile.Proofs.Url.Fold

/-!
# `HttpFile.Proofs.Url.Unfolded` — what is lost when a target is folded

A fold is a line break with the blanks around it. Without its folds a target is on one line, however it was
folded before. So what folding loses is told by two texts on one line, the target without its folds and the
folded target without its folds: they differ in the empty parameters and in nothing else.

## Contents
- **Folds.** `withoutFolds`; `withoutFolds_solid`, `withoutFolds_continues`, `withoutFolds_target`.
- **Parameters.** `withoutEmptyParameters`, `flat_foldFlat`.
- **Main result.** `fold_target`.
-/

namespace HttpFile.Url

open Text Unicode Syntax

/-! ## Folds -/

/-- What is left of a run of blanks: nothing if there is a line break among them. -/
def keptBlanks (blanks : Text) : Text := if blanks.any isBreak then [] else blanks

/-- The text without its line breaks and the blanks around them, given the blanks right before it. -/
def withoutFoldsAfter (blanks : Text) : Text → Text
  | [] => keptBlanks blanks
  | c :: rest =>
    if isBlank c then withoutFoldsAfter (blanks ++ [c]) rest
    else keptBlanks blanks ++ c :: withoutFoldsAfter [] rest

/-- The text without its line breaks and the blanks around them. -/
def withoutFolds (t : Text) : Text := withoutFoldsAfter [] t

theorem withoutFoldsAfter_blanks {g : Text} (hg : ∀ c ∈ g, isBlank c = true) (blanks rest : Text) :
    withoutFoldsAfter blanks (g ++ rest) = withoutFoldsAfter (blanks ++ g) rest := by
  induction g generalizing blanks with
  | nil => simp
  | cons c g ih =>
      rw [List.cons_append, withoutFoldsAfter, if_pos (hg c (by simp)), ih fun d hd => hg d (by simp [hd])]
      simp

theorem withoutFolds_solid {w : Text} (hw : Solid w) (rest : Text) :
    withoutFolds (w ++ rest) = w ++ withoutFolds rest := by
  induction w with
  | nil => rfl
  | cons c w ih =>
      have hc : isBlank c = false := hw c (by simp)
      have hrest := ih (hw.of_subset (List.subset_cons_self c w))
      unfold withoutFolds at hrest ⊢
      rw [List.cons_append, withoutFoldsAfter, if_neg (by simp [hc]), hrest]
      rfl

/-- A line that continues a target moves up to the line before it. -/
theorem withoutFolds_continues {l : Text} (hl : Continues l) (rest : Text) :
    withoutFolds ('\n' :: l ++ rest) = strip l ++ withoutFolds rest := by
  obtain ⟨g, c, x, -, hg, hc, hx, rfl⟩ := hl
  have hblank : ∀ d ∈ '\n' :: g, isBlank d = true := by
    intro d hd
    rcases List.mem_cons.mp hd with rfl | hd
    · decide
    · exact isBlank_of_isGap (hg d hd)
  -- the newline is among the blanks before the mark, so none of them stays
  have hkept : keptBlanks ('\n' :: g) = [] := by
    unfold keptBlanks
    rw [List.any_cons]
    exact if_pos rfl
  have hword := withoutFolds_solid hx rest
  have htext : '\n' :: (g ++ c :: x) ++ rest = ('\n' :: g) ++ (c :: (x ++ rest)) := by simp
  unfold withoutFolds at hword ⊢
  rw [strip_continues hg hc hx, htext, withoutFoldsAfter_blanks hblank, List.nil_append, withoutFoldsAfter,
    if_neg (by simp [isBlank_mark hc]), hkept, hword]
  rfl

/-- **Flattening a target removes its folds** and leaves the rest as it is. -/
theorem withoutFolds_target {u : Text} (h : target? u = some u) : withoutFolds u = flat u := by
  obtain ⟨w, ls, rfl, hw, hls⟩ := target?_shape h
  have hlines : withoutFolds (ls.flatMap ('\n' :: ·)) = (ls.map strip).flatten := by
    clear h
    induction ls with
    | nil => rfl
    | cons l ls ih =>
        rw [List.flatMap_cons, withoutFolds_continues (hls l (by simp)), ih fun m hm => hls m (by simp [hm])]
        rfl
  rw [flat_joinLines hw.1 hw.2.2.1 hls, joinLines_cons, withoutFolds_solid hw.1, hlines]

/-! ## Parameters -/

/-- A target on one line without its empty parameters. The parameters stand behind the first question mark,
    between ampersands. If all of them are empty, or nothing stands before the question mark, the target stays
    as it is. -/
def withoutEmptyParameters (whole : Text) : Text :=
  match cutAt '?' whole with
  | (_, none) => whole
  | (base, some query) =>
    let parameters := fieldsAt '&' query
    if base ≠ [] ∧ ∃ p ∈ parameters, p ≠ [] then
      base ++ '?' :: ['&'].intercalate (parameters.filter (· ≠ []))
    else whole

/-- A target that is folded and flattened again has lost its empty parameters. -/
theorem flat_foldFlat {whole : Text} (hs : Solid whole) (hne : whole ≠ []) :
    flat (foldFlat whole) = withoutEmptyParameters whole := by
  have hsame : flat whole = whole := flat_of_solid hs hne
  unfold withoutEmptyParameters
  rcases cutAt_cases '?' whole with ⟨-, hcut⟩ | ⟨base, query, -, hw, hcut⟩
  · rw [foldFlat, hcut]
    exact hsame
  · rw [foldFlat, hcut]
    dsimp only
    cases base with
    | nil =>
        rw [if_neg fun h => h.1 rfl]
        exact hsame
    | cons c b =>
        cases hf : (fieldsAt '&' query).filter (· ≠ []) with
        | nil =>
            have hempty : ¬∃ p ∈ fieldsAt '&' query, p ≠ [] := by
              rintro ⟨p, hp, hpne⟩
              exact List.filter_eq_nil_iff.mp hf p hp (decide_eq_true hpne)
            -- all parameters are empty, so nothing is folded
            rw [if_neg fun h => hempty h.2]
            exact hsame
        | cons first more =>
            obtain ⟨hps, hpn, -⟩ := parameters_spec hs hw hf
            have hfirst : first ∈ (fieldsAt '&' query).filter (· ≠ []) := hf ▸ List.mem_cons_self
            have hsome : ∃ p ∈ fieldsAt '&' query, p ≠ [] :=
              ⟨first, (List.mem_filter.mp hfirst).1, hpn first (by simp)⟩
            have hbase : Solid (c :: b) := hs.of_subset (by rw [hw]; simp)
            rw [if_pos ⟨by simp, hsome⟩, flat_joinLines hbase (by simp) (continues_parameterLines hps),
              flatten_parameterLines hps]

/-! ## Main result -/

/-- **Folding a target is stable and loses only empty parameters.** A folded target is a target, and folding it
    again changes nothing. Without its folds it is what the target is without its own, less the empty
    parameters. -/
theorem fold_target {u : Text} (h : target? u = some u) :
    target? (fold u) = some (fold u) ∧ fold (fold u) = fold u ∧
      withoutFolds u = flat u ∧ withoutFolds (fold u) = withoutEmptyParameters (flat u) := by
  obtain ⟨hfold, hagain, -⟩ := target?_fold h
  refine ⟨hfold, hagain, withoutFolds_target h, ?_⟩
  obtain ⟨w, ls, rfl, hw, hls⟩ := target?_shape h
  have hopen := opensTarget_flat hw hls
  rw [← flat_joinLines hw.1 hw.2.2.1 hls] at hopen
  rw [withoutFolds_target hfold, fold_eq]
  exact flat_foldFlat hopen.1 hopen.2.2.1

/-- A target that is partly folded, with an empty parameter at the end of a line, one at the start of the next,
    and a second question mark. -/
theorem fold_target_example :
    let u : Text := "h/a\n  ?b=1&\n\t&&c=2?d"
    target? u = some u ∧ fold u = "h/a\n  ?b=1\n  &c=2?d" ∧
      target? (fold u) = some (fold u) ∧ fold (fold u) = fold u ∧
      withoutFolds u = flat u ∧ withoutFolds (fold u) = withoutEmptyParameters (flat u) := by
  refine ⟨?target, ?_, fold_target ?target⟩
  · decide
  · decide

end HttpFile.Url
