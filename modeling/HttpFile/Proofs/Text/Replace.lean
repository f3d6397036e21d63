import HttpFile.Text.Basic

/-!
# `HttpFile.Proofs.Text.Replace` — replacing in a text, from left to right

Replacing passes over a text from left to right. Where the pattern starts it is replaced and nothing of it is
looked at again; where it does not start the character stays.

## Contents
- **Steps.** `replaceFrom_hit`, `replaceFrom_miss`.
- **Stretches.** `replaceFrom_pass`, `replaceFrom_absent`: where the pattern starts nowhere.
- **Whole texts.** `replaceAll_cons`, `replaceAll_append`, `replaceAll_pattern_append`.
- **Other elements.** `replaceAll_map`: what stands for the elements of a pattern stands for nothing else.
-/

namespace HttpFile.Text

variable {γ δ : Type} [DecidableEq γ] [DecidableEq δ] {pattern replacement u t : List γ}

theorem replaceFrom_skip (u t : List γ) :
    replaceFrom pattern replacement u.length (u ++ t) = replaceFrom pattern replacement 0 t := by
  induction u with
  | nil => rfl
  | cons c u ih => exact ih

theorem replaceFrom_hit (hne : pattern ≠ []) :
    replaceFrom pattern replacement 0 (pattern ++ t) = replacement ++ replaceFrom pattern replacement 0 t := by
  cases pattern with
  | nil => exact absurd rfl hne
  | cons c p =>
      have hprefix : (c :: p).isPrefixOf (c :: (p ++ t)) = true :=
        List.isPrefixOf_iff_prefix.mpr (List.prefix_append (c :: p) t)
      rw [List.cons_append, replaceFrom, if_pos hprefix, List.length_cons, Nat.add_sub_cancel, replaceFrom_skip]

theorem replaceFrom_miss {c : γ} (h : ¬pattern <+: c :: t) :
    replaceFrom pattern replacement 0 (c :: t) = c :: replaceFrom pattern replacement 0 t := by
  have hmiss : ¬pattern.isPrefixOf (c :: t) = true := fun hp => h (List.isPrefixOf_iff_prefix.mp hp)
  rw [replaceFrom, if_neg hmiss]

/-- A text is passed over if the pattern starts nowhere in it. -/
theorem replaceFrom_pass (h : ∀ x y, u = x ++ y → y ≠ [] → ¬pattern <+: y ++ t) :
    replaceFrom pattern replacement 0 (u ++ t) = u ++ replaceFrom pattern replacement 0 t := by
  induction u with
  | nil => rfl
  | cons c u ih =>
      have hmiss : ¬pattern <+: c :: (u ++ t) := h [] (c :: u) rfl (List.cons_ne_nil c u)
      rw [List.cons_append, replaceFrom_miss hmiss, ih fun x y hu => h (c :: x) y (by rw [hu]; rfl),
        List.cons_append]

/-- Where the pattern does not occur nothing is replaced. -/
theorem replaceFrom_absent (h : ¬pattern <:+: t) : replaceFrom pattern replacement 0 t = t := by
  have hnowhere : ∀ x y, t = x ++ y → y ≠ [] → ¬pattern <+: y ++ [] := by
    rintro x y rfl - hp
    rw [List.append_nil] at hp
    exact h (hp.isInfix.trans (List.suffix_append x y).isInfix)
  have hpass : replaceFrom pattern replacement 0 (t ++ []) = t ++ replaceFrom pattern replacement 0 [] :=
    replaceFrom_pass hnowhere
  rw [List.append_nil] at hpass
  rw [hpass]
  exact List.append_nil t

theorem replaceAll_eq (hne : pattern ≠ []) :
    replaceAll pattern replacement t = replaceFrom pattern replacement 0 t := by
  unfold replaceAll
  rw [if_neg (by simpa using hne)]

/-- A stretch without the first character of the pattern stays as it is. -/
theorem replaceAll_append {x : γ} (hp : pattern.head? = some x) (hu : x ∉ u) :
    replaceAll pattern replacement (u ++ t) = u ++ replaceAll pattern replacement t := by
  obtain ⟨rest, rfl⟩ := List.head?_eq_some_iff.mp hp
  rw [replaceAll_eq (List.cons_ne_nil x rest), replaceAll_eq (List.cons_ne_nil x rest)]
  refine replaceFrom_pass fun before behind hsplit hne hprefix => ?_
  cases behind with
  | nil => exact hne rfl
  | cons c behind =>
      obtain rfl : x = c := (List.cons_prefix_cons.mp hprefix).1
      exact hu (by rw [hsplit]; simp)

/-- A character at which the pattern does not start stays. -/
theorem replaceAll_cons {c : γ} (h : ¬pattern <+: c :: t) :
    replaceAll pattern replacement (c :: t) = c :: replaceAll pattern replacement t := by
  have hne : pattern ≠ [] := by
    rintro rfl
    exact h List.nil_prefix
  rw [replaceAll_eq hne, replaceAll_eq hne, replaceFrom_miss h]

/-- The pattern is replaced where it starts. -/
theorem replaceAll_pattern_append (hne : pattern ≠ []) :
    replaceAll pattern replacement (pattern ++ t) = replacement ++ replaceAll pattern replacement t := by
  rw [replaceAll_eq hne, replaceAll_eq hne, replaceFrom_hit hne]

theorem isPrefixOf_map {f : γ → δ} (hf : ∀ x, ∀ y ∈ pattern, f x = f y → x = y) :
    (pattern.map f).isPrefixOf (t.map f) = pattern.isPrefixOf t := by
  induction pattern generalizing t with
  | nil => rfl
  | cons c p ih =>
      cases t with
      | nil => rfl
      | cons x t =>
          have hhead : (f c == f x) = (c == x) := by
            rw [Bool.eq_iff_iff, beq_iff_eq, beq_iff_eq]
            exact ⟨fun h => (hf x c List.mem_cons_self h.symm).symm, fun h => h ▸ rfl⟩
          show (f c == f x && (p.map f).isPrefixOf (t.map f)) = (c == x && p.isPrefixOf t)
          rw [hhead, ih fun x y hy => hf x y (List.mem_cons_of_mem c hy)]

/-- Replacing goes together with putting other elements in the place of all. -/
theorem replaceAll_map {f : γ → δ} (hf : ∀ x, ∀ y ∈ pattern, f x = f y → x = y) :
    (replaceAll pattern replacement t).map f = replaceAll (pattern.map f) (replacement.map f) (t.map f) := by
  have hfrom : ∀ skip (t : List γ), (replaceFrom pattern replacement skip t).map f =
      replaceFrom (pattern.map f) (replacement.map f) skip (t.map f) := by
    intro skip t
    induction t generalizing skip with
    | nil => cases skip <;> rfl
    | cons x t ih =>
        cases skip with
        | succ skip => exact ih skip
        | zero =>
            have hstarts : (pattern.map f).isPrefixOf (f x :: t.map f) = pattern.isPrefixOf (x :: t) :=
              isPrefixOf_map (t := x :: t) hf
            rw [List.map_cons, replaceFrom, replaceFrom, hstarts, List.length_map, ← ih, ← ih]
            split
            · rw [List.map_append]
            · rw [List.map_cons]
  unfold replaceAll
  rw [List.isEmpty_map]
  split
  · rfl
  · exact hfrom 0 t

end HttpFile.Text
