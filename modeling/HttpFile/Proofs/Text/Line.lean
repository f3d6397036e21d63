import HttpFile.Proofs.Text.Trim

/-!
# `HttpFile.Proofs.Text.Line` — lines, and patterns that stay inside one

A text is written line by line, each line with its newline. A pattern without a newline occurs in a
text of several lines only if it occurs in one of them, so what is said of the lines holds of the
whole.

## Contents
- **Occurrences.** `occursIn_iff`; `occursIn_append_cons`: a pattern does not reach across a character
  that it does not hold.
- **Line breaks.** `isBlank_of_isBreak`.
- **Lines with their ends.** `endLines`, `joinLines_append_nil`.
- **Lines at newlines.** `fieldsAt_append_cons`, `fieldsAt_eq_singleton`, `notMem_of_mem_fieldsAt`.
- **Joined pieces.** `mem_intercalate`, `apply_intercalate`.
-/

namespace HttpFile.Text

open Unicode

/-! ## Occurrences -/

/-- To occur in a text is to be a stretch of it. -/
theorem occursIn_iff {pattern t : Text} : occursIn pattern t = true ↔ pattern <:+: t := by
  induction t with
  | nil =>
      rw [List.infix_nil]
      simp [occursIn]
  | cons c rest ih =>
      rw [List.infix_cons_iff, ← ih]
      simp [occursIn]

theorem occursIn_eq_false_iff {pattern t : Text} :
    occursIn pattern t = false ↔ ¬pattern <:+: t := by
  rw [← occursIn_iff]
  simp

/-- A pattern that occurs on neither side of a character it does not hold does not occur at all. -/
theorem occursIn_append_cons {pattern u v : Text} {c : Char} (hc : c ∉ pattern)
    (hu : occursIn pattern u = false) (hv : occursIn pattern v = false) :
    occursIn pattern (u ++ c :: v) = false := by
  rw [occursIn_eq_false_iff] at hu hv ⊢
  intro h
  -- a pattern that reaches the character would hold it
  rcases List.infix_append_iff.mp h with h | h | ⟨s, t, rfl, hs, ht⟩
  · exact hu h
  · rcases List.infix_cons_iff.mp h with hp | h
    · cases pattern with
      | nil => exact hu List.nil_infix
      | cons d p => exact hc ((List.cons_prefix_cons.mp hp).1 ▸ List.mem_cons_self)
    · exact hv h
  · cases t with
    | nil =>
        rw [List.append_nil] at hu
        exact hu hs.isInfix
    | cons d t =>
        refine hc (List.mem_append_right s ?_)
        exact (List.cons_prefix_cons.mp ht).1 ▸ List.mem_cons_self

theorem occursIn_of_isInfix {pattern u t : Text} (h : u <:+: t) (ht : occursIn pattern t = false) :
    occursIn pattern u = false := by
  rw [occursIn_eq_false_iff] at ht ⊢
  exact fun hp => ht (hp.trans h)

/-- A pattern does not occur where one of its characters is missing. -/
theorem occursIn_of_notMem {pattern t : Text} {c : Char} (hc : c ∈ pattern) (h : c ∉ t) :
    occursIn pattern t = false :=
  occursIn_eq_false_iff.mpr fun hp => h (hp.subset hc)

/-- A single character occurs where it stands. -/
theorem occursIn_singleton {c : Char} {t : Text} : occursIn [c] t = false ↔ c ∉ t := by
  rw [occursIn_eq_false_iff, not_iff_not]
  constructor
  · intro h
    exact h.subset (by simp)
  · intro h
    obtain ⟨u, v, rfl⟩ := List.append_of_mem h
    exact ⟨u, v, by simp⟩

/-! ## Line breaks -/

/-- Every line break is blank. -/
theorem isBlank_of_isBreak {c : Char} (h : isBreak c = true) : isBlank c = true := by
  unfold isBreak at h
  unfold isBlank
  generalize c.toNat = n at h ⊢
  simp only [Bool.or_eq_true, Bool.and_eq_true, decide_eq_true_eq, beq_iff_eq] at h
  have hn : n = 10 ∨ n = 11 ∨ n = 12 ∨ n = 13 ∨ n = 28 ∨ n = 29 ∨ n = 30 ∨ n = 133 ∨ n = 8232 ∨
      n = 8233 := by omega
  rcases hn with rfl | rfl | rfl | rfl | rfl | rfl | rfl | rfl | rfl | rfl <;> decide

theorem isBreak_of_solid {c : Char} (h : isBlank c = false) : isBreak c = false := by
  cases hb : isBreak c with
  | false => rfl
  | true => rw [isBlank_of_isBreak hb] at h; simp at h

theorem isGap_of_solid {c : Char} (h : isBlank c = false) : isGap c = false := by
  cases hg : isGap c with
  | false => rfl
  | true => rw [isBlank_of_isGap hg] at h; simp at h

theorem isBreak_of_isGap {c : Char} (h : isGap c = true) : isBreak c = false := by
  simp only [isGap, Bool.or_eq_true, beq_iff_eq] at h
  rcases h with rfl | rfl <;> decide

/-! ## Lines with their ends -/

/-- The lines as a text, each with its newline. -/
def endLines (ls : List Text) : Text := ls.flatMap (· ++ ['\n'])

@[simp] theorem endLines_nil : endLines [] = [] := rfl

@[simp] theorem endLines_cons (l : Text) (ls : List Text) :
    endLines (l :: ls) = l ++ '\n' :: endLines ls := by
  simp [endLines]

theorem endLines_append (ls ms : List Text) : endLines (ls ++ ms) = endLines ls ++ endLines ms := by
  simp [endLines]

/-- Joining lines of which the last is empty ends each of the others. -/
theorem joinLines_append_nil (ls : List Text) : joinLines (ls ++ [[]]) = endLines ls := by
  induction ls with
  | nil => rfl
  | cons l ls ih =>
      unfold joinLines at ih ⊢
      cases ls with
      | nil => simp [List.intercalate_cons_cons]
      | cons m ms =>
          rw [List.cons_append, List.cons_append, List.intercalate_cons_cons, ← List.cons_append, ih]
          simp

theorem joinLines_cons (l : Text) (ls : List Text) :
    joinLines (l :: ls) = l ++ ls.flatMap ('\n' :: ·) := by
  unfold joinLines
  induction ls generalizing l with
  | nil => simp
  | cons m ms ih =>
      rw [List.intercalate_cons_cons, ih]
      simp

/-- A pattern without a newline occurs in no lines of which it occurs in none, and so on below. -/
theorem occursIn_endLines {pattern : Text} (hp : '\n' ∉ pattern) {ls : List Text}
    (h : ∀ l ∈ ls, occursIn pattern l = false) {rest : Text} (hr : occursIn pattern rest = false) :
    occursIn pattern (endLines ls ++ rest) = false := by
  induction ls with
  | nil => exact hr
  | cons l ls ih =>
      rw [endLines_cons, List.append_assoc, List.cons_append]
      exact occursIn_append_cons hp (h l (by simp)) (ih fun m hm => h m (by simp [hm]))

theorem occursIn_joinLines {pattern : Text} (hn : '\n' ∉ pattern) (hne : pattern ≠ []) {ls : List Text}
    (h : ∀ m ∈ ls, occursIn pattern m = false) : occursIn pattern (joinLines ls) = false := by
  cases ls with
  | nil =>
      cases pattern with
      | nil => exact absurd rfl hne
      | cons c p => rfl
  | cons l ls =>
      induction ls generalizing l with
      | nil => simpa [joinLines] using h l (by simp)
      | cons m ms ih =>
          have hrest := ih m fun x hx => h x (List.mem_cons_of_mem l hx)
          unfold joinLines at hrest ⊢
          rw [List.intercalate_cons_cons, List.append_assoc, List.singleton_append]
          exact occursIn_append_cons hn (h l (by simp)) hrest

/-! ## Lines at newlines -/

theorem fieldsAt_cons_self (sep : Char) (t : Text) : fieldsAt sep (sep :: t) = [] :: fieldsAt sep t := by
  simp [fieldsAt]

theorem fieldsAt_cons_of_ne {sep c : Char} (hc : c ≠ sep) {t field : Text} {fields : List Text}
    (h : fieldsAt sep t = field :: fields) : fieldsAt sep (c :: t) = (c :: field) :: fields := by
  rw [fieldsAt, if_neg hc, h]

/-- A text without the separator is one piece. -/
theorem fieldsAt_eq_singleton {sep : Char} {t : Text} (h : sep ∉ t) : fieldsAt sep t = [t] := by
  induction t with
  | nil => rfl
  | cons c rest ih =>
      have hc : c ≠ sep := fun he => h (by simp [he])
      exact fieldsAt_cons_of_ne hc (ih fun hm => h (by simp [hm]))

/-- The pieces on the two sides of a separator. -/
theorem fieldsAt_append (sep : Char) (u t : Text) :
    fieldsAt sep (u ++ sep :: t) = fieldsAt sep u ++ fieldsAt sep t := by
  induction u with
  | nil => rw [List.nil_append, fieldsAt_cons_self]; rfl
  | cons c u ih =>
      by_cases hc : c = sep
      · subst hc
        rw [List.cons_append, fieldsAt_cons_self, fieldsAt_cons_self, ih, List.cons_append]
      · cases hf : fieldsAt sep u with
        | nil => exact absurd hf (fieldsAt_ne_nil sep u)
        | cons f fs =>
            rw [hf, List.cons_append] at ih
            rw [List.cons_append, fieldsAt_cons_of_ne hc ih, fieldsAt_cons_of_ne hc hf, List.cons_append]

/-- The piece before the first separator, and the pieces after it. -/
theorem fieldsAt_append_cons {sep : Char} {u : Text} (h : sep ∉ u) (t : Text) :
    fieldsAt sep (u ++ sep :: t) = u :: fieldsAt sep t := by
  rw [fieldsAt_append, fieldsAt_eq_singleton h, List.singleton_append]

/-- No piece holds the separator. -/
theorem notMem_of_mem_fieldsAt {sep : Char} {t field : Text} (h : field ∈ fieldsAt sep t) :
    sep ∉ field := by
  induction t generalizing field with
  | nil =>
      have hf : field = [] := by simpa [fieldsAt] using h
      simp [hf]
  | cons c rest ih =>
      by_cases hc : c = sep
      · subst hc
        rw [fieldsAt_cons_self] at h
        rcases List.mem_cons.mp h with rfl | h
        · simp
        · exact ih h
      · cases hf : fieldsAt sep rest with
        | nil => exact absurd hf (fieldsAt_ne_nil sep rest)
        | cons g gs =>
            rw [fieldsAt_cons_of_ne hc hf] at h
            rcases List.mem_cons.mp h with rfl | h
            · intro hm
              rcases List.mem_cons.mp hm with he | hm
              · exact hc he.symm
              · exact ih (by rw [hf]; simp) hm
            · exact ih (by rw [hf]; simp [h])

/-- Pieces without the separator are what joining them and cutting again gives. -/
theorem fieldsAt_intercalate {sep : Char} {l : Text} {ls : List Text}
    (h : ∀ m ∈ l :: ls, sep ∉ m) : fieldsAt sep ([sep].intercalate (l :: ls)) = l :: ls := by
  induction ls generalizing l with
  | nil => simpa using fieldsAt_eq_singleton (h l (by simp))
  | cons m ms ih =>
      rw [List.intercalate_cons_cons, List.append_assoc, List.singleton_append,
        fieldsAt_append_cons (h l (by simp)), ih fun x hx => h x (by simp [hx])]

section
variable {γ δ : Type} {sep : List γ} {parts : List (List γ)}

/-- What stands in joined pieces stands in what joins them or in one of them. -/
theorem mem_intercalate {x : γ} (h : x ∈ sep.intercalate parts) : x ∈ sep ∨ ∃ w ∈ parts, x ∈ w := by
  induction parts with
  | nil => cases h
  | cons w ws ih =>
      cases ws with
      | nil =>
          rw [List.intercalate_singleton] at h
          exact Or.inr ⟨w, List.mem_cons_self, h⟩
      | cons w' ws =>
          rw [List.intercalate_cons_cons, List.mem_append, List.mem_append] at h
          rcases h with (h | h) | h
          · exact Or.inr ⟨w, List.mem_cons_self, h⟩
          · exact Or.inl h
          · exact (ih h).imp_right fun ⟨v, hv, hx⟩ => ⟨v, List.mem_cons_of_mem w hv, hx⟩

theorem mem_intercalate_of_mem {x : γ} {w : List γ} (hw : w ∈ parts) (hx : x ∈ w) : x ∈ sep.intercalate parts := by
  induction parts with
  | nil => cases hw
  | cons v ws ih =>
      cases ws with
      | nil =>
          rw [List.intercalate_singleton, ← List.mem_singleton.mp hw]
          exact hx
      | cons v' ws =>
          rw [List.intercalate_cons_cons, List.mem_append, List.mem_append]
          rcases List.mem_cons.mp hw with rfl | hw
          · exact Or.inl (Or.inl hx)
          · exact Or.inr (ih hw)

/-- What goes through appending goes through joining. -/
theorem apply_intercalate {f : List γ → List δ} (hnil : f [] = []) (happend : ∀ u v, f (u ++ v) = f u ++ f v) :
    f (sep.intercalate parts) = (f sep).intercalate (parts.map f) := by
  induction parts with
  | nil => exact hnil
  | cons w ws ih =>
      cases ws with
      | nil => rw [List.map_singleton, List.intercalate_singleton, List.intercalate_singleton]
      | cons w' ws =>
          rw [List.intercalate_cons_cons, happend, happend, ih]
          simp only [List.map_cons, List.intercalate_cons_cons]

end

/-- The first piece starts the text, and the others are stretches of it. -/
theorem fieldsAt_isPrefix_isInfix {sep : Char} {t f : Text} {fs : List Text}
    (h : fieldsAt sep t = f :: fs) : f <+: t ∧ ∀ g ∈ fs, g <:+: t := by
  induction t generalizing f fs with
  | nil =>
      have hf : [] = f ∧ [] = fs := by simpa [fieldsAt] using h
      rw [← hf.1, ← hf.2]
      simp
  | cons c rest ih =>
      cases hr : fieldsAt sep rest with
      | nil => exact absurd hr (fieldsAt_ne_nil sep rest)
      | cons g gs =>
          obtain ⟨hg, hgs⟩ := ih hr
          by_cases hc : c = sep
          · subst hc
            rw [fieldsAt_cons_self, hr] at h
            injection h with hf hfs
            subst hf hfs
            refine ⟨List.nil_prefix, fun x hx => ?_⟩
            rcases List.mem_cons.mp hx with rfl | hx
            · exact List.infix_cons hg.isInfix
            · exact List.infix_cons (hgs x hx)
          · rw [fieldsAt_cons_of_ne hc hr] at h
            injection h with hf hfs
            subst hf hfs
            exact ⟨List.cons_prefix_cons.mpr ⟨rfl, hg⟩, fun x hx => List.infix_cons (hgs x hx)⟩

theorem infix_of_mem_fieldsAt {sep : Char} {t field : Text} (h : field ∈ fieldsAt sep t) :
    field <:+: t := by
  cases hf : fieldsAt sep t with
  | nil => exact absurd hf (fieldsAt_ne_nil sep t)
  | cons f fs =>
      obtain ⟨hp, hs⟩ := fieldsAt_isPrefix_isInfix hf
      rw [hf] at h
      rcases List.mem_cons.mp h with rfl | h
      · exact hp.isInfix
      · exact hs field h

end HttpFile.Text
