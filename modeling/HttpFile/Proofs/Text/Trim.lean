import HttpFile.Text.Lines
import Mathlib.Data.List.TakeWhile

/-!
# `HttpFile.Proofs.Text.Trim` — what trimming leaves

A text is trimmed when neither of its ends is blank. Trimming takes blanks off both ends and nothing
else, so it leaves a trimmed text, and trimmed text alone.

## Contents
- **Characters of a text.** `decidableAll`, `decidableSome`.
- **Classes.** `takeWhile_append_stop`, `dropWhile_append_stop`: a run ends where its class does; `trimWhere_isInfix`.
- **The right end.** `stripRight_spec`, `stripRight_append_blank`, `stripRight_append_solid`.
- **Both ends.** `Trimmed`, `trimmed_iff`, `trimmed_strip`, `strip_spec`.
- **Texts without blanks.** `Solid`.
-/

namespace HttpFile.Text

open Unicode

/-! ## Characters of a text -/

section Characters

variable (p : Char → Prop) [DecidablePred p] (t : Text)

-- Characters are finite in number, but whether all or some of a text have a property is found by
-- going through the text.

instance (priority := 2000) decidableAll : Decidable (∀ c ∈ t, p c) := List.decidableBAll p t

instance (priority := 2000) decidableSome : Decidable (∃ c ∈ t, p c) := List.decidableBEx p t

end Characters

/-! ## Classes -/

section Classes

variable {α : Type} {p : α → Bool}

/-- A run of a class stops at the first character outside of it. -/
theorem takeWhile_append_stop {u : List α} {c : α} {rest : List α} (hu : ∀ x ∈ u, p x = true)
    (hc : p c = false) : (u ++ c :: rest).takeWhile p = u := by
  rw [List.takeWhile_append_of_pos hu, List.takeWhile_cons_of_neg (by simp [hc]), List.append_nil]

theorem dropWhile_append_stop {u : List α} {c : α} {rest : List α} (hu : ∀ x ∈ u, p x = true)
    (hc : p c = false) : (u ++ c :: rest).dropWhile p = c :: rest := by
  rw [List.dropWhile_append_of_pos hu, List.dropWhile_cons_of_neg (by simp [hc])]

/-- What is left after a run starts outside of its class. -/
theorem dropWhile_cons_stop {t : List α} {c : α} {rest : List α}
    (h : t.dropWhile p = c :: rest) : p c = false := by
  have hc := List.head?_dropWhile_not p t
  rw [h] at hc
  simpa using hc

theorem trimWhere_isInfix (p : α → Bool) (t : List α) : trimWhere p t <:+: t := by
  unfold trimWhere trimRightWhere trimLeftWhere
  have h1 : (t.dropWhile p).reverse.dropWhile p <:+ (t.dropWhile p).reverse := List.dropWhile_suffix _
  have h2 := List.reverse_prefix.mpr h1
  rw [List.reverse_reverse] at h2
  exact h2.isInfix.trans (List.dropWhile_suffix _).isInfix

end Classes

/-! ## The right end -/

@[simp] theorem stripRight_nil : stripRight [] = [] := rfl

/-- Trimming the right end takes off blanks, up to a character that is none. -/
theorem stripRight_spec (t : Text) :
    ∃ u, t = stripRight t ++ u ∧ (∀ c ∈ u, isBlank c = true) ∧
      ∀ c, (stripRight t).getLast? = some c → isBlank c = false := by
  refine ⟨(t.reverse.takeWhile isBlank).reverse, ?_, ?_, ?_⟩
  · unfold stripRight trimRightWhere
    rw [← List.reverse_append, List.takeWhile_append_dropWhile, List.reverse_reverse]
  · intro c hc
    exact List.mem_takeWhile_imp (List.mem_reverse.mp hc)
  · intro c hc
    unfold stripRight trimRightWhere at hc
    rw [List.getLast?_reverse] at hc
    cases hd : t.reverse.dropWhile isBlank with
    | nil => rw [hd] at hc; simp at hc
    | cons d rest =>
        rw [hd] at hc
        have hdc : d = c := by simpa using hc
        exact hdc ▸ dropWhile_cons_stop hd

theorem stripRight_append_blank (t : Text) {u : Text} (hu : ∀ c ∈ u, isBlank c = true) :
    stripRight (t ++ u) = stripRight t := by
  unfold stripRight trimRightWhere
  rw [List.reverse_append, List.dropWhile_append_of_pos (fun c hc => hu c (List.mem_reverse.mp hc))]

theorem stripRight_append_solid (t : Text) {c : Char} (hc : isBlank c = false) :
    stripRight (t ++ [c]) = t ++ [c] := by
  unfold stripRight trimRightWhere
  rw [List.reverse_append, List.reverse_singleton, List.singleton_append,
    List.dropWhile_cons_of_neg (by simp [hc])]
  simp

/-- A text that does not end in a blank keeps its right end. -/
theorem stripRight_of_last {t : Text} (h : ∀ c, t.getLast? = some c → isBlank c = false) :
    stripRight t = t := by
  cases ht : t.getLast? with
  | none => rw [List.getLast?_eq_none_iff.mp ht, stripRight_nil]
  | some c =>
      obtain ⟨s, hs⟩ := List.getLast?_eq_some_iff.mp ht
      rw [hs]
      exact stripRight_append_solid s (h c ht)

theorem stripRight_isPrefix (t : Text) : stripRight t <+: t := by
  obtain ⟨u, hu, -, -⟩ := stripRight_spec t
  exact ⟨u, hu.symm⟩

theorem stripRight_eq_nil_iff {t : Text} : stripRight t = [] ↔ ∀ c ∈ t, isBlank c = true := by
  unfold stripRight trimRightWhere
  rw [List.reverse_eq_nil_iff, List.dropWhile_eq_nil_iff]
  simp

/-- A first character that is not blank stays first. -/
theorem stripRight_cons {c : Char} (t : Text) (hc : isBlank c = false) :
    stripRight (c :: t) = c :: stripRight t := by
  obtain ⟨u, hu, hb, hl⟩ := stripRight_spec t
  have hlast : ∀ d, (c :: stripRight t).getLast? = some d → isBlank d = false := by
    intro d hd
    cases hs : stripRight t with
    | nil =>
        rw [hs] at hd
        have hcd : c = d := by simpa using hd
        exact hcd ▸ hc
    | cons e s =>
        rw [hs, List.getLast?_cons_cons, ← hs] at hd
        exact hl d hd
  calc stripRight (c :: t) = stripRight ((c :: stripRight t) ++ u) := by
        rw [List.cons_append, ← hu]
    _ = stripRight (c :: stripRight t) := stripRight_append_blank _ hb
    _ = c :: stripRight t := stripRight_of_last hlast

/-- What stands before a character that is not blank is out of reach of the right end. -/
theorem stripRight_append_cons (u : Text) {c : Char} (hc : isBlank c = false) (v : Text) :
    stripRight (u ++ c :: v) = u ++ c :: stripRight v := by
  obtain ⟨w, hw, hb, -⟩ := stripRight_spec (c :: v)
  obtain ⟨-, -, -, hl⟩ := stripRight_spec (c :: v)
  rw [stripRight_cons v hc] at hw hl
  have hlast : ∀ d, (u ++ c :: stripRight v).getLast? = some d → isBlank d = false := by
    intro d hd
    rw [List.getLast?_append, List.getLast?_cons] at hd
    exact hl d (by rw [List.getLast?_cons]; exact hd)
  rw [hw, ← List.append_assoc, stripRight_append_blank _ hb]
  exact stripRight_of_last hlast

/-! ## Both ends -/

/-- A text without blanks at its ends. -/
def Trimmed (t : Text) : Prop := strip t = t

instance (t : Text) : Decidable (Trimmed t) := inferInstanceAs (Decidable (strip t = t))

theorem strip_eq (t : Text) : strip t = stripRight (t.dropWhile isBlank) := rfl

/-- Trimming takes blanks off both ends. -/
theorem strip_spec (t : Text) :
    ∃ u v, t = u ++ strip t ++ v ∧ (∀ c ∈ u, isBlank c = true) ∧ (∀ c ∈ v, isBlank c = true) := by
  obtain ⟨v, hv, hb, -⟩ := stripRight_spec (t.dropWhile isBlank)
  refine ⟨t.takeWhile isBlank, v, ?_, fun c hc => List.mem_takeWhile_imp hc, hb⟩
  rw [strip_eq, List.append_assoc, ← hv, List.takeWhile_append_dropWhile]

theorem strip_cons {c : Char} (t : Text) (hc : isBlank c = false) :
    strip (c :: t) = c :: stripRight t := by
  rw [strip_eq, List.dropWhile_cons_of_neg (by simp [hc]), stripRight_cons t hc]

theorem head_strip {t : Text} {c : Char} (h : (strip t).head? = some c) : isBlank c = false := by
  rw [strip_eq] at h
  cases hd : t.dropWhile isBlank with
  | nil => rw [hd] at h; simp at h
  | cons d rest =>
      have hdb := dropWhile_cons_stop hd
      rw [hd, stripRight_cons rest hdb] at h
      have hdc : d = c := by simpa using h
      exact hdc ▸ hdb

theorem last_strip {t : Text} {c : Char} (h : (strip t).getLast? = some c) : isBlank c = false := by
  obtain ⟨_, -, -, hl⟩ := stripRight_spec (t.dropWhile isBlank)
  exact hl c h

theorem trimmed_iff {t : Text} :
    Trimmed t ↔ (∀ c, t.head? = some c → isBlank c = false) ∧
      ∀ c, t.getLast? = some c → isBlank c = false := by
  constructor
  · intro h
    refine ⟨fun c hc => ?_, fun c hc => ?_⟩
    · exact head_strip (t := t) (by rw [h]; exact hc)
    · exact last_strip (t := t) (by rw [h]; exact hc)
  · rintro ⟨hh, hl⟩
    cases t with
    | nil => rfl
    | cons c rest =>
        have hc := hh c rfl
        unfold Trimmed
        rw [strip_cons rest hc, ← stripRight_cons rest hc]
        exact stripRight_of_last hl

theorem trimmed_strip (t : Text) : Trimmed (strip t) :=
  trimmed_iff.mpr ⟨fun _ hc => head_strip hc, fun _ hc => last_strip hc⟩

theorem Trimmed.head {t : Text} (h : Trimmed t) {c : Char} (hc : t.head? = some c) :
    isBlank c = false := (trimmed_iff.mp h).1 c hc

theorem Trimmed.last {t : Text} (h : Trimmed t) {c : Char} (hc : t.getLast? = some c) :
    isBlank c = false := (trimmed_iff.mp h).2 c hc

theorem Trimmed.stripRight {t : Text} (h : Trimmed t) : Text.stripRight t = t :=
  stripRight_of_last (fun _ hc => h.last hc)

theorem Trimmed.of_cons {c : Char} {t : Text} (hc : isBlank c = false)
    (h : Text.stripRight t = t) : Trimmed (c :: t) := by
  unfold Trimmed
  rw [strip_cons t hc, h]

/-- Blanks around a trimmed text are what trimming takes off. -/
theorem Trimmed.strip_append {t : Text} (h : Trimmed t) {u v : Text}
    (hu : ∀ c ∈ u, isBlank c = true) (hv : ∀ c ∈ v, isBlank c = true) :
    strip (u ++ t ++ v) = t := by
  rw [strip_eq, List.append_assoc, List.dropWhile_append_of_pos hu]
  cases t with
  | nil =>
      rw [List.nil_append, List.dropWhile_eq_nil_iff.mpr hv, stripRight_nil]
  | cons c rest =>
      rw [List.cons_append, List.dropWhile_cons_of_neg (by simp [h.head (c := c) rfl]),
        ← List.cons_append, stripRight_append_blank _ hv, h.stripRight]

theorem strip_append_blank (t : Text) {w : Text} (hw : ∀ c ∈ w, isBlank c = true) :
    strip (t ++ w) = strip t := by
  obtain ⟨u, v, ht, hu, hv⟩ := strip_spec t
  have hvw : ∀ c ∈ v ++ w, isBlank c = true := by
    intro c hc
    exact (List.mem_append.mp hc).elim (hv c) (hw c)
  have hs := (trimmed_strip t).strip_append hu hvw
  rw [← List.append_assoc, ← ht] at hs
  exact hs

theorem strip_stripRight (t : Text) : strip (stripRight t) = strip t := by
  obtain ⟨u, hu, hb, -⟩ := stripRight_spec t
  have hs := strip_append_blank (stripRight t) hb
  rw [← hu] at hs
  exact hs.symm

theorem strip_eq_nil_iff {t : Text} : strip t = [] ↔ ∀ c ∈ t, isBlank c = true := by
  constructor
  · intro h c hc
    obtain ⟨u, v, ht, hu, hv⟩ := strip_spec t
    rw [h, List.append_nil] at ht
    rw [ht, List.mem_append] at hc
    exact hc.elim (hu c) (hv c)
  · intro h
    rw [strip_eq, List.dropWhile_eq_nil_iff.mpr h, stripRight_nil]

theorem strip_isInfix (t : Text) : strip t <:+: t := trimWhere_isInfix isBlank t

/-- A member of a trimmed text's source: trimming adds no character. -/
theorem mem_of_mem_strip {t : Text} {c : Char} (h : c ∈ strip t) : c ∈ t :=
  (strip_isInfix t).subset h

/-! ## Texts without blanks -/

/-- A text without blanks. -/
def Solid (t : Text) : Prop := ∀ c ∈ t, isBlank c = false

instance (t : Text) : Decidable (Solid t) := inferInstanceAs (Decidable (∀ c ∈ t, _))

theorem Solid.append {s t : Text} (hs : Solid s) (ht : Solid t) : Solid (s ++ t) := by
  intro c hc
  rcases List.mem_append.mp hc with h | h
  · exact hs c h
  · exact ht c h

theorem Solid.of_subset {s t : Text} (ht : Solid t) (h : s ⊆ t) : Solid s := fun c hc => ht c (h hc)

theorem Solid.trimmed {t : Text} (h : Solid t) : Trimmed t :=
  trimmed_iff.mpr ⟨fun c hc => h c (List.mem_of_mem_head? hc),
    fun c hc => h c (List.mem_of_getLast? hc)⟩

end HttpFile.Text
