import HttpFile.Body.Format
import HttpFile.Proofs.Json.Layout
import HttpFile.Proofs.Text.Trim

/-!
# `HttpFile.Proofs.Body.Split` — where the variables of a query start

The variables of a query stand below it, and nothing marks them but a blank line and a brace behind it. A query may
hold such a place itself, for a selection set starts with a brace as well. Then the text is split there, so what was
put below a query is found again exactly if the query is not divided.

## Contents
- **Places.** `OpensBrace`, `Divided`; `variablesAfter?_iff`.
- **Splitting.** `splitAtVariables_eq_none`, `splitAtVariables_some`: the first place is found.
- **Objects.** `IsObjectText`; `parse_dict_opens`, `exists_write_of_parse`: how the text of an object starts, and that
  the object can be written.
- **Joining.** `withVariables`; `splitAtVariables_append`, `splitGraphql_withVariables`.
- **Parts.** `divided_append`, `divided_intercalate`: parts with blank lines between them.
-/

namespace HttpFile

open Text Json Unicode

/-! ## Places -/

/-- The text starts with a brace, blanks aside. -/
def OpensBrace (t : Text) : Prop := ['{'] <+: stripLeft t

instance (t : Text) : Decidable (OpensBrace t) := inferInstanceAs (Decidable (['{'] <+: stripLeft t))

/-- A blank line stands in the text, and a brace behind it. -/
def Divided (t : Text) : Prop :=
  ∃ u gap v, t = u ++ '\n' :: (gap ++ '\n' :: v) ∧ (∀ c ∈ gap, isGap c = true) ∧ OpensBrace v

section
variable {t u v w : Text} {c : Char}

theorem opensBrace_of_head (h : t.head? = some '{') : OpensBrace t := by
  cases t with
  | nil => cases h
  | cons d t =>
      obtain rfl : d = '{' := Option.some.inj h
      exact ⟨t, rfl⟩

theorem opensBrace_blank (hu : ∀ c ∈ u, isBlank c = true) : OpensBrace (u ++ t) ↔ OpensBrace t := by
  unfold OpensBrace stripLeft trimLeftWhere
  rw [List.dropWhile_append_of_pos hu]

/-- Whether a text with something in it starts with a brace does not depend on what is behind it. -/
theorem opensBrace_append (hc : c ∈ t) (hsolid : isBlank c = false) : OpensBrace (t ++ w) ↔ OpensBrace t := by
  induction t with
  | nil => cases hc
  | cons d t ih =>
      by_cases hd : isBlank d = true
      · have hrest : c ∈ t := by
          rcases List.mem_cons.mp hc with rfl | hc
          · rw [hsolid] at hd
            cases hd
          · exact hc
        have hblank : ∀ e ∈ [d], isBlank e = true := by simpa using hd
        have hleft := opensBrace_blank (t := t ++ w) hblank
        have hright := opensBrace_blank (t := t) hblank
        exact hleft.trans ((ih hrest).trans hright.symm)
      · unfold OpensBrace stripLeft trimLeftWhere
        rw [List.cons_append, List.dropWhile_cons_of_neg hd, List.dropWhile_cons_of_neg hd, List.cons_prefix_cons,
          List.cons_prefix_cons]
        simp

theorem OpensBrace.exists_mem (h : OpensBrace t) : '{' ∈ t :=
  (List.dropWhile_suffix _).subset (h.subset List.mem_cons_self)

/-- A blank line and a brace behind it are found behind a newline. -/
theorem variablesAfter?_iff :
    variablesAfter? t = some v ↔ ∃ gap, t = gap ++ '\n' :: v ∧ (∀ c ∈ gap, isGap c = true) ∧ OpensBrace v := by
  unfold variablesAfter?
  constructor
  · intro h
    split at h
    · next rest hdrop =>
        split at h
        · next hbrace =>
            injection h with h
            subst h
            refine ⟨t.takeWhile isGap, ?_, fun c hc => List.mem_takeWhile_imp hc, List.isPrefixOf_iff_prefix.mp hbrace⟩
            rw [← hdrop, List.takeWhile_append_dropWhile]
        · cases h
    · cases h
  · rintro ⟨gap, rfl, hgap, hbrace⟩
    rw [dropWhile_append_stop hgap (by decide)]
    exact if_pos (List.isPrefixOf_iff_prefix.mpr hbrace)

theorem divided_cons : Divided (c :: t) ↔ (c = '\n' ∧ ∃ v, variablesAfter? t = some v) ∨ Divided t := by
  constructor
  · rintro ⟨u, gap, v, h, hgap, hbrace⟩
    cases u with
    | nil =>
        obtain ⟨rfl, rfl⟩ := List.cons.inj h
        exact Or.inl ⟨rfl, v, variablesAfter?_iff.mpr ⟨gap, rfl, hgap, hbrace⟩⟩
    | cons d u =>
        obtain ⟨-, rfl⟩ := List.cons.inj h
        exact Or.inr ⟨u, gap, v, rfl, hgap, hbrace⟩
  · rintro (⟨rfl, v, hv⟩ | ⟨u, gap, v, rfl, hgap, hbrace⟩)
    · obtain ⟨gap, rfl, hgap, hbrace⟩ := variablesAfter?_iff.mp hv
      exact ⟨[], gap, v, rfl, hgap, hbrace⟩
    · exact ⟨c :: u, gap, v, rfl, hgap, hbrace⟩

/-- What divides a text still divides it when something is put behind it. -/
theorem Divided.append_right (h : Divided t) (w : Text) : Divided (t ++ w) := by
  obtain ⟨u, gap, v, rfl, hgap, hbrace⟩ := h
  refine ⟨u, gap, v ++ w, by simp, hgap, ?_⟩
  exact (opensBrace_append hbrace.exists_mem (by decide)).mpr hbrace

theorem Divided.append_left (h : Divided t) (w : Text) : Divided (w ++ t) := by
  obtain ⟨u, gap, v, rfl, hgap, hbrace⟩ := h
  exact ⟨w ++ u, gap, v, by simp, hgap, hbrace⟩

end

/-! ## Splitting -/

section
variable {t u v : Text}

/-- A text without such a place is not split. -/
theorem splitAtVariables_of_not_divided (h : ¬Divided t) : splitAtVariables t = (t, none) := by
  induction t with
  | nil => rfl
  | cons c t ih =>
      rw [divided_cons, not_or, not_and, not_exists] at h
      have hnone : (if c = '\n' then variablesAfter? t else none) = none := by
        split
        · next hc => exact Option.eq_none_iff_forall_ne_some.mpr (h.1 hc)
        · rfl
      rw [splitAtVariables, hnone]
      dsimp only
      rw [ih h.2]

/-- A text that is split is divided, and the variables start with a brace. -/
theorem splitAtVariables_some (h : splitAtVariables t = (u, some v)) : Divided t ∧ OpensBrace v := by
  induction t generalizing u with
  | nil => cases h
  | cons c t ih =>
      rw [splitAtVariables] at h
      split at h
      · next vars hvars =>
          injection h with hu hv
          injection hv with hv
          subst hv
          split at hvars
          · next hc =>
              obtain ⟨gap, ht, hgap, hbrace⟩ := variablesAfter?_iff.mp hvars
              exact ⟨divided_cons.mpr (Or.inl ⟨hc, vars, hvars⟩), hbrace⟩
          · cases hvars
      · obtain ⟨hdivided, hbrace⟩ := ih (Prod.ext rfl (Prod.mk.inj h).2)
        exact ⟨divided_cons.mpr (Or.inr hdivided), hbrace⟩

theorem splitAtVariables_eq_none : (splitAtVariables t).2 = none ↔ ¬Divided t := by
  constructor
  · intro h hdivided
    cases hsplit : (splitAtVariables t).2 with
    | none =>
        clear hsplit
        induction t with
        | nil =>
            obtain ⟨u, gap, v, heq, -⟩ := hdivided
            simp at heq
        | cons c t ih =>
            rw [splitAtVariables] at h
            split at h
            · cases h
            · next hnone =>
                refine ih h ((divided_cons.mp hdivided).resolve_left ?_)
                rintro ⟨rfl, v, hv⟩
                rw [if_pos rfl, hv] at hnone
                cases hnone
    | some v =>
        rw [hsplit] at h
        cases h
  · intro h
    rw [splitAtVariables_of_not_divided h]

instance (t : Text) : Decidable (Divided t) :=
  decidable_of_iff ((splitAtVariables t).2 ≠ none) (by rw [ne_eq, splitAtVariables_eq_none, not_not])

end

/-! ## Objects -/

/-- A part of JSON with a brace at its start and no blank at its end. -/
def IsObjectText (v : Text) : Prop := Trimmed v ∧ v.head? = some '{'

theorem IsObjectText.isEmpty {v : Text} (h : IsObjectText v) : v.isEmpty = false := by
  obtain ⟨-, hbrace⟩ := h
  cases v with
  | nil => cases hbrace
  | cons c v => rfl

section
variable {s : Text} {vars : List (Value × Value)} (h : Json.parse s = .ok (.dict vars))
include h

/-- The text of an object starts with a brace. -/
theorem parse_dict_opens : ∃ u, skipBlanks s = '{' :: u := by
  obtain ⟨d, ⟨r, hread, -⟩, hd⟩ := parse_iff.mp h
  generalize skipBlanks s = t at hread
  cases hread with
  | hole h => cases h
  | @text w s r hs =>
      have hdict : Value.dict vars = .ofWide s := hd
      unfold Value.ofWide at hdict
      split at hdict <;> cases hdict
  | @scalar x _ _ hscalar =>
      obtain ⟨-, -, hx | ⟨b, hx⟩ | ⟨n, hx⟩ | ⟨y, -, hx⟩⟩ := scalar?_spec hscalar <;>
        cases hd.trans hx
  | emptyList => cases hd
  | list => cases hd
  | emptyDict => exact ⟨_, rfl⟩
  | dict => exact ⟨_, rfl⟩

theorem isObjectText_of_parse (hs : Trimmed s) : IsObjectText s := by
  refine ⟨hs, ?_⟩
  obtain ⟨u, hu⟩ := parse_dict_opens h
  cases s with
  | nil => cases hu
  | cons c s =>
      have hc : isSpace c = false := by
        have hsolid := hs.head (c := c) rfl
        rw [Bool.eq_false_iff]
        intro hspace
        simp only [isSpace, Bool.or_eq_true, beq_iff_eq] at hspace
        rcases hspace with ((rfl | rfl) | rfl) | rfl <;> exact absurd hsolid (by decide)
      rw [skipBlanks_stop hc] at hu
      exact congrArg some (List.cons.inj hu).1

/-- An object that was read can be written, in every style, and as a text in ASCII. -/
theorem exists_write_of_parse (style : Style) : ∃ u, Json.write? style (.dict vars) = some (.inl '{' :: (u ++ [.inl '}'])) ∧
    (style.asciiOnly = true → ∃ v, u = letters v) := by
  obtain ⟨d, -, hd⟩ := parse_iff.mp h
  have hw := writeAt?_written style d.settled 0
  rw [← hd] at hw
  obtain ⟨u, hu⟩ := writeAt?_dict hw
  refine ⟨u, hu ▸ hw, fun hstyle => exists_letters_iff.mpr fun x hx => ?_⟩
  refine half_notMem_written hstyle d.settled 0 x ?_
  rw [hu]
  exact List.mem_cons_of_mem _ (List.mem_append_left _ hx)

/-- In ASCII the object is written as the text of one. -/
theorem exists_objectText_of_parse {style : Style} (hstyle : style.asciiOnly = true) :
    ∃ v, Json.write? style (.dict vars) = some (letters v) ∧ IsObjectText v := by
  obtain ⟨u, hu, hascii⟩ := exists_write_of_parse h style
  obtain ⟨v, rfl⟩ := hascii hstyle
  exact ⟨'{' :: (v ++ ['}']), by rw [hu]; simp, trimmed_between (by decide) (by decide) v, rfl⟩

end

/-- What starts with a brace is read as an object, if it is read. -/
theorem exists_dict_of_parse {s : Text} {x : Value} (h : Json.parse s = .ok x) (hs : s.head? = some '{') :
    ∃ vars, x = .dict vars := by
  obtain ⟨d, ⟨r, hread, -⟩, rfl⟩ := parse_iff.mp h
  cases s with
  | nil => cases hs
  | cons c s =>
      obtain rfl : c = '{' := Option.some.inj hs
      rw [skipBlanks_stop (by decide)] at hread
      cases hread with
      | hole h => cases h
      | scalar hscalar => exact absurd (scalar?_cons hscalar) (by decide)
      | emptyDict => exact ⟨_, rfl⟩
      | dict => exact ⟨_, rfl⟩

/-! ## Joining -/

/-- A query with its variables below it, if it has any. -/
def withVariables (query : Text) : Option Text → Text
  | none => query
  | some vars => query ++ '\n' :: '\n' :: vars

/-- A place behind a newline is not lost if the last character in front of the rest is no blank. -/
theorem exists_variablesAfter? {s v w : Text} {d : Char} (hd : isBlank d = false)
    (h : variablesAfter? (s ++ d :: w) = some v) : ∃ v', variablesAfter? (s ++ [d]) = some v' := by
  obtain ⟨gap, heq, hgap, hbrace⟩ := variablesAfter?_iff.mp h
  have hnotgap : d ∉ gap := fun hmem => by
    have hblank := isBlank_of_isGap (hgap d hmem)
    rw [hd] at hblank
    cases hblank
  have hline : d ≠ '\n' := by
    rintro rfl
    exact absurd hd (by decide)
  -- the gap and the newline behind it end in front of the last character
  rcases List.append_eq_append_iff.mp heq with ⟨x, rfl, hrest⟩ | ⟨x, rfl, hrest⟩
  · cases x with
    | nil => exact absurd (List.cons.inj hrest).1 hline
    | cons e x =>
        obtain ⟨rfl, -⟩ := List.cons.inj hrest
        exact absurd (List.mem_append_right s List.mem_cons_self) hnotgap
  · cases x with
    | nil => exact absurd (List.cons.inj hrest).1.symm hline
    | cons e x =>
        obtain ⟨rfl, rfl⟩ := List.cons.inj hrest
        have hsplit : x ++ d :: w = (x ++ [d]) ++ w := by simp
        have hmem : d ∈ x ++ [d] := List.mem_append_right x List.mem_cons_self
        refine ⟨x ++ [d], variablesAfter?_iff.mpr ⟨gap, by simp, hgap, ?_⟩⟩
        rwa [← opensBrace_append hmem hd, ← hsplit]

section
variable {q v : Text} (hlast : ∀ c, q.getLast? = some c → isBlank c = false)
include hlast

/-- **What is put below a query that is not divided is found there.** -/
theorem splitAtVariables_append (hv : OpensBrace v) (h : ¬Divided q) :
    splitAtVariables (q ++ '\n' :: '\n' :: v) = (q, some v) := by
  induction q with
  | nil =>
      have hhere : variablesAfter? ('\n' :: v) = some v :=
        variablesAfter?_iff.mpr ⟨[], rfl, fun c hc => absurd hc List.not_mem_nil, hv⟩
      show splitAtVariables ('\n' :: '\n' :: v) = _
      rw [splitAtVariables, if_pos rfl, hhere]
  | cons c q ih =>
      rw [divided_cons, not_or] at h
      have hrest : ∀ d, q.getLast? = some d → isBlank d = false := by
        intro d hd
        refine hlast d ?_
        rw [List.getLast?_cons, hd]
        rfl
      have hnone : (if c = '\n' then variablesAfter? (q ++ '\n' :: '\n' :: v) else none) = none := by
        split
        · next hc =>
            rw [Option.eq_none_iff_forall_ne_some]
            intro v' hv'
            -- variables behind this newline would be found within the query already
            rcases List.eq_nil_or_concat q with rfl | ⟨s, d, rfl⟩
            · exact absurd (hlast c rfl) (by rw [hc]; decide)
            · have hd : isBlank d = false := hrest d (by simp)
              rw [List.concat_eq_append, List.append_assoc] at hv'
              obtain ⟨v'', hv''⟩ := exists_variablesAfter? hd hv'
              exact h.1 ⟨hc, v'', by rw [List.concat_eq_append, hv'']⟩
        · rfl
      rw [List.cons_append, splitAtVariables, hnone]
      dsimp only
      rw [ih hrest h.2]

end

/-- A query with variables is trimmed as it is, if both are. -/
theorem trimmed_withVariables {q : Text} {vars : Option Text} (hq : Trimmed q) (hne : q ≠ [])
    (hvars : ∀ v, vars = some v → IsObjectText v) : Trimmed (withVariables q vars) := by
  cases vars with
  | none => exact hq
  | some v =>
      obtain ⟨hv, hbrace⟩ := hvars v rfl
      have hnonempty : v ≠ [] := by
        rintro rfl
        cases hbrace
      refine trimmed_iff.mpr ⟨fun c hc => hq.head ?_, fun c hc => hv.last ?_⟩
      · rwa [withVariables, List.head?_append_of_ne_nil _ hne] at hc
      · rw [withVariables, List.getLast?_append_of_ne_nil _ (by simp)] at hc
        rwa [List.getLast?_cons_of_ne_nil (by simp), List.getLast?_cons_of_ne_nil hnonempty] at hc

/-- A divided text is split inside it, whatever is behind. -/
theorem length_splitAtVariables_lt {t : Text} (h : Divided t) (w : Text) :
    (splitAtVariables (t ++ w)).1.length < t.length := by
  induction t with
  | nil =>
      obtain ⟨u, gap, v, heq, -⟩ := h
      simp at heq
  | cons c t ih =>
      rw [List.cons_append, splitAtVariables]
      split
      · exact Nat.succ_pos _
      · next hnone =>
          have hrest : Divided t := by
            refine (divided_cons.mp h).resolve_left ?_
            rintro ⟨rfl, v, hv⟩
            obtain ⟨gap, rfl, hgap, hbrace⟩ := variablesAfter?_iff.mp hv
            have hlonger : variablesAfter? (gap ++ '\n' :: v ++ w) = some (v ++ w) := by
              refine variablesAfter?_iff.mpr ⟨gap, by simp, hgap, ?_⟩
              exact (opensBrace_append hbrace.exists_mem (by decide)).mpr hbrace
            rw [if_pos rfl, hlonger] at hnone
            cases hnone
          exact Nat.succ_lt_succ (ih hrest)

/-- **A query and its variables are found again exactly if the query is not divided.** -/
theorem splitGraphql_withVariables {q : Text} {vars : Option Text} (hq : Trimmed q)
    (hvars : ∀ v, vars = some v → IsObjectText v) : splitGraphql (withVariables q vars) = (q, vars) ↔ ¬Divided q := by
  constructor
  · intro h hdivided
    obtain ⟨w, hw⟩ : ∃ w, withVariables q vars = q ++ w := by
      cases vars with
      | none => exact ⟨[], (List.append_nil q).symm⟩
      | some v => exact ⟨_, rfl⟩
    -- a divided query is cut short, and trimming does not make up for it
    have hshort := length_splitAtVariables_lt hdivided w
    have hquery : strip (splitAtVariables (q ++ w)).1 = q := hw ▸ congrArg Prod.fst h
    have hlength := (strip_isInfix (splitAtVariables (q ++ w)).1).length_le
    rw [hquery] at hlength
    omega
  · intro h
    have htrimmed : strip q = q := hq
    unfold splitGraphql
    cases vars with
    | none =>
        rw [withVariables, splitAtVariables_of_not_divided h]
        exact Prod.ext htrimmed rfl
    | some v =>
        obtain ⟨hv, hbrace⟩ := hvars v rfl
        have hobject : strip v = v := hv
        rw [withVariables, splitAtVariables_append (fun c => hq.last) (opensBrace_of_head hbrace) h]
        exact Prod.ext htrimmed (congrArg some hobject)

/-! ## Parts -/

theorem opensBrace_newline {t : Text} : OpensBrace ('\n' :: t) ↔ OpensBrace t :=
  opensBrace_blank (u := ['\n']) (by decide)

/-- What starts with a brace behind blanks has it in one of its two parts. -/
theorem OpensBrace.of_append {t u : Text} (h : OpensBrace (t ++ u)) : OpensBrace t ∨ OpensBrace u := by
  by_cases hblank : ∀ c ∈ t, isBlank c = true
  · exact Or.inr ((opensBrace_blank hblank).mp h)
  · obtain ⟨c, hc, hsolid⟩ : ∃ c ∈ t, ¬isBlank c = true := by simpa using hblank
    exact Or.inl ((opensBrace_append hc (by simpa using hsolid)).mp h)

theorem opensBrace_of_variablesAfter? {t u v : Text} (h : variablesAfter? (t ++ '\n' :: u) = some v) :
    (∃ v', variablesAfter? t = some v') ∨ OpensBrace u := by
  obtain ⟨gap, heq, hgap, hbrace⟩ := variablesAfter?_iff.mp h
  rcases List.append_eq_append_iff.mp heq with ⟨x, rfl, hrest⟩ | ⟨x, rfl, hrest⟩
  · cases x with
    | nil => exact Or.inr ((List.cons.inj hrest).2 ▸ hbrace)
    | cons e x =>
        obtain rfl : '\n' = e := (List.cons.inj hrest).1
        exact absurd (hgap '\n' (List.mem_append_right t List.mem_cons_self)) (by decide)
  · cases x with
    | nil => exact Or.inr ((List.cons.inj hrest).2 ▸ hbrace)
    | cons e x =>
        obtain ⟨rfl, rfl⟩ := List.cons.inj hrest
        refine hbrace.of_append.imp (fun hx => ⟨x, variablesAfter?_iff.mpr ⟨gap, rfl, hgap, hx⟩⟩) ?_
        exact opensBrace_newline.mp

/-- A blank line divides a text only in front of a brace. -/
theorem divided_append {t u : Text} : Divided (t ++ '\n' :: '\n' :: u) ↔ Divided t ∨ OpensBrace u ∨ Divided u := by
  constructor
  · intro h
    induction t with
    | nil =>
        right
        rcases divided_cons.mp h with ⟨-, v, hv⟩ | h
        · rcases opensBrace_of_variablesAfter? (t := []) hv with ⟨v', hv'⟩ | hu
          · cases hv'
          · exact Or.inl hu
        · rcases divided_cons.mp h with ⟨-, v, hv⟩ | h
          · -- divided at the second newline: the brace is the first thing behind it
            obtain ⟨gap, rfl, hgap, hbrace⟩ := variablesAfter?_iff.mp hv
            have hblank : ∀ c ∈ gap, isBlank c = true := fun c hc => isBlank_of_isGap (hgap c hc)
            exact Or.inl ((opensBrace_blank hblank).mpr (opensBrace_newline.mpr hbrace))
          · exact Or.inr h
    | cons c t ih =>
        rcases divided_cons.mp h with ⟨hc, v, hv⟩ | h
        · rcases opensBrace_of_variablesAfter? hv with hv' | hu
          · exact Or.inl (divided_cons.mpr (Or.inl ⟨hc, hv'⟩))
          · exact Or.inr (Or.inl (opensBrace_newline.mp hu))
        · exact (ih h).imp_left fun ht => divided_cons.mpr (Or.inr ht)
  · rintro (h | h | h)
    · exact h.append_right _
    · exact ⟨t, [], u, rfl, fun c hc => absurd hc List.not_mem_nil, h⟩
    · have hsplit : t ++ '\n' :: '\n' :: u = (t ++ ['\n', '\n']) ++ u := by simp
      exact hsplit ▸ h.append_left _

/-- Blanks at the end of a text do not divide it. -/
theorem divided_append_blank {t w : Text} (hw : ∀ c ∈ w, isBlank c = true) : Divided (t ++ w) ↔ Divided t := by
  have hnobrace : '{' ∉ w := fun hin => absurd (hw _ hin) (by decide)
  refine ⟨fun h => ?_, fun h => h.append_right w⟩
  obtain ⟨u, gap, v, heq, hgap, hbrace⟩ := h
  have hsplit : t ++ w = (u ++ '\n' :: (gap ++ ['\n'])) ++ v := by simpa using heq
  rcases List.append_eq_append_iff.mp hsplit with ⟨x, -, rfl⟩ | ⟨x, rfl, rfl⟩
  · exact absurd (List.mem_append_right x hbrace.exists_mem) hnobrace
  · have hopens := hbrace.of_append.resolve_right fun hopens => hnobrace hopens.exists_mem
    exact ⟨u, gap, x, by simp, hgap, hopens⟩

/-- **Parts with blank lines between them** are divided where a part is, or where a later part starts with a brace. -/
theorem divided_intercalate {t : Text} {ts : List Text} (hsolid : ∀ u ∈ ts, ∃ c ∈ u, isBlank c = false) :
    Divided (['\n', '\n'].intercalate (t :: ts)) ↔ (∃ u ∈ t :: ts, Divided u) ∨ ∃ u ∈ ts, OpensBrace u := by
  induction ts generalizing t with
  | nil => simp
  | cons u ts ih =>
      have hbrace : OpensBrace (['\n', '\n'].intercalate (u :: ts)) ↔ OpensBrace u := by
        obtain ⟨c, hc, hb⟩ := hsolid u List.mem_cons_self
        cases ts with
        | nil => rw [List.intercalate_singleton]
        | cons u' ts =>
            rw [List.intercalate_cons_cons, List.append_assoc]
            exact opensBrace_append hc hb
      have hrest := ih (t := u) fun x hx => hsolid x (List.mem_cons_of_mem u hx)
      have hsplit : ['\n', '\n'].intercalate (t :: u :: ts) =
          t ++ '\n' :: '\n' :: ['\n', '\n'].intercalate (u :: ts) := by
        rw [List.intercalate_cons_cons, List.append_assoc]
        rfl
      rw [hsplit, divided_append, hbrace, hrest]
      simp only [List.mem_cons, exists_eq_or_imp, or_assoc, or_left_comm]

end HttpFile
