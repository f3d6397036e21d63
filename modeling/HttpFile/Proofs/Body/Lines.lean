import HttpFile.Proofs.Syntax.Lexeme

/-!
# `HttpFile.Proofs.Body.Lines` — the lines of a body

A body runs up to a line that starts with `###` or `>`. So none of its lines does, and a text none of
whose lines does is read as a body as far as it goes.

## Contents
- **Line starts.** `endsBody_firstLine`: whether a line ends a body is seen on that line.
- **What a body holds.** `Inert`, `inert_iff`, `inert_strip`, `inert_bodyLines`, `body_spec`.
- **What is read as a body.** `bodyLines_append`, `bodyLines_written`.
- **Kinds.** `opens?`: the kind that the first line of a body announces.
-/

namespace HttpFile.Syntax

open Text Unicode

/-! ## Line starts -/

theorem endsBody_of_isPrefix {u t : Text} (hp : u <+: t) (h : endsBody u = true) :
    endsBody t = true := by
  unfold endsBody at h ⊢
  rw [Bool.or_eq_true, List.isPrefixOf_iff_prefix, List.isPrefixOf_iff_prefix] at h ⊢
  exact h.imp (·.trans hp) (·.trans hp)

/-- A mark without a newline at the start of a text stands on its first line. -/
theorem prefix_firstLine {mark t : Text} (hm : '\n' ∉ mark) (h : mark <+: t) :
    mark <+: firstLine t := by
  obtain ⟨u, rfl⟩ := h
  unfold firstLine
  rw [List.takeWhile_append_of_pos]
  · exact List.prefix_append _ _
  · intro c hc
    have hne : c ≠ '\n' := fun he => hm (he ▸ hc)
    simpa using hne

theorem endsBody_firstLine (t : Text) : endsBody (firstLine t) = endsBody t := by
  rw [Bool.eq_iff_iff]
  constructor
  · exact endsBody_of_isPrefix (firstLine_isPrefix t)
  · intro h
    unfold endsBody at h ⊢
    rw [Bool.or_eq_true, List.isPrefixOf_iff_prefix, List.isPrefixOf_iff_prefix] at h ⊢
    exact h.imp (prefix_firstLine (by decide)) (prefix_firstLine (by decide))

theorem endsBody_append_newline (u v : Text) : endsBody (u ++ '\n' :: v) = endsBody u := by
  rw [← endsBody_firstLine (u ++ '\n' :: v), ← endsBody_firstLine u]
  congr 1
  by_cases hu : '\n' ∈ u
  · obtain ⟨a, b, rfl, ha⟩ := List.eq_append_cons_of_mem hu
    rw [List.append_assoc, List.cons_append, firstLine_append ha, firstLine_append ha]
  · rw [firstLine_append hu, firstLine_eq_self hu]

/-! ## What a body holds -/

/-- A text none of whose lines ends a body. -/
def Inert (t : Text) : Prop := ∀ line ∈ fieldsAt '\n' t, endsBody line = false

instance (t : Text) : Decidable (Inert t) :=
  inferInstanceAs (Decidable (∀ line ∈ fieldsAt '\n' t, _))

/-- The first line of a text is the first of its pieces. -/
theorem fieldsAt_head {t f : Text} {fs : List Text} (h : fieldsAt '\n' t = f :: fs) :
    f = firstLine t := by
  have hn : '\n' ∉ f := notMem_of_mem_fieldsAt (by rw [h]; simp)
  have hj := join_fieldsAt '\n' t
  rw [h] at hj
  cases fs with
  | nil =>
      have ht : f = t := by simpa using hj
      rw [← ht, firstLine_eq_self hn]
  | cons g gs =>
      rw [List.intercalate_cons_cons, List.append_assoc, List.singleton_append] at hj
      rw [← hj, firstLine_append hn]

theorem Inert.endsBody {t : Text} (h : Inert t) : endsBody t = false := by
  cases hf : fieldsAt '\n' t with
  | nil => exact absurd hf (fieldsAt_ne_nil _ t)
  | cons f fs =>
      have hfirst := h f (by rw [hf]; simp)
      rwa [fieldsAt_head hf, endsBody_firstLine] at hfirst

theorem Inert.append_iff {u v : Text} : Inert (u ++ '\n' :: v) ↔ Inert u ∧ Inert v := by
  unfold Inert
  rw [fieldsAt_append]
  exact List.forall_mem_append

/-- A text is inert when neither it nor what stands behind a newline of it ends a body. -/
theorem inert_iff {t : Text} :
    Inert t ↔ endsBody t = false ∧ ∀ u v, t = u ++ '\n' :: v → endsBody v = false := by
  constructor
  · intro h
    refine ⟨h.endsBody, ?_⟩
    rintro u v rfl
    exact (Inert.append_iff.mp h).2.endsBody
  · rintro ⟨ht, hbelow⟩
    by_cases hn : '\n' ∈ t
    · obtain ⟨u, v, rfl, hu⟩ := List.eq_append_cons_of_mem hn
      have hv : Inert v := by
        refine inert_iff.mpr ⟨hbelow u v rfl, ?_⟩
        rintro u' v' rfl
        exact hbelow (u ++ '\n' :: u') v' (by simp)
      refine Inert.append_iff.mpr ⟨?_, hv⟩
      intro line hline
      rw [fieldsAt_eq_singleton hu, List.mem_singleton] at hline
      rwa [hline, ← endsBody_append_newline u v]
    · intro line hline
      rw [fieldsAt_eq_singleton hn, List.mem_singleton] at hline
      exact hline ▸ ht
termination_by t.length
decreasing_by simp [*]; omega

/-- Trimming moves the first line of a text and leaves the starts of the others where they are. -/
theorem inert_strip {t : Text} (h : Inert t) (hs : endsBody (strip t) = false) : Inert (strip t) := by
  obtain ⟨a, b, ht, -, -⟩ := strip_spec t
  refine inert_iff.mpr ⟨hs, fun u v huv => ?_⟩
  have hline : endsBody (v ++ b) = false :=
    (inert_iff.mp h).2 (a ++ u) (v ++ b) (by rw [ht, huv]; simp)
  cases hv : endsBody v with
  | false => rfl
  | true =>
      rw [endsBody_of_isPrefix (List.prefix_append v b) hv] at hline
      simp at hline

/-- No line of what is read as a body ends one; of the first line this is known only if it was looked
    at. -/
theorem bodyLines_fields (atLineStart : Bool) (t : Text) :
    ∃ f fs, fieldsAt '\n' (bodyLines atLineStart t) = f :: fs ∧
      (atLineStart = true → endsBody f = false) ∧ ∀ g ∈ fs, endsBody g = false := by
  fun_induction bodyLines atLineStart t with
  | case1 => exact ⟨[], [], rfl, fun _ => rfl, by simp⟩
  | case2 => exact ⟨[], [], rfl, fun _ => rfl, by simp⟩
  | case3 flag c rest hgo ih =>
      obtain ⟨f, fs, hf, hfirst, hmore⟩ := ih
      by_cases hc : c = '\n'
      · subst hc
        refine ⟨[], f :: fs, by rw [fieldsAt_cons_self, hf], fun _ => rfl, ?_⟩
        intro g hg
        rcases List.mem_cons.mp hg with rfl | hg
        · exact hfirst (by simp)
        · exact hmore g hg
      · refine ⟨c :: f, fs, fieldsAt_cons_of_ne hc hf, fun hflag => ?_, hmore⟩
        have hno : endsBody (c :: rest) = false := by simpa [hflag] using hgo
        rw [Bool.eq_false_iff] at hno ⊢
        intro he
        refine hno (endsBody_of_isPrefix (List.cons_prefix_cons.mpr ⟨rfl, ?_⟩) he)
        exact (fieldsAt_isPrefix_isInfix hf).1.trans (bodyLines_isPrefix _ rest)

theorem inert_bodyLines {t : Text} (h : endsBody t = false) : Inert (bodyLines false t) := by
  obtain ⟨f, fs, hf, -, hmore⟩ := bodyLines_fields false t
  intro line hline
  rw [hf] at hline
  rcases List.mem_cons.mp hline with rfl | hline
  · rw [Bool.eq_false_iff] at h ⊢
    intro he
    exact h (endsBody_of_isPrefix ((fieldsAt_isPrefix_isInfix hf).1.trans (bodyLines_isPrefix _ t)) he)
  · exact hmore line hline

/-- The first line is read to its end. -/
theorem firstLine_prefix_bodyLines (t : Text) : firstLine t <+: bodyLines false t := by
  induction t with
  | nil => exact List.nil_prefix
  | cons c rest ih =>
      rw [bodyLines, if_neg (by simp)]
      by_cases hc : c = '\n'
      · rw [firstLine, List.takeWhile_cons_of_neg (by simp [hc])]
        exact List.nil_prefix
      · rw [firstLine, List.takeWhile_cons_of_pos (by simpa using hc),
          show (c == '\n') = false by simpa using hc]
        exact List.cons_prefix_cons.mpr ⟨rfl, ih⟩

/-- **What is read as a body holds something, and none of its lines ends a body.** -/
theorem body_spec {k : Terminal} (hk : k.isBody = true) {t l : Text} (h : k.lexeme? t = some l) :
    Inert l ∧ ∃ c ∈ l, isBlank c = false := by
  -- all kinds but the raw one open with a visible character that is no mark
  have visible : ∀ {opens : Text → Bool}, opens [] = false → bodyIf opens t = some l →
      (∀ c, k.mayOpen c = true → isGraphic c = true ∧ c ≠ '#' ∧ c ≠ '>') →
      Inert l ∧ ∃ c ∈ l, isBlank c = false := by
    intro opens ho hb hc
    obtain ⟨-, hl, c, rest, rfl, he⟩ := bodyIf_spec ho hb
    obtain ⟨hg, h1, h2⟩ := hc c (mayOpen_of_lexeme? h)
    have hend : endsBody (c :: rest) = false := by
      have h1' : '#' ≠ c := fun he => h1 he.symm
      have h2' : '>' ≠ c := fun he => h2 he.symm
      simp [endsBody, List.isPrefixOf, h1', h2']
    exact ⟨hl ▸ inert_bodyLines hend, c, by rw [he]; simp, isBlank_of_isGraphic hg⟩
  cases k with
  | formBody =>
      refine visible rfl h fun c hc => ⟨isGraphic_of_isFormKey hc, ?_, ?_⟩ <;> rintro rfl <;>
        exact absurd hc (by decide)
  | jsonBody =>
      refine visible rfl h fun c hc => ?_
      have hc' : c = '[' ∨ c = '{' := by simpa [Terminal.mayOpen] using hc
      rcases hc' with rfl | rfl <;> decide
  | graphqlBody =>
      refine visible (by decide) h fun c hc => ?_
      have hc' : ((c = 'q' ∨ c = 'm') ∨ c = 's') ∨ c = 'f' := by
        simpa [Terminal.mayOpen, or_assoc] using hc
      rcases hc' with ((rfl | rfl) | rfl) | rfl <;> decide
  | xmlBody =>
      refine visible rfl h fun c hc => ?_
      have hc' : c = '<' := by simpa [Terminal.mayOpen] using hc
      subst hc'
      decide
  | externalBody =>
      refine visible rfl h fun c hc => ?_
      have hc' : c = '<' := by simpa [Terminal.mayOpen] using hc
      subst hc'
      decide
  | rawBody =>
      obtain ⟨ho, hl, c, rest, ht, he⟩ := bodyIf_spec rfl h
      rw [opensRaw, Bool.and_eq_true] at ho
      refine ⟨hl ▸ inert_bodyLines (by simpa using ho.1), ?_⟩
      have hline : ¬∀ d ∈ firstLine t, isBlank d = true := by simpa using ho.2
      by_contra hno
      refine hline fun d hd => ?_
      have hdl : d ∈ l := by
        rw [hl]
        exact (firstLine_prefix_bodyLines t).subset hd
      by_contra hb
      exact hno ⟨d, hdl, by simpa using hb⟩
  | _ => simp [Terminal.isBody] at hk

/-! ## What is read as a body -/

/-- A text without a line that ends a body is read to the end of its last line. -/
theorem bodyLines_append {w : Text} {flag : Bool} {f : Text} {fs : List Text}
    (hf : fieldsAt '\n' w = f :: fs) (hfirst : flag = true → endsBody f = false)
    (hmore : ∀ g ∈ fs, endsBody g = false) (rest : Text) :
    bodyLines flag (w ++ '\n' :: rest) = w ++ '\n' :: bodyLines true rest := by
  induction w generalizing flag f fs with
  | nil =>
      have he : endsBody ('\n' :: rest) = false := rfl
      rw [List.nil_append, bodyLines, if_neg (by simp [he])]
      rfl
  | cons c w ih =>
      have hgo : (flag && endsBody (c :: (w ++ '\n' :: rest))) = false := by
        cases hflag : flag with
        | false => rfl
        | true =>
            have he := hfirst hflag
            rwa [fieldsAt_head hf, endsBody_firstLine, ← endsBody_append_newline _ rest] at he
      rw [List.cons_append, bodyLines, if_neg (by simp [hgo])]
      cases hw : fieldsAt '\n' w with
      | nil => exact absurd hw (fieldsAt_ne_nil _ w)
      | cons g gs =>
          -- behind a newline the next field is the first, with its own line to check
          by_cases hc : c = '\n'
          · subst hc
            rw [fieldsAt_cons_self, hw] at hf
            injection hf with _ hfs
            subst hfs
            rw [ih hw (fun _ => hmore g (by simp)) fun x hx => hmore x (by simp [hx])]
            rfl
          · rw [fieldsAt_cons_of_ne hc hw] at hf
            injection hf with _ hfs
            subst hfs
            rw [show (c == '\n') = false by simpa using hc, ih hw (by simp) hmore]
            rfl

/-- What follows the last line of a written body: the end of the file, or an empty line and a line
    that ends the body. -/
def Follows (rest : Text) : Prop := rest = [] ∨ ∃ s, rest = '\n' :: s ∧ endsBody s = true

/-- The part of what follows a body that is read as its end. -/
def bodyEnd (rest : Text) : Text := if rest.isEmpty then ['\n'] else ['\n', '\n']

/-- A written body is read with the newlines behind it. -/
theorem bodyLines_written {w rest : Text} (hw : Inert w) (hr : Follows rest) :
    bodyLines false (w ++ '\n' :: rest) = w ++ bodyEnd rest := by
  cases hf : fieldsAt '\n' w with
  | nil => exact absurd hf (fieldsAt_ne_nil _ w)
  | cons f fs =>
      rw [bodyLines_append hf (by simp) fun g hg => hw g (by rw [hf]; simp [hg])]
      rcases hr with rfl | ⟨s, rfl, hs⟩
      · rfl
      · rw [bodyLines, if_neg (by simp [show endsBody ('\n' :: s) = false from rfl])]
        cases s with
        | nil => exact absurd hs (by decide)
        | cons c s =>
            rw [bodyLines, if_pos (by simp [hs])]
            rfl

/-! ## Kinds -/

theorem takeWhile_append_newline {p : Char → Bool} (hp : p '\n' = false) (w rest : Text) :
    (w ++ '\n' :: rest).takeWhile p = w.takeWhile p := by
  induction w with
  | nil => rw [List.nil_append, List.takeWhile_cons_of_neg (by simp [hp])]; rfl
  | cons c w ih =>
      rw [List.cons_append, List.takeWhile_cons, List.takeWhile_cons, ih]

theorem dropWhile_append_newline {p : Char → Bool} (hp : p '\n' = false) (w rest : Text) :
    (w ++ '\n' :: rest).dropWhile p = w.dropWhile p ++ '\n' :: rest := by
  induction w with
  | nil => rw [List.nil_append, List.dropWhile_cons_of_neg (by simp [hp])]; rfl
  | cons c w ih =>
      rw [List.cons_append, List.dropWhile_cons, List.dropWhile_cons, ih]
      split <;> rfl

theorem opensForm_line (w rest : Text) : opensForm (w ++ '\n' :: rest) = opensForm w := by
  unfold opensForm
  rw [takeWhile_append_newline (by decide), dropWhile_append_newline (by decide)]
  cases w.takeWhile isFormKey with
  | nil => rfl
  | cons c cs =>
      cases w.dropWhile isFormKey with
      | nil => rfl
      | cons d ds =>
          by_cases hd : d = '='
          · subst hd; rfl
          · simp [hd]

theorem opensJson_line {w : Text} (hw : w ≠ []) (rest : Text) :
    opensJson (w ++ '\n' :: rest) = opensJson w := by
  cases w with
  | nil => exact absurd rfl hw
  | cons c w =>
      rw [List.cons_append]
      unfold opensJson
      split <;> simp_all

theorem opensXml_line {w : Text} (hw : w ≠ []) (rest : Text) :
    opensXml (w ++ '\n' :: rest) = opensXml w := by
  match w with
  | [] => exact absurd rfl hw
  | [c] =>
      by_cases hc : c = '<'
      · subst hc; rfl
      · simp [opensXml, hc]
  | c :: d :: w =>
      by_cases hc : c = '<'
      · subst hc; rfl
      · simp [opensXml, hc]

theorem opensExternal_line {w : Text} (hw : w ≠ []) (rest : Text) :
    opensExternal (w ++ '\n' :: rest) = opensExternal w := by
  match w with
  | [] => exact absurd rfl hw
  | [c] =>
      by_cases hc : c = '<'
      · subst hc; rfl
      · simp [opensExternal, hc]
  | c :: d :: w =>
      by_cases hc : c = '<'
      · subst hc; rfl
      · simp [opensExternal, hc]

/-- What is left of a line behind a word, with what follows the line. -/
theorem isPrefixOf?_line {word : Text} (hn : '\n' ∉ word) (w rest : Text) :
    word.isPrefixOf? (w ++ '\n' :: rest) = (word.isPrefixOf? w).map (· ++ '\n' :: rest) := by
  induction word generalizing w with
  | nil => rfl
  | cons a word ih =>
      cases w with
      | nil =>
          have ha : a ≠ '\n' := fun he => hn (by simp [he])
          simp [List.isPrefixOf?, ha]
      | cons c w =>
          rw [List.cons_append, List.isPrefixOf?, List.isPrefixOf?]
          split
          · exact ih (fun hm => hn (by simp [hm])) w
          · rfl

theorem opensGraphql_line (w rest : Text) : opensGraphql (w ++ '\n' :: rest) = opensGraphql w := by
  unfold opensGraphql
  have hword : ∀ word ∈ ["query", "mutation", "subscription", "fragment"], '\n' ∉ word.toList := by
    decide
  rw [Bool.eq_iff_iff, List.any_eq_true, List.any_eq_true]
  refine exists_congr fun word => and_congr_right fun hmem => ?_
  rw [isPrefixOf?_line (hword word hmem)]
  cases word.toList.isPrefixOf? w with
  | none => rfl
  | some v =>
      cases v with
      | nil =>
          have hn : isWord '\n' = false := by decide
          simp [hn]
      | cons c v => rfl

/-- The kind that the first line of a body announces, whatever lines follow. -/
def announced (w : Text) : Terminal :=
  if opensForm w then .formBody
  else if opensGraphql w then .graphqlBody
  else if opensXml w then .xmlBody
  else if opensExternal w then .externalBody
  else if opensJson w then .jsonBody
  else .rawBody

theorem announced_line {w : Text} (hw : w ≠ []) (rest : Text) :
    announced (w ++ '\n' :: rest) = announced w := by
  unfold announced
  rw [opensForm_line, opensGraphql_line, opensXml_line hw, opensExternal_line hw, opensJson_line hw]

theorem isBody_announced (w : Text) : (announced w).isBody = true := by
  unfold announced
  split_ifs <;> rfl

end HttpFile.Syntax
