import HttpFile.Proofs.Document.Outline

/-!
# `HttpFile.Proofs.Document.Lines` — written lines above a request, read one by one

Each kind of line that a document is written with is read back as the entry it stands for, and the
reading goes on with what follows the line. What follows matters in one case: the path of a script
must not be closed like inline code by something below it.

## Contents
- **Tries.** `firstLexeme?_here`, `firstLexeme?_skip`, `lexeme?_eq_none`.
- **Steps.** `outline_layout`, `outline_opened`, `outline_line`.
- **Above a request.** `outline_separator`, `outline_variable`, `outline_metadata`, `outline_comment`.
- **Scripts.** `Script.token`, `Script.IsOpen`, `Script.lexeme?`, `outline_preRequest`.
-/

namespace HttpFile.Syntax

open Text Unicode

/-! ## Tries -/

theorem firstLexeme?_here (k : Terminal) {t l : Text} (h : k.lexeme? t = some l)
    (ks : List Terminal) : firstLexeme? (k :: ks) t = some (k, l) := by
  rw [firstLexeme?_cons, h]
  rfl

theorem firstLexeme?_skip (k : Terminal) {t : Text} (h : k.lexeme? t = none)
    (ks : List Terminal) : firstLexeme? (k :: ks) t = firstLexeme? ks t := by
  rw [firstLexeme?_cons, h]
  rfl

/-- A kind does not cover a text that starts with a character outside of its class. -/
theorem lexeme?_eq_none {k : Terminal} {c : Char} (h : k.mayOpen c = false) (t : Text) :
    k.lexeme? (c :: t) = none := by
  cases hl : k.lexeme? (c :: t) with
  | none => rfl
  | some l =>
      rw [mayOpen_of_lexeme? hl] at h
      simp at h

/-- Of the kinds that are tried, those that cannot start with the character are passed over. -/
theorem firstLexeme?_skipAll (ks : List Terminal) {c : Char}
    (h : ∀ k ∈ ks, k.mayOpen c = false) (ks' : List Terminal) (t : Text) :
    firstLexeme? (ks ++ ks') (c :: t) = firstLexeme? ks' (c :: t) := by
  induction ks with
  | nil => rfl
  | cons k ks ih =>
      rw [List.cons_append, firstLexeme?_skip k (lexeme?_eq_none (h k (by simp)) t),
        ih fun k' hk' => h k' (by simp [hk'])]

/-- The kinds that are tried at the start of a line. -/
theorem lexeme?_lineStart (t : Text) :
    Context.lineStart.lexeme? t = firstLexeme? [.endOfLine, .separatorMark, .metadataMark, .method,
      .target, .comment, .preRequestMark, .variableMark] t := rfl

/-- The kinds that are tried below a request line. -/
theorem lexeme?_headers (t : Text) :
    Context.headers.lexeme? t =
      firstLexeme? [.endOfLine, .separatorMark, .header, .redirect, .handlerMark] t := rfl

/-- The kinds that are tried below the headers. -/
theorem lexeme?_beforeBody (t : Text) :
    Context.beforeBody.lexeme? t = firstLexeme? [.endOfLine, .formBody, .separatorMark, .graphqlBody,
      .xmlBody, .externalBody, .jsonBody, .redirect, .rawBody, .handlerMark] t := rfl

/-- The end of a line is tried before all else. -/
theorem lexeme?_newline {place place' : Context} (hn : place.next .endOfLine = some place')
    (rest : Text) : place.lexeme? (['\n'] ++ rest) = some (.endOfLine, ['\n']) := by
  have hs : place.seeks .endOfLine = true := by
    unfold Context.seeks Context.accepts
    rw [hn]
    rfl
  unfold Context.lexeme? Terminal.all
  rw [List.filter_cons_of_pos hs]
  exact firstLexeme?_here .endOfLine rfl _

/-- A line with something on it does not end where it starts. -/
theorem endOfLine?_solid {g : Text} (hg : ∀ x ∈ g, isGap x = true) {c : Char}
    (hc : isBlank c = false) (rest : Text) : endOfLine? (g ++ c :: rest) = none := by
  have hgap : isGap c = false := isGap_of_solid hc
  rw [endOfLine?, dropWhile_append_stop hg hgap]
  split
  · next heq =>
      injection heq with he _
      rw [he] at hc
      exact absurd hc (by decide)
  · rfl

/-- The same for a line that does not end in blanks. -/
theorem endOfLine?_line {y : Text} (hn : '\n' ∉ y) (hy : stripRight y = y) (hne : y ≠ [])
    (rest : Text) : endOfLine? (y ++ '\n' :: rest) = none := by
  cases hd : y.dropWhile isGap with
  | nil =>
      have hblank : ∀ c ∈ y, isBlank c = true := fun c hc =>
        isBlank_of_isGap (List.dropWhile_eq_nil_iff.mp hd c hc)
      exact absurd (hy.symm.trans (stripRight_eq_nil_iff.mpr hblank)) hne
  | cons c v =>
      have hc : c ≠ '\n' := by
        rintro rfl
        exact hn ((List.dropWhile_suffix isGap).subset (by rw [hd]; simp))
      have htext : (y ++ '\n' :: rest).dropWhile isGap = c :: (v ++ '\n' :: rest) := by
        rw [List.dropWhile_append, hd]
        rfl
      rw [endOfLine?, htext]
      split
      · next heq => exact absurd (List.cons.inj heq).1 hc
      · rfl

/-! ## Steps -/

/-- Layout leaves no entry. -/
theorem outline_layout {place place' : Context} {k : Terminal} {l rest : Text}
    (h : place.lexeme? (l ++ rest) = some (k, l)) (hn : place.next k = some place')
    (hk : k.isLayout = true) : outline place (l ++ rest) = outline place' rest := by
  unfold outline
  rw [reading_step h hn, Option.map_map]
  congr 1
  funext us
  show entries (shown (Token.bare k l :: us)) = entries (shown us)
  rw [shown_cons, Token.bare_kind, if_pos hk]

/-- A token that is an entry by itself goes in front of the others. -/
theorem outline_opened {place place' : Context} {k : Terminal} {l rest : Text} {e : Entry}
    (h : place.lexeme? (l ++ rest) = some (k, l)) (hn : place.next k = some place')
    (hk : k.isLayout = false) (he : ∀ us, Entry.opened? (Token.bare k l) us = some e) :
    outline place (l ++ rest) = (outline place' rest).map (e :: ·) := by
  unfold outline
  rw [reading_step h hn, Option.map_map, Option.map_map]
  congr 1
  funext us
  show entries (shown (Token.bare k l :: us)) = e :: entries (shown us)
  rw [shown_cons, if_neg (by simp [hk]), entries, he]
  rfl

/-- The tokens of a line that are one entry go in front of the others. -/
theorem outline_line {place place' : Context} {t rest : Text} {ts : List Token} {e : Entry}
    (h : reading place t = (reading place' rest).map (ts ++ ·))
    (he : ∀ us, reading place' rest = some us →
      entries (shown (ts ++ us)) = e :: entries (shown us)) :
    outline place t = (outline place' rest).map (e :: ·) := by
  unfold outline
  rw [h]
  cases hr : reading place' rest with
  | none => rfl
  | some us =>
      show some (entries (shown (ts ++ us))) = some (e :: entries (shown us))
      rw [he us hr]

/-- A token in front of tokens. -/
theorem reading_cons {p p' q : Context} {t t' r : Text} {a : Token} {ts : List Token}
    (h : reading p t = (reading p' t').map (a :: ·))
    (h' : reading p' t' = (reading q r).map (ts ++ ·)) :
    reading p t = (reading q r).map (a :: ts ++ ·) := by
  rw [h, h', Option.map_map]
  rfl

/-- At the start of a line, no value and no text of a separator comes next. -/
theorem nextOf_lineStart {t : Text} {us : List Token} (h : reading .lineStart t = some us)
    {k : Terminal} (hk : k = .value ∨ k = .separatorText) : nextOf k (shown us) = none := by
  obtain ⟨ts, hs, rfl⟩ := scan_of_reading h .start
  have hhead : nextOf k (shown ts) = none := by
    refine scan_induction
      (motive := fun place _ ts => place = .lineStart → nextOf k (shown ts) = none) ?_ ?_ hs rfl
    · intro place _ _
      rfl
    · rintro place place' k' l rest ts p - hn ih rfl
      rw [shown_cons]
      split
      · next hlay =>
          refine ih ?_
          cases k' with
          | endOfLine => simpa [Context.next] using hn.symm
          | gap | assign => simp [Context.next] at hn
          | _ => simp [Terminal.isLayout] at hlay
      · have hne : k' ≠ k := by
          rintro rfl
          rcases hk with rfl | rfl <;> simp [Context.next] at hn
        simp [nextOf, Option.filter, hne]
  rw [shown_unplaced, nextOf_unplaced, hhead]
  rfl

theorem reading_newline {place place' : Context} (hn : place.next .endOfLine = some place')
    (rest : Text) : reading place ('\n' :: rest) =
      (reading place' rest).map (Token.bare .endOfLine ['\n'] :: ·) :=
  reading_step (lexeme?_newline hn rest) hn

theorem outline_newline {place place' : Context} (hn : place.next .endOfLine = some place')
    (rest : Text) : outline place ('\n' :: rest) = outline place' rest :=
  outline_layout (lexeme?_newline hn rest) hn rfl

/-! ## Above a request -/

/-- The line of a separator. -/
def separatorLine : Option Text → Text
  | none => ['#', '#', '#']
  | some x => '#' :: '#' :: '#' :: ' ' :: x

theorem separatorMark_lineStart (rest : Text) :
    Context.lineStart.lexeme? (['#', '#', '#'] ++ rest) = some (.separatorMark, ['#', '#', '#']) := by
  rw [lexeme?_lineStart, List.cons_append, firstLexeme?_skip .endOfLine (lexeme?_eq_none rfl _)]
  exact firstLexeme?_here .separatorMark (literal?_append ['#', '#', '#'] rest) _

/-- Behind the mark of a separator, the rest of its line is its text. -/
theorem lexeme?_separatorText {y : Text} (hn : '\n' ∉ y) (hy : stripRight y = y) (hne : y ≠ [])
    (rest : Text) :
    Context.separatorText.lexeme? (y ++ '\n' :: rest) = some (.separatorText, y) := by
  have hline : stripRight (firstLine (y ++ '\n' :: rest)) = y := by rw [firstLine_append hn, hy]
  have htrim := trimmedLine?_of_ne_nil (t := y ++ '\n' :: rest) (by rw [hline]; exact hne)
  rw [hline] at htrim
  show firstLexeme? [.endOfLine, .separatorText] _ = _
  rw [firstLexeme?_skip .endOfLine (endOfLine?_line hn hy hne rest)]
  exact firstLexeme?_here .separatorText htrim _

/-- A line that starts with `###` opens a section, whatever else is on it. -/
theorem outline_mark {y : Text} (hn : '\n' ∉ y) (hy : stripRight y = y) (rest : Text) :
    outline .lineStart (['#', '#', '#'] ++ (y ++ '\n' :: rest)) =
      (outline .lineStart rest).map
        (.separator (if y.isEmpty then none else some (Token.bare .separatorText y)) :: ·) := by
  cases y with
  | nil =>
      have hread : reading .lineStart (['#', '#', '#'] ++ '\n' :: rest) = (reading .lineStart rest).map
          ([Token.bare .separatorMark ['#', '#', '#'], Token.bare .endOfLine ['\n']] ++ ·) :=
        reading_cons (reading_step (separatorMark_lineStart _) rfl) (reading_newline rfl rest)
      refine outline_line hread fun us hus => ?_
      show Entry.separator (nextOf .separatorText (shown us)) :: entries (shown us) = _
      rw [nextOf_lineStart hus (.inr rfl)]
      rfl
  | cons c y =>
      have htext : reading .separatorText (c :: y ++ '\n' :: rest) = _ :=
        reading_step (lexeme?_separatorText hn hy (by simp) rest) rfl
      have hread : reading .lineStart (['#', '#', '#'] ++ (c :: y ++ '\n' :: rest)) =
          (reading .lineStart rest).map ([Token.bare .separatorMark ['#', '#', '#'],
            Token.bare .separatorText (c :: y), Token.bare .endOfLine ['\n']] ++ ·) :=
        reading_cons (reading_step (separatorMark_lineStart _) rfl)
          (reading_cons htext (reading_newline rfl rest))
      exact outline_line hread fun us _ => rfl

/-- The separator of a section, with its text. -/
theorem outline_separator {text : Option Text} (h : ∀ x ∈ text, IsValue x ∧ x ≠ []) (rest : Text) :
    outline .lineStart (separatorLine text ++ '\n' :: rest) =
      (outline .lineStart rest).map
        (.separator (text.map fun x => Token.bare .separatorText (' ' :: x)) :: ·) := by
  cases text with
  | none => exact outline_mark (y := []) (by simp) rfl rest
  | some x =>
      obtain ⟨⟨ht, hn, -⟩, hne⟩ := h x rfl
      have hright : stripRight (' ' :: x) = ' ' :: x := by
        obtain ⟨c, x', rfl⟩ := List.exists_cons_of_ne_nil hne
        have hc : isBlank c = false := ht.head rfl
        have hspace := stripRight_append_cons [' '] hc x'
        rwa [← stripRight_cons _ hc, ht.stripRight] at hspace
      exact outline_mark (y := ' ' :: x) (by simpa using hn) hright rest

/-- The token of a declared value, if there is one. -/
def valueToken (v : Text) : Option Token := if v.isEmpty then none else some (Token.bare .value v)

/-- An equals sign between gaps is read up to what follows it. -/
theorem assign?_append {g : Text} (hg : ∀ x ∈ g, isGap x = true) {c : Char} (hc : isGap c = false)
    (rest : Text) :
    Terminal.assign.lexeme? (' ' :: '=' :: g ++ c :: rest) = some (' ' :: '=' :: g) := by
  have hdrop : (' ' :: '=' :: g ++ c :: rest).dropWhile isGap = '=' :: (g ++ c :: rest) := rfl
  have htake : (' ' :: '=' :: g ++ c :: rest).takeWhile isGap = [' '] := rfl
  show assign? (' ' :: '=' :: g ++ c :: rest) = some (' ' :: '=' :: g)
  rw [assign?, hdrop, htake]
  simp only
  rw [takeWhile_append_stop hg hc]
  rfl

/-- The name at the start of a declaration ends before a gap. -/
theorem reading_name {place place' : Context} (hplace : place.lexeme? = firstLexeme? [.identifier])
    (hn : place.next .identifier = some place') {key : Text} (hk : identifier? key = some key)
    {c : Char} (hc : isIdentifierRest c = false) (rest : Text) :
    reading place (key ++ c :: rest) =
      (reading place' (c :: rest)).map (Token.bare .identifier key :: ·) := by
  refine reading_step ?_ hn
  rw [hplace]
  exact firstLexeme?_here .identifier (identifier?_append hk hc rest) _

/-- A value on its line is read to its end. -/
theorem lexeme?_value {place : Context}
    (hplace : place.lexeme? = firstLexeme? [.endOfLine, .value] ∨ place.lexeme? = firstLexeme? [.value])
    {v : Text} (hv : IsValue v) (hne : v ≠ []) (rest : Text) :
    place.lexeme? (v ++ '\n' :: rest) = some (.value, v) := by
  have hvalue : Terminal.value.lexeme? (v ++ '\n' :: rest) = some v := by
    have h := value?_line hv.1 hv.2.1 hne (u := []) (by simp) rest
    rwa [List.append_nil] at h
  rcases hplace with hplace | hplace
  · have hend : Terminal.endOfLine.lexeme? (v ++ '\n' :: rest) = none := by
      obtain ⟨c, v', rfl⟩ := List.exists_cons_of_ne_nil hne
      exact endOfLine?_solid (g := []) (by simp) (hv.1.head rfl) _
    rw [hplace, firstLexeme?_skip _ hend]
    exact firstLexeme?_here _ hvalue _
  · rw [hplace]
    exact firstLexeme?_here _ hvalue _

theorem render_variable {key value : Text} (hv : IsValue value) :
    (Variable.mk key value).render =
      ['@'] ++ (key ++ (' ' :: '=' :: if value.isEmpty then [] else ' ' :: value)) := by
  have heq : isBlank '=' = false := by decide
  have hs : (Variable.mk key value).render = stripRight ('@' :: key ++ [' '] ++ '=' :: (' ' :: value)) := by
    simp [Variable.render]
  rw [hs, stripRight_append_cons _ heq]
  cases value with
  | nil =>
      have hblank : stripRight [' '] = [] := by decide
      rw [hblank]
      simp
  | cons c v =>
      have hright := stripRight_append_cons [' '] (hv.1.head rfl : isBlank c = false) v
      rw [← stripRight_cons _ (hv.1.head rfl), hv.1.stripRight] at hright
      rw [show ' ' :: c :: v = [' '] ++ c :: v from rfl, hright]
      simp

/-- The declaration of a variable. -/
theorem outline_variable {v : Variable} (hk : identifier? v.key = some v.key) (hv : IsValue v.value)
    (rest : Text) :
    outline .lineStart (v.render ++ '\n' :: rest) =
      (outline .lineStart rest).map
        (.item (.variable (Token.bare .identifier v.key) (valueToken v.value)) :: ·) := by
  obtain ⟨key, value⟩ := v
  have hmark : ∀ t, Context.lineStart.lexeme? (['@'] ++ t) = some (.variableMark, ['@']) := by
    intro t
    rw [lexeme?_lineStart]
    show firstLexeme? ([Terminal.endOfLine, .separatorMark, .metadataMark, .method, .target, .comment,
      .preRequestMark] ++ [Terminal.variableMark]) ('@' :: t) = _
    rw [firstLexeme?_skipAll _ (by decide)]
    exact firstLexeme?_here .variableMark rfl _
  have hkey : ∀ t, reading .variableName (key ++ ' ' :: t) =
      (reading .variableAssign (' ' :: t)).map (Token.bare .identifier key :: ·) :=
    reading_name rfl rfl hk (by decide)
  have hassign : ∀ {g : Text} {c : Char} (t : Text), (∀ x ∈ g, isGap x = true) → isGap c = false →
      reading .variableAssign (' ' :: '=' :: g ++ c :: t) =
        (reading .variableValue (c :: t)).map (Token.bare .assign (' ' :: '=' :: g) :: ·) := by
    intro g c t hg hc
    exact reading_step (firstLexeme?_here .assign (assign?_append hg hc t) _) rfl
  rw [render_variable hv, List.append_assoc, List.append_assoc]
  -- without a value there is no blank behind the sign, so the tokens differ
  cases value with
  | nil =>
      have hread : reading .lineStart (['@'] ++ (key ++ ([' ', '='] ++ '\n' :: rest))) =
          (reading .lineStart rest).map ([Token.bare .variableMark ['@'], Token.bare .identifier key,
            Token.bare .assign [' ', '='], Token.bare .endOfLine ['\n']] ++ ·) := by
        have heq := hassign (g := []) rest (by simp) (by decide : isGap '\n' = false)
        exact reading_cons (reading_step (hmark _) rfl) (reading_cons (hkey _)
          (reading_cons heq (reading_newline rfl rest)))
      refine outline_line hread fun us hus => ?_
      show Entry.item (.variable (Token.bare .identifier key) (nextOf .value (shown us))) ::
        entries (shown us) = _
      rw [nextOf_lineStart hus (.inl rfl)]
      rfl
  | cons c value =>
      have hc : isBlank c = false := hv.1.head rfl
      have hread : reading .lineStart (['@'] ++ (key ++ ([' ', '=', ' '] ++ (c :: value ++ '\n' :: rest)))) =
          (reading .lineStart rest).map ([Token.bare .variableMark ['@'], Token.bare .identifier key,
            Token.bare .assign [' ', '=', ' '], Token.bare .value (c :: value),
            Token.bare .endOfLine ['\n']] ++ ·) := by
        have heq := hassign (g := [' ']) (value ++ '\n' :: rest) (by decide) (isGap_of_solid hc)
        have hval : reading .variableValue (c :: value ++ '\n' :: rest) = _ :=
          reading_step (lexeme?_value (.inl rfl) hv (by simp) rest) rfl
        exact reading_cons (reading_step (hmark _) rfl) (reading_cons (hkey _)
          (reading_cons heq (reading_cons hval (reading_newline rfl rest))))
      exact outline_line hread fun us _ => rfl

/-- A space before something solid is a gap. -/
theorem lexeme?_gap {place : Context}
    (hplace : place.lexeme? = firstLexeme? [.endOfLine, .gap] ∨ place.lexeme? = firstLexeme? [.gap])
    {c : Char} (hc : isBlank c = false) (rest : Text) :
    place.lexeme? ([' '] ++ c :: rest) = some (.gap, [' ']) := by
  have hgap : Terminal.gap.lexeme? ([' '] ++ c :: rest) = some [' '] := by
    have htake : ([' '] ++ c :: rest).takeWhile isGap = [' '] :=
      takeWhile_append_stop (by decide) (isGap_of_solid hc)
    show gap? ([' '] ++ c :: rest) = some [' ']
    rw [gap?, htake]
  rcases hplace with hplace | hplace
  · have hend : Terminal.endOfLine.lexeme? ([' '] ++ c :: rest) = none :=
      endOfLine?_solid (by decide) hc rest
    rw [hplace, firstLexeme?_skip _ hend]
    exact firstLexeme?_here _ hgap _
  · rw [hplace]
    exact firstLexeme?_here _ hgap _

theorem render_metadata {key value : Text} (hk : identifier? key = some key) (hv : IsValue value) :
    (Metadata.mk key value).render =
      ['#', ' ', '@'] ++ (key ++ if value.isEmpty then [] else ' ' :: value) := by
  have hs : (Metadata.mk key value).render = stripRight (['#', ' ', '@'] ++ (key ++ ' ' :: value)) := by
    simp [Metadata.render]
  have hsolid := solid_of_identifier hk
  rw [hs]
  cases value with
  | nil =>
      -- without a value the blank behind the key is stripped, and nothing in front of it
      have hlast : ∀ c, (['#', ' ', '@'] ++ key).getLast? = some c → isBlank c = false := by
        intro c hc
        rw [List.getLast?_append] at hc
        cases hkl : key.getLast? with
        | none =>
            rw [hkl] at hc
            obtain rfl : '@' = c := by simpa using hc
            decide
        | some d =>
            rw [hkl] at hc
            obtain rfl : d = c := by simpa using hc
            exact hsolid d (List.mem_of_getLast? hkl)
      have hblank := stripRight_append_blank (['#', ' ', '@'] ++ key) (u := [' ']) (by decide)
      rw [List.append_assoc] at hblank
      rw [hblank, stripRight_of_last hlast]
      simp
  | cons c v =>
      have hc : isBlank c = false := hv.1.head rfl
      have hright := stripRight_append_cons (['#', ' ', '@'] ++ key ++ [' ']) hc v
      rw [← stripRight_cons _ hc, hv.1.stripRight] at hright
      simpa using hright

/-- A line of metadata. -/
theorem outline_metadata {m : Metadata} (hk : identifier? m.key = some m.key) (hv : IsValue m.value)
    (rest : Text) :
    outline .lineStart (m.render ++ '\n' :: rest) =
      (outline .lineStart rest).map
        (.item (.metadata (Token.bare .identifier m.key) (valueToken m.value)) :: ·) := by
  obtain ⟨key, value⟩ := m
  obtain ⟨k, key', hkey, hks, -⟩ := identifier?_spec (t := key) hk
  have hmark : ∀ t, Context.lineStart.lexeme? (['#', ' ', '@'] ++ (key ++ t)) =
      some (.metadataMark, ['#', ' ', '@']) := by
    intro t
    have hmeta : Terminal.metadataMark.lexeme? (['#', ' ', '@'] ++ (key ++ t)) = some ['#', ' ', '@'] := by
      rw [hkey]
      exact metadataMark?_append (g := [' ']) (.inl (rfl : ['#'] = ['#'])) (by decide) hks (key' ++ t)
    rw [lexeme?_lineStart, List.cons_append, firstLexeme?_skip .endOfLine (lexeme?_eq_none rfl _),
      firstLexeme?_skip .separatorMark rfl]
    exact firstLexeme?_here .metadataMark hmeta _
  rw [render_metadata hk hv, List.append_assoc, List.append_assoc]
  -- without a value there is no gap behind the key
  cases value with
  | nil =>
      have hread : reading .lineStart (['#', ' ', '@'] ++ (key ++ '\n' :: rest)) =
          (reading .lineStart rest).map ([Token.bare .metadataMark ['#', ' ', '@'],
            Token.bare .identifier key, Token.bare .endOfLine ['\n']] ++ ·) :=
        reading_cons (reading_step (hmark _) rfl)
          (reading_cons (reading_name rfl rfl hk (by decide) rest) (reading_newline rfl rest))
      refine outline_line hread fun us hus => ?_
      show Entry.item (.metadata (Token.bare .identifier key) (nextOf .value (shown us))) ::
        entries (shown us) = _
      rw [nextOf_lineStart hus (.inl rfl)]
      rfl
  | cons c value =>
      have hc : isBlank c = false := hv.1.head rfl
      have hread : reading .lineStart (['#', ' ', '@'] ++ (key ++ ([' '] ++ (c :: value ++ '\n' :: rest)))) =
          (reading .lineStart rest).map ([Token.bare .metadataMark ['#', ' ', '@'],
            Token.bare .identifier key, Token.bare .gap [' '], Token.bare .value (c :: value),
            Token.bare .endOfLine ['\n']] ++ ·) := by
        have hgap : reading .metadataGap ([' '] ++ c :: (value ++ '\n' :: rest)) = _ :=
          reading_step (lexeme?_gap (.inl rfl) hc _) rfl
        have hval : reading .metadataValue (c :: value ++ '\n' :: rest) = _ :=
          reading_step (lexeme?_value (.inr rfl) hv (by simp) rest) rfl
        exact reading_cons (reading_step (hmark _) rfl)
          (reading_cons (reading_name rfl rfl hk (by decide) _)
            (reading_cons hgap (reading_cons hval (reading_newline rfl rest))))
      exact outline_line hread fun us _ => rfl

/-- What is no metadata on its line is none with more lines below. -/
theorem metadataMark?_line {l : Text} (hn : '\n' ∉ l) (h : metadataMark? l = none) (rest : Text) :
    metadataMark? (l ++ '\n' :: rest) = none := by
  cases hs : metadataMark? (l ++ '\n' :: rest) with
  | none => rfl
  | some m =>
      obtain ⟨mark, g, c, more, hm, hg, hc, ht, -⟩ := metadataMark?_spec hs
      have hline : '\n' ∉ mark ++ g ++ ['@', c] := by
        rw [List.mem_append, List.mem_append]
        rintro ((hmem | hmem) | hmem)
        · rcases hm with rfl | rfl <;> exact absurd hmem (by decide)
        · exact absurd (hg _ hmem) (by decide)
        · rcases List.mem_cons.mp hmem with he | hmem
          · exact absurd he (by decide)
          · rw [← List.mem_singleton.mp hmem] at hc
            exact absurd hc (by decide)
      have hp : mark ++ g ++ ['@', c] <+: l := by
        have hfirst := prefix_firstLine hline (t := l ++ '\n' :: rest) ⟨more, by rw [ht]; simp⟩
        rwa [firstLine_append hn] at hfirst
      obtain ⟨v, hv⟩ := hp
      have hmeta := metadataMark?_append hm hg hc v
      rw [show mark ++ g ++ '@' :: c :: v = l by rw [← hv]; simp, h] at hmeta
      simp at hmeta

/-- A comment behind a number sign. -/
theorem outline_comment {c : Text} (h : IsComment c) (hmark : ['#'] <+: c) (rest : Text) :
    outline .lineStart (c ++ '\n' :: rest) =
      (outline .lineStart rest).map (.item (.comment (Token.bare .comment c)) :: ·) := by
  obtain ⟨⟨-, hn, -⟩, -, hno, hmeta⟩ := h
  obtain ⟨r, rfl⟩ := hmark
  -- what stands on later lines does not make the comment a separator
  have hno' : ¬['#', '#', '#'] <+: ['#'] ++ r ++ '\n' :: rest := by
    intro hp
    have hfirst := prefix_firstLine (by decide) hp
    rw [firstLine_append hn] at hfirst
    exact hno hfirst
  have hseparator : Terminal.separatorMark.lexeme? (['#'] ++ r ++ '\n' :: rest) = none := by
    show literal? _ _ = none
    rw [literal?, if_neg]
    rwa [List.isPrefixOf_iff_prefix]
  have hcomment : Terminal.comment.lexeme? (['#'] ++ r ++ '\n' :: rest) = some (['#'] ++ r) := by
    show comment? ('#' :: (r ++ '\n' :: rest)) = _
    have hmark : commentMark? ('#' :: (r ++ '\n' :: rest)) = some (['#'], r ++ '\n' :: rest) := rfl
    rw [comment?, hmark]
    simp only
    rw [if_neg, ← firstLine_append hn rest]
    · rfl
    · intro hp
      rw [Bool.and_eq_true, List.isPrefixOf_iff_prefix] at hp
      exact hno' (List.cons_prefix_cons.mpr ⟨rfl, hp.2⟩)
  have hlex : Context.lineStart.lexeme? (['#'] ++ r ++ '\n' :: rest) = some (.comment, ['#'] ++ r) := by
    rw [lexeme?_lineStart]
    show firstLexeme? (.endOfLine :: .separatorMark :: .metadataMark ::
      ([Terminal.method, .target] ++ Terminal.comment :: _)) _ = _
    rw [List.append_assoc, List.singleton_append] at hseparator hcomment ⊢
    have hnone : Terminal.metadataMark.lexeme? (['#'] ++ r ++ '\n' :: rest) = none :=
      metadataMark?_line hn hmeta rest
    rw [List.append_assoc, List.singleton_append] at hnone
    rw [firstLexeme?_skip .endOfLine (lexeme?_eq_none rfl _), firstLexeme?_skip _ hseparator,
      firstLexeme?_skip .metadataMark hnone, firstLexeme?_skipAll _ (by decide)]
    exact firstLexeme?_here .comment hcomment _
  rw [outline_opened hlex rfl rfl fun _ => rfl, outline_newline rfl]

end HttpFile.Syntax

namespace HttpFile

open Text Unicode Syntax

/-! ## Scripts -/

/-- The token that a script is written as, behind its mark. -/
def Script.token : Script → Token
  | .inline code => Token.bare .script (Script.inline code).render
  | .file path => Token.bare .path path

/-- A path that starts like inline code. -/
def Script.IsOpen : Script → Prop
  | .inline _ => False
  | .file path => ['{', '%'] <+: path

theorem Script.render_token {s : Script} (h : s.Extracted) : s.render = s.token.lexeme := by
  cases s with
  | inline code => rfl
  | file path => exact h.1.1

/-- Behind its mark, a script starts with something. -/
theorem Script.render_solid {s : Script} (h : s.Extracted) :
    ∃ c r, s.render = c :: r ∧ isBlank c = false := by
  cases s with
  | inline code => exact ⟨'{', _, render_inline h.1, by decide⟩
  | file path =>
      obtain ⟨⟨ht, -⟩, hne, -⟩ := h
      obtain ⟨c, r, rfl⟩ := List.exists_cons_of_ne_nil hne
      exact ⟨c, r, ht, ht.head rfl⟩

/-- A path is read as inline code exactly if it starts like it and is closed. -/
theorem script?_path {path rest : Text} (hpath : ¬['{', '%'] <+: path) : script? (path ++ '\n' :: rest) = none := by
  unfold script?
  split
  · next u heq =>
      exfalso
      refine hpath ?_
      match path with
      | [] => simp at heq
      | [c] => simp at heq
      | c :: d :: p =>
          injection heq with h1 heq
          injection heq with h2 _
          rw [h1, h2]
          exact ⟨p, rfl⟩
  · rfl

theorem script?_open {path rest : Text} (hopen : ['{', '%'] <+: path)
    (hline : occursIn closing (path.drop 2) = false) (hrest : occursIn closing rest = false) :
    script? (path ++ '\n' :: rest) = none := by
  obtain ⟨p, rfl⟩ := hopen
  have hno : occursIn closing (p ++ '\n' :: rest) = false :=
    occursIn_append_cons (by decide) hline hrest
  have hs : script? (['{', '%'] ++ p ++ '\n' :: rest) =
      (throughScriptEnd? (p ++ '\n' :: rest)).map fun code => '{' :: '%' :: code := rfl
  rw [hs, throughScriptEnd?_eq_none_iff.mpr hno]
  rfl

/-- A script is read back where one is looked for, unless it is a path that something below closes
    like inline code. -/
theorem Script.lexeme? {place : Context} (hplace : place.lexeme? = firstLexeme? [.script, .path])
    {s : Script} (h : s.Extracted) {rest : Text} (hopen : s.IsOpen → occursIn closing rest = false) :
    place.lexeme? (s.render ++ '\n' :: rest) = some (s.token.kind, s.render) := by
  rw [hplace]
  cases s with
  | inline code =>
      obtain ⟨ht, -, hno⟩ := h
      have hscript : Terminal.script.lexeme? ((Script.inline code).render ++ '\n' :: rest) =
          some (Script.inline code).render := script?_render ht hno _
      exact firstLexeme?_here .script hscript _
  | file path =>
      obtain ⟨⟨ht, hn, -⟩, hne, hclosed⟩ := h
      have hrender : (Script.file path).render = path := ht
      have hscript : Terminal.script.lexeme? (path ++ '\n' :: rest) = none := by
        by_cases ho : ['{', '%'] <+: path
        · exact script?_open ho (hclosed ho) (hopen ho)
        · exact script?_path ho
      have hpath : Terminal.path.lexeme? (path ++ '\n' :: rest) = some path := by
        have hv := value?_line ht hn hne (u := []) (by simp) rest
        rwa [List.append_nil] at hv
      rw [hrender, firstLexeme?_skip _ hscript]
      exact firstLexeme?_here _ hpath _

theorem Script.token_eq {s : Script} (h : s.Extracted) :
    Token.bare s.token.kind s.render = s.token := by
  cases s with
  | inline code => rfl
  | file path => exact congrArg (Token.bare .path) h.1.1

theorem Script.source_shown (s : Script) : s.token.kind.isLayout = false ∧
    ∀ us, Entry.opened? s.token us = none := by
  cases s <;> exact ⟨rfl, fun _ => rfl⟩

theorem Script.next_source (s : Script) :
    Context.preRequestSource.next s.token.kind = some .lineEnd ∧
      Context.handlerSource.next s.token.kind = some .responseEnd := by
  cases s <;> exact ⟨rfl, rfl⟩

/-- The entry of a script is opened by its mark and takes the script with it. -/
theorem entries_source {mark : Token} {s : Script} {e : Entry} (hm : mark.kind.isLayout = false)
    (he : ∀ us, Entry.opened? mark (s.token :: us) = some e) (l : Text) (us : List Token) :
    entries (shown ([mark, s.token, Token.bare .endOfLine l] ++ us)) = e :: entries (shown us) := by
  obtain ⟨hlay, hopen⟩ := s.source_shown
  show entries (shown (mark :: s.token :: Token.bare .endOfLine l :: us)) = _
  rw [shown_cons, if_neg (by simp [hm]), shown_cons, if_neg (by simp [hlay]), shown_cons,
    Token.bare_kind, if_pos (by rfl), entries, he, entries, hopen]
  rfl

/-- The mark of a script that runs before the request. -/
theorem lexeme?_preRequestMark {c : Char} (hc : isBlank c = false) (rest : Text) :
    Context.lineStart.lexeme? (['<', ' '] ++ c :: rest) = some (.preRequestMark, ['<', ' ']) := by
  have hpre : Terminal.preRequestMark.lexeme? ('<' :: ' ' :: c :: rest) = some ['<', ' '] := by
    have htake : ([' '] ++ c :: rest).takeWhile isGap = [' '] :=
      takeWhile_append_stop (by decide) (isGap_of_solid hc)
    show some ('<' :: ([' '] ++ c :: rest).takeWhile isGap) = _
    rw [htake]
  rw [lexeme?_lineStart]
  show firstLexeme? ([Terminal.endOfLine, .separatorMark, .metadataMark, .method, .target, .comment] ++
    Terminal.preRequestMark :: _) ('<' :: ' ' :: c :: rest) = _
  rw [firstLexeme?_skipAll _ (by decide)]
  exact firstLexeme?_here _ hpre _

/-- A script that runs before the request. -/
theorem outline_preRequest {s : Script} (h : s.Extracted) {rest : Text}
    (hopen : s.IsOpen → occursIn closing rest = false) :
    outline .lineStart (['<', ' '] ++ (s.render ++ '\n' :: rest)) =
      (outline .lineStart rest).map (.item (.preRequest s.token) :: ·) := by
  have hmark : Context.lineStart.lexeme? (['<', ' '] ++ (s.render ++ '\n' :: rest)) =
      some (.preRequestMark, ['<', ' ']) := by
    obtain ⟨c, r, hr, hc⟩ := Script.render_solid h
    rw [hr]
    exact lexeme?_preRequestMark hc (r ++ '\n' :: rest)
  have hsource : reading .preRequestSource (s.render ++ '\n' :: rest) =
      (reading .lineEnd ('\n' :: rest)).map (s.token :: ·) := by
    rw [reading_step (Script.lexeme? rfl h hopen) s.next_source.1, Script.token_eq h]
  have hread : reading .lineStart (['<', ' '] ++ (s.render ++ '\n' :: rest)) =
      (reading .lineStart rest).map ([Token.bare .preRequestMark ['<', ' '], s.token,
        Token.bare .endOfLine ['\n']] ++ ·) :=
    reading_cons (reading_step hmark rfl) (reading_cons hsource (reading_newline rfl rest))
  exact outline_line hread fun us _ => entries_source rfl (fun _ => rfl) ['\n'] us

end HttpFile
