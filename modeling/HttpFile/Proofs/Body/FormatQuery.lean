import HttpFile.Proofs.Body.FormatJson
import HttpFile.Proofs.Body.Markers
import HttpFile.Proofs.Body.Split
import HttpFile.Proofs.GraphQL.Printed

/-!
# `HttpFile.Proofs.Body.FormatQuery` — what formatting a query keeps

A query is printed definition by definition, with blank lines between them, its placeholders are put back, and its
variables are laid out below it. Names have no blanks, so the placeholders are put back in each definition by itself,
and the printed query is divided where a definition is, or in front of a later one that starts with a brace. Otherwise
query and variables are found again, and the second pass changes neither, as long as the printed query keeps the
markers apart as the query did and the variables have no halves of characters.

## Contents
- **Blanks.** `restore_blank`, `restore_intercalate`, `strip_restore`: the parts between blanks are restored apart.
- **Starts.** `head_restore`, `isObjectText_formatJson`.
- **Variables.** `withFormatted`.
- **Printed queries.** `printedPart`, `printedQuery`; `divided_printedQuery`.
- **One pass.** `formatGraphql_of_parts`, `exists_parts_of_formatGraphql`.
- **The second pass.** `GraphQL.Reprints`; `text_printedQuery`, `text_of_keeps`, `printedQuery_again`;
  `splitGraphql_printedQuery`, `formatGraphql_formatted`.
- **Main result.** `formatGraphql_again`.
-/

namespace HttpFile

open Text Json Template Body Syntax Unicode

/-! ## Blanks -/

/-- What does not hold a character is found on one side of it only. -/
theorem prefix_append_cons {pattern u v : Text} {c : Char} (hc : c ∉ pattern) :
    pattern <+: u ++ c :: v ↔ pattern <+: u := by
  refine ⟨fun hp => ?_, fun hp => hp.trans (List.prefix_append u _)⟩
  rcases List.prefix_or_prefix_of_prefix hp (List.prefix_append u (c :: v)) with h | ⟨w, rfl⟩
  · exact h
  · cases w with
    | nil => rw [List.append_nil]
    | cons d w =>
        obtain rfl : d = c := (List.cons_prefix_cons.mp ((List.prefix_append_right_inj u).mp hp)).1
        exact absurd (List.mem_append_right u List.mem_cons_self) hc

theorem isBlank_of_isNameChar {c : Char} (h : isNameChar c = true) : isBlank c = false := by
  have hclass : (isLetter c || isDigit c || ['_'].contains c) = true := by
    simpa [isNameChar, Char.isAlphanum, isLetter, isDigit] using h
  exact isBlank_of_isGraphic (isGraphic_of_class (by decide) hclass)

theorem replaceFrom_append_cons {pattern : Text} {c : Char} (hne : pattern ≠ []) (hc : c ∉ pattern)
    (token u v : Text) :
    replaceFrom pattern token 0 (u ++ c :: v) =
      replaceFrom pattern token 0 u ++ c :: replaceFrom pattern token 0 v := by
  induction hn : u.length using Nat.strongRecOn generalizing u with
  | ind n ih =>
      subst hn
      cases u with
      | nil =>
          refine replaceFrom_miss fun hp => ?_
          exact hne (List.prefix_nil.mp ((prefix_append_cons (u := []) hc).mp hp))
      | cons d u =>
          by_cases hp : pattern <+: d :: u
          · obtain ⟨rest, hrest⟩ := hp
            have hshort : rest.length < (d :: u).length := by
              rw [← hrest, List.length_append]
              have := List.length_pos_of_ne_nil hne
              omega
            rw [← hrest, List.append_assoc, replaceFrom_hit hne, replaceFrom_hit hne, ih _ hshort rest rfl,
              List.append_assoc]
          · have hmiss : ¬pattern <+: d :: (u ++ c :: v) := fun h => hp ((prefix_append_cons (u := d :: u) hc).mp h)
            rw [List.cons_append, replaceFrom_miss hmiss, replaceFrom_miss hp,
              ih u.length (Nat.lt_succ_self _) u rfl, List.cons_append]

section
variable (t : Text)

theorem restore_nil : (Guard.of t).restore [] = [] := by
  rw [restore_eq]
  induction labels t with
  | nil => rfl
  | cons a ls ih => rw [putBack_cons]; exact ih

/-- Placeholders are put back on both sides of a blank. -/
theorem restore_blank (u v : Text) {c : Char} (hc : isBlank c = true) :
    (Guard.of t).restore (u ++ c :: v) = (Guard.of t).restore u ++ c :: (Guard.of t).restore v := by
  rw [restore_eq, restore_eq, restore_eq]
  induction labels t generalizing u v with
  | nil => rfl
  | cons a ls ih =>
      obtain ⟨hchars, m, hm⟩ := naming_nameOf t a
      have hname : c ∉ nameOf t a := fun hin => by
        have hsolid := isBlank_of_isNameChar (hchars c hin)
        rw [hc] at hsolid
        cases hsolid
      have hquoted : c ∉ Body.quoted (nameOf t a) := by
        have hquote : c ≠ '"' := by
          rintro rfl
          exact absurd hc (by decide)
        simp [Body.quoted, hname, hquote]
      have hquotes : Body.quoted (nameOf t a) ≠ [] := List.cons_ne_nil _ _
      rw [putBack_cons, putBack_cons, putBack_cons, replaceFrom_append_cons hquotes hquoted,
        replaceFrom_append_cons (by simp [hm]) hname, ih]

theorem restore_intercalate (ts : List Text) :
    (Guard.of t).restore (['\n', '\n'].intercalate ts) =
      ['\n', '\n'].intercalate (ts.map (Guard.of t).restore) := by
  induction ts with
  | nil => exact restore_nil t
  | cons u ts ih =>
      cases ts with
      | nil => simp
      | cons v ts =>
          rw [List.map_cons, List.map_cons, List.intercalate_cons_cons, List.intercalate_cons_cons, ← List.map_cons,
            ← ih, List.append_assoc, List.append_assoc]
          have hline := restore_blank t [] (['\n', '\n'].intercalate (v :: ts)) (c := '\n') rfl
          have hboth := restore_blank t u ('\n' :: ['\n', '\n'].intercalate (v :: ts)) (c := '\n') rfl
          rw [List.nil_append, restore_nil] at hline
          rw [hline] at hboth
          exact hboth

theorem restore_append_blanks {u w : Text} (hw : ∀ c ∈ w, isBlank c = true) :
    (Guard.of t).restore (u ++ w) = (Guard.of t).restore u ++ w := by
  induction w generalizing u with
  | nil => simp
  | cons c w ih =>
      have hrest := ih (u := []) fun d hd => hw d (List.mem_cons_of_mem c hd)
      rw [List.nil_append, restore_nil] at hrest
      rw [restore_blank t u w (hw c List.mem_cons_self), hrest]
      rfl

theorem restore_blanks_append {u w : Text} (hw : ∀ c ∈ w, isBlank c = true) :
    (Guard.of t).restore (w ++ u) = w ++ (Guard.of t).restore u := by
  induction w with
  | nil => rfl
  | cons c w ih =>
      have hhead := restore_blank t [] (w ++ u) (hw c List.mem_cons_self)
      rw [restore_nil, ih fun d hd => hw d (List.mem_cons_of_mem c hd)] at hhead
      exact hhead

/-- What is restored and trimmed may be trimmed before. -/
theorem strip_restore (u : Text) : strip ((Guard.of t).restore (strip u)) = strip ((Guard.of t).restore u) := by
  obtain ⟨v, w, hu, hv, hw⟩ := strip_spec u
  have hrestored : (Guard.of t).restore u = v ++ (Guard.of t).restore (strip u) ++ w := by
    conv_lhs => rw [hu]
    rw [restore_append_blanks t hw, restore_blanks_append t hv]
  rw [hrestored, strip_append_blank _ hw]
  exact (congrArg stripRight (List.dropWhile_append_of_pos hv)).symm

end

/-! ## Starts -/

theorem head_replaceFrom {pattern token u : Text} {c : Char} (hne : pattern ≠ []) (htoken : token.head? = some '{')
    (hu : u.head? = some c ∨ u.head? = some '{') :
    (replaceFrom pattern token 0 u).head? = some c ∨ (replaceFrom pattern token 0 u).head? = some '{' := by
  by_cases hp : pattern <+: u
  · obtain ⟨rest, rfl⟩ := hp
    rw [replaceFrom_hit hne]
    cases token with
    | nil => cases htoken
    | cons d token => exact Or.inr htoken
  · cases u with
    | nil => exact hu
    | cons d u =>
        rw [replaceFrom_miss hp]
        exact hu

/-- A text that is restored starts as it did, or with a placeholder. -/
theorem head_restore {t u : Text} {c : Char} (h : u.head? = some c) :
    ((Guard.of t).restore u).head? = some c ∨ ((Guard.of t).restore u).head? = some '{' := by
  rw [restore_eq]
  have hstart : ∀ ls : List (Nat × Text), (∀ a ∈ ls, a ∈ labels t) → ∀ u : Text,
      (u.head? = some c ∨ u.head? = some '{') →
        (putBack t ls u).head? = some c ∨ (putBack t ls u).head? = some '{' := by
    intro ls
    induction ls with
    | nil => exact fun _ _ hu => hu
    | cons a ls ih =>
        intro hls u hu
        obtain ⟨-, m, hm⟩ := naming_nameOf t a
        have htoken : a.2.head? = some '{' := by
          obtain ⟨v, hv⟩ := (isToken_of_mem_labels (hls a List.mem_cons_self)).1.ends
          rw [hv]
          rfl
        rw [putBack_cons]
        refine ih (fun b hb => hls b (List.mem_cons_of_mem a hb)) _ ?_
        exact head_replaceFrom (by simp [hm]) htoken (head_replaceFrom (List.cons_ne_nil _ _) htoken hu)
  exact hstart (labels t) (fun _ ha => ha) u (Or.inl h)

theorem headed_of_head {t : Text} {c : Char} (h : t.head? = some c) (hc : isBlank c = false) : GraphQL.Headed t := by
  cases t with
  | nil => cases h
  | cons d t => exact ⟨d, t, rfl, Option.some.inj h ▸ hc⟩

theorem headed_restore {t u : Text} (h : GraphQL.Headed u) : GraphQL.Headed ((Guard.of t).restore u) := by
  obtain ⟨c, v, rfl, hc⟩ := h
  rcases head_restore (t := t) (u := c :: v) rfl with h | h
  · exact headed_of_head h hc
  · exact headed_of_head h (by decide)

theorem head_strip_of_head {t : Text} {c : Char} (h : t.head? = some c) (hc : isBlank c = false) :
    (strip t).head? = some c := by
  cases t with
  | nil => cases h
  | cons d t =>
      obtain rfl : d = c := Option.some.inj h
      rw [strip_cons t hc]
      rfl

/-- A quoted name is restored to its placeholder. -/
theorem restore_quoted {t : Text} {a : Nat × Text} (ha : a ∈ labels t) :
    (Guard.of t).restore (Body.quoted (nameOf t a)) = a.2 := by
  have hfree : ∀ b ∈ labels t, ¬letters (nameOf t b) <:+: ([.inr a] : Word (Nat × Text)) := by
    intro b _ hin
    obtain ⟨-, m, hm⟩ := naming_nameOf t b
    have hmem : Sum.inl '_' ∈ ([.inr a] : Word (Nat × Text)) := hin.subset (by rw [hm]; exact List.mem_cons_self)
    simp at hmem
  have hholes : ∀ b, Sum.inr b ∈ ([.inr a] : Word (Nat × Text)) → b ∈ labels t := by
    intro b hb
    obtain rfl : b = a := by simpa using hb
    exact ha
  have hword := putBack_word hfree hholes (List.Perm.refl _)
  rw [← restore_eq] at hword
  simpa using hword

/-- Where a placeholder stands first, only its quoted name is read. -/
theorem eq_name_of_parse {token r : Text} (htoken : IsToken token) {x : Value}
    (h : Json.parse (Guard.of (token ++ r)).text = .ok x) :
    x = .str (nameOf (token ++ r) ((labels r).length, token)) := by
  have hname := naming_nameOf (token ++ r) ((labels r).length, token)
  rw [guard_of] at h
  obtain ⟨d, ⟨u, hread, -⟩, rfl⟩ := parse_iff.mp h
  rw [guarded_token _ htoken, skipBlanks_stop (by decide)] at hread
  generalize hrest : guarded (nameOf (token ++ r)) r = rest at hread
  generalize hquotes : nameOf (token ++ r) ((labels r).length, token) ++ '"' :: rest = inside at hread
  cases hread with
  | hole h => cases h
  | text after hs =>
      obtain ⟨-, rfl, -⟩ := (spells_name hname.1).unique hs hquotes
      exact ofWide_letters _
  | scalar hscalar => exact absurd (scalar?_cons hscalar) (by decide)

theorem reading_object (φ : StandIn) (u : Wide) :
    (reading φ (.inl '{' :: (u ++ [.inl '}']))).head? = some '{' := rfl

/-- **What starts with a brace is formatted as the text of an object**, or as a placeholder. -/
theorem isObjectText_formatJson {w : Text} {v : Wide} (hw : w.head? = some '{') (h : formatJson w = .ok v)
    (φ : StandIn) : IsObjectText (reading φ v) := by
  unfold formatJson at h
  dsimp only at h
  split at h
  · cases h
  next x hx =>
    obtain rfl := Except.ok.inj h
    rw [stripWide, reading_trimWhere, reading_restoreWide]
    refine ⟨trimmed_strip _, head_strip_of_head ?_ (by decide)⟩
    cases hplaceholder : placeholder? w with
    | some token =>
        obtain ⟨htoken, r, rfl⟩ := placeholder?_iff.mp hplaceholder
        have ha : ((labels r).length, token) ∈ labels (token ++ r) := by
          rw [labels_token htoken]
          exact List.mem_cons_self
        have hname := naming_nameOf (token ++ r) ((labels r).length, token)
        obtain rfl := eq_name_of_parse htoken hx
        have hprinted : (Json.write? .indented (.str (nameOf (token ++ r) ((labels r).length, token)))).getD [] =
            letters (Body.quoted (nameOf (token ++ r) ((labels r).length, token))) := writeString_name hname.1
        obtain ⟨u, hu⟩ := htoken.ends
        rw [hprinted, reading_letters, restore_quoted ha, hu]
        rfl
    | none =>
        -- the brace is kept by the guard, so an object is read and printed
        obtain ⟨u, hu⟩ : ∃ u, (Guard.of w).text = '{' :: u := by
          cases w with
          | nil => cases hw
          | cons c w =>
              obtain rfl : c = '{' := Option.some.inj hw
              rw [guard_of]
              exact ⟨_, guarded_char _ hplaceholder (quotedRun?_ne (by decide) w)⟩
        obtain ⟨vars, rfl⟩ := exists_dict_of_parse hx (by rw [hu]; rfl)
        obtain ⟨printed, hprinted, -⟩ := exists_write_of_parse hx .indented
        rw [hprinted]
        exact (head_restore (reading_object φ printed)).elim id id

/-! ## Variables -/

/-- A query with its formatted variables below it, if it has any. -/
def withFormatted (query : Text) : Option Wide → Wide
  | none => letters query
  | some vars => letters (query ++ ['\n', '\n']) ++ vars

theorem withFormatted_letters (query : Text) (vars : Option Text) :
    withFormatted query (vars.map letters) = letters (withVariables query vars) := by
  cases vars with
  | none => rfl
  | some v =>
      show letters (query ++ ['\n', '\n']) ++ letters v = letters (query ++ '\n' :: '\n' :: v)
      rw [← letters_append, List.append_assoc]
      rfl

/-- The variables have no halves if the whole has none. -/
theorem exists_letters_of_withFormatted {query o : Text} {vars : Option Wide}
    (h : withFormatted query vars = letters o) :
    ∃ vs : Option Text, vars = vs.map letters ∧ o = withVariables query vs := by
  cases vars with
  | none => exact ⟨none, rfl, letters_injective h.symm⟩
  | some w =>
      obtain ⟨v, rfl⟩ : ∃ v, w = letters v := exists_letters_iff.mpr fun x hx => by
        have hin : Sum.inr x ∈ letters o := h ▸ List.mem_append_right _ hx
        exact inr_notMem_letters x o hin
      refine ⟨some v, rfl, letters_injective (α := Half) ?_⟩
      rw [← h, ← withFormatted_letters]
      rfl

theorem reading_withFormatted (φ : StandIn) (query : Text) (vars : Option Wide) :
    reading φ (withFormatted query vars) = withVariables query (vars.map (reading φ)) := by
  cases vars with
  | none => exact reading_letters φ query
  | some w =>
      show reading φ (letters (query ++ ['\n', '\n']) ++ w) = query ++ '\n' :: '\n' :: reading φ w
      rw [reading_append, reading_letters, List.append_assoc]
      rfl

/-! ## Printed queries -/

/-- A definition of a query as it is printed, its placeholders kept. -/
def printedPart (query : Text) (d : GraphQL.Definition) : Text := (Guard.of query).restore d.print

/-- The definitions of a query as they are printed, its placeholders kept. -/
def printedQuery (query : Text) (ds : List GraphQL.Definition) : Text :=
  strip ((Guard.of query).restore (GraphQL.print ds))

theorem trimmed_printedQuery (query : Text) (ds : List GraphQL.Definition) : Trimmed (printedQuery query ds) :=
  trimmed_strip _

section
variable (query : Text) {t : Text} {ds : List GraphQL.Definition} (h : GraphQL.parse t = .ok ds)
include h

/-- What is printed for a query are its definitions with blank lines between them, but for those that are nothing. -/
theorem restore_print : ∃ d more, ds = d :: more ∧ GraphQL.Headed (printedPart query d) ∧
    (Guard.of query).restore (GraphQL.print ds) = ['\n', '\n'].intercalate (printedPart query d ::
      ((more.map GraphQL.Definition.print).filter (· ≠ [])).map (Guard.of query).restore) := by
  obtain ⟨d, more, rfl, hne⟩ := GraphQL.parse_cons h
  refine ⟨d, more, rfl, headed_restore (GraphQL.headed_print hne), ?_⟩
  have hprint : GraphQL.print (d :: more) =
      ['\n', '\n'].intercalate (d.print :: (more.map GraphQL.Definition.print).filter (· ≠ [])) := by
    unfold GraphQL.print GraphQL.joined
    rw [List.map_cons, List.filter_cons_of_pos (by simpa using hne)]
    rfl
  rw [hprint, restore_intercalate, List.map_cons]
  rfl

theorem headed_printed : GraphQL.Headed ((Guard.of query).restore (GraphQL.print ds)) := by
  obtain ⟨d, more, rfl, hhead, hrestored⟩ := restore_print query h
  rw [hrestored]
  cases ((more.map GraphQL.Definition.print).filter (· ≠ [])).map (Guard.of query).restore with
  | nil => rwa [List.intercalate_singleton]
  | cons u us =>
      rw [List.intercalate_cons_cons, List.append_assoc]
      exact hhead.append _

theorem printedQuery_ne_nil : printedQuery query ds ≠ [] := by
  obtain ⟨c, u, hstart, hc⟩ := headed_printed query h
  rw [printedQuery, hstart, strip_cons u hc]
  exact List.cons_ne_nil _ _

/-- **A printed query is divided** where a definition is, or in front of a later one that starts with a brace. -/
theorem divided_printedQuery : Divided (printedQuery query ds) ↔
    (∃ d ∈ ds, Divided (printedPart query d)) ∨ ∃ d ∈ ds.tail, OpensBrace (printedPart query d) := by
  have hstrip : Divided (printedQuery query ds) ↔ Divided ((Guard.of query).restore (GraphQL.print ds)) := by
    obtain ⟨c, u, hstart, hc⟩ := headed_printed query h
    obtain ⟨w, hw, hblank, -⟩ := stripRight_spec (c :: u)
    rw [printedQuery, hstart, strip_cons u hc, ← stripRight_cons u hc]
    conv_rhs => rw [hw]
    exact (divided_append_blank hblank).symm
  obtain ⟨d, more, rfl, hhead, hrestored⟩ := restore_print query h
  -- what is printed as nothing neither is divided nor starts with a brace
  have hparts : ∀ P : Text → Prop, ¬P [] →
      ((∃ u ∈ ((more.map GraphQL.Definition.print).filter (· ≠ [])).map (Guard.of query).restore, P u) ↔
        ∃ e ∈ more, P (printedPart query e)) := by
    intro P hP
    constructor
    · rintro ⟨u, hu, hp⟩
      obtain ⟨v, hv, rfl⟩ := List.mem_map.mp hu
      obtain ⟨e, he, rfl⟩ := List.mem_map.mp (List.mem_filter.mp hv).1
      exact ⟨e, he, hp⟩
    · rintro ⟨e, he, hp⟩
      have hne : e.print ≠ [] := by
        intro hnil
        rw [printedPart, hnil, restore_nil] at hp
        exact hP hp
      refine ⟨_, List.mem_map_of_mem (List.mem_filter.mpr ⟨List.mem_map_of_mem he, by simpa using hne⟩), hp⟩
  have hsolid : ∀ u ∈ ((more.map GraphQL.Definition.print).filter (· ≠ [])).map (Guard.of query).restore,
      ∃ c ∈ u, isBlank c = false := by
    intro u hu
    obtain ⟨v, hv, rfl⟩ := List.mem_map.mp hu
    obtain ⟨hv, hne⟩ := List.mem_filter.mp hv
    obtain ⟨e, he, rfl⟩ := List.mem_map.mp hv
    obtain ⟨c, x, hstart, hc⟩ := headed_restore (t := query) (GraphQL.headed_print (by simpa using hne))
    exact ⟨c, by rw [hstart]; exact List.mem_cons_self, hc⟩
  have hdivided := hparts Divided (by decide)
  have hopens := hparts OpensBrace (by decide)
  rw [hstrip, hrestored, divided_intercalate hsolid, List.tail_cons, hopens]
  simp only [List.mem_cons, exists_eq_or_imp, hdivided]

end

/-! ## One pass -/

section
variable {t query : Text} {w : Option Text} {vars : Option Wide} {ds : List GraphQL.Definition}
  (hsplit : splitGraphql t = (query, w))
include hsplit

theorem splitGraphql_variables {v : Text} (hv : w = some v) : v.head? = some '{' := by
  have hvariables : ((splitAtVariables t).2).map strip = some v := hv ▸ congrArg Prod.snd hsplit
  obtain ⟨x, hx, rfl⟩ := Option.map_eq_some_iff.mp hvariables
  obtain ⟨-, u, hu⟩ := splitAtVariables_some (u := (splitAtVariables t).1) (Prod.ext rfl hx)
  show (stripRight (stripLeft x)).head? = _
  rw [← hu, List.cons_append, stripRight_cons _ (by decide)]
  rfl

theorem isObjectText_variables (hvars : w.map formatJson = vars.map Except.ok) (φ : StandIn) :
    ∀ v, vars.map (Text.reading φ) = some v → IsObjectText v := by
  intro v hv
  obtain ⟨y, rfl, rfl⟩ := Option.map_eq_some_iff.mp hv
  obtain ⟨x, hx, hy⟩ := Option.map_eq_some_iff.mp hvars
  exact isObjectText_formatJson (splitGraphql_variables hsplit hx) hy φ

/-- A body is the printed query with the formatted variables below it, if there are any. -/
theorem formatGraphql_of_parts (hparse : GraphQL.parse (Guard.of query).text = .ok ds)
    (hvars : w.map formatJson = vars.map Except.ok) :
    formatGraphql t = .ok (withFormatted (printedQuery query ds) vars) := by
  have hquery : strip (printedQuery query ds) = printedQuery query ds := trimmed_strip _
  have htrimmed : stripWide (withFormatted (printedQuery query ds) vars) = withFormatted (printedQuery query ds) vars := by
    refine eq_of_readings fun φ => ?_
    rw [stripWide, reading_trimWhere, reading_withFormatted]
    exact trimmed_withVariables hquery (printedQuery_ne_nil query hparse) (isObjectText_variables hsplit hvars φ)
  unfold formatGraphql
  rw [hsplit]
  dsimp only
  rw [hparse]
  cases w with
  | none =>
      cases vars with
      | none => exact congrArg (fun q => Except.ok (letters q)) hquery
      | some v => cases hvars
  | some x =>
      cases vars with
      | none => cases hvars
      | some v =>
          have hjson : formatJson x = .ok v := Option.some.inj hvars
          have hbrace := splitGraphql_variables hsplit rfl
          cases x with
          | nil => cases hbrace
          | cons c x =>
              dsimp only
              rw [hjson]
              exact congrArg Except.ok htrimmed

theorem exists_parts_of_formatGraphql {out : Wide} (h : formatGraphql t = .ok out) :
    ∃ ds, ∃ vars : Option Wide, GraphQL.parse (Guard.of query).text = .ok ds ∧
      w.map formatJson = vars.map Except.ok ∧ out = withFormatted (printedQuery query ds) vars := by
  have hparts : ∃ ds, ∃ vars : Option Wide, GraphQL.parse (Guard.of query).text = .ok ds ∧
      w.map formatJson = vars.map Except.ok := by
    unfold formatGraphql at h
    rw [hsplit] at h
    dsimp only at h
    split at h
    · cases h
    next ds hparse =>
      cases w with
      | none => exact ⟨ds, none, hparse, rfl⟩
      | some x =>
          have hbrace := splitGraphql_variables hsplit rfl
          cases x with
          | nil => cases hbrace
          | cons c x =>
              dsimp only at h
              split at h
              · cases h
              next v hv => exact ⟨ds, some v, hparse, congrArg some hv⟩
  obtain ⟨ds, vars, hparse, hvars⟩ := hparts
  exact ⟨ds, vars, hparse, hvars, Except.ok.inj (h.symm.trans (formatGraphql_of_parts hsplit hparse hvars))⟩

end

/-! ## The second pass -/

/-- What is printed for a query, trimmed, reads as a query for which the same is printed. -/
def GraphQL.Reprints (ds : List GraphQL.Definition) : Prop :=
  ∃ ds', GraphQL.parse (strip (GraphQL.print ds)) = .ok ds' ∧ GraphQL.print ds' = GraphQL.print ds

/-- Without placeholders outside quotes nothing is exchanged. -/
theorem text_of_unquoted {t : Text} (h : unquoted t = []) : (Guard.of t).text = t := by
  have hlabels : labels t = [] := List.map_eq_nil_iff.mp h
  have hrestored := restore_text t
  rw [restore_eq, hlabels] at hrestored
  exact hrestored

theorem text_printedQuery {query : Text} {ds : List GraphQL.Definition} (h : unquoted query = [])
    (hagain : unquoted (printedQuery query ds) = []) :
    (Guard.of (printedQuery query ds)).text = strip (GraphQL.print ds) := by
  have hlabels : labels query = [] := List.map_eq_nil_iff.mp h
  rw [text_of_unquoted hagain, printedQuery, restore_eq, hlabels]
  rfl

/-- A printed query is printed again as it is, if its placeholders are kept apart by markers as before. -/
theorem printedQuery_again {q : Text} {ds ds' : List GraphQL.Definition} (hq : Trimmed q)
    (htext : (Guard.of q).text = strip (GraphQL.print ds)) (hsame : GraphQL.print ds' = GraphQL.print ds) :
    printedQuery q ds' = q := by
  rw [printedQuery, hsame, ← strip_restore, ← htext, restore_text]
  exact hq

section
variable {t query o : Text} {w vs : Option Text} {ds ds' : List GraphQL.Definition}
  (hformatted : w.map formatJson = (vs.map letters).map Except.ok)
include hformatted

/-- A query and its variables are found again exactly if no definition is divided, and none but the first opens with
a brace. -/
theorem splitGraphql_printedQuery (hsplit : splitGraphql t = (query, w))
    (hparse : GraphQL.parse (Guard.of query).text = .ok ds) :
    splitGraphql (withVariables (printedQuery query ds) vs) = (printedQuery query ds, vs) ↔
      (∀ d ∈ ds, ¬Divided (printedPart query d)) ∧ ∀ d ∈ ds.tail, ¬OpensBrace (printedPart query d) := by
  have hobjects : ∀ v, vs = some v → IsObjectText v := by
    rintro v rfl
    obtain ⟨φ, -, -⟩ := exists_standIns
    exact isObjectText_variables hsplit hformatted φ v (congrArg some (reading_letters φ v))
  rw [splitGraphql_withVariables (trimmed_printedQuery query ds) hobjects, divided_printedQuery query hparse, not_or]
  simp only [not_exists, not_and]

/-- What is found again is formatted again as it is, if the markers fit, the query reprints and its variables say a
template. -/
theorem formatGraphql_formatted
    (hagain : splitGraphql (withVariables (printedQuery query ds) vs) = (printedQuery query ds, vs))
    (hdenotes : ∀ x, w = some x → ∃ d, Denotes atoms x d ∧ Unmarked x d.settled)
    (htext : (Guard.of (printedQuery query ds)).text = strip (GraphQL.print ds')) (hprints : GraphQL.Reprints ds') :
    formatGraphql (withVariables (printedQuery query ds) vs) =
      .ok (letters (withVariables (printedQuery query ds) vs)) := by
  -- the query reads as definitions that print the same, and the variables are formatted already
  obtain ⟨ds'', hparse', hsame⟩ := hprints
  rw [← htext] at hparse'
  have hvars : vs.map formatJson = (vs.map letters).map Except.ok := by
    cases vs with
    | none => rfl
    | some v =>
        obtain ⟨x, hx, hv⟩ := Option.map_eq_some_iff.mp hformatted
        obtain ⟨d, hd, hfresh⟩ := hdenotes x hx
        exact congrArg some (formatJson_formatted hv hd hfresh)
  have hsecond := formatGraphql_of_parts hagain hparse' hvars
  rwa [printedQuery_again (trimmed_printedQuery query ds) htext hsame, withFormatted_letters] at hsecond

end

/-- The markers fit a printed query that keeps them and has the same stem free. -/
theorem text_of_keeps {query : Text} {ds : List GraphQL.Definition}
    (hkeeps : KeepsMarkers query (strip (GraphQL.print ds)))
    (hstem : freeStem (printedQuery query ds) = freeStem query) :
    (Guard.of (printedQuery query ds)).text = strip (GraphQL.print ds) := by
  refine text_of_keepsMarkers hkeeps (trimmed_strip _) ?_ hstem
  rw [strip_restore]
  rfl

/-! ## Main result -/

/-- **A formatted query is found again exactly if its printed definitions are not divided**, and none but the first
starts with a brace. Then the second pass changes nothing, if the markers fit the printed query and it prints the same
when it is read again. They fit if there are none, or if the printed query keeps them and has the same stem free. -/
theorem formatGraphql_again {t : Text} {out : Wide} (h : formatGraphql t = .ok out) :
    ∃ ds q, ∃ vars : Option Wide, GraphQL.parse (Guard.of (splitGraphql t).1).text = .ok ds ∧
      q = printedQuery (splitGraphql t).1 ds ∧
      (splitGraphql t).2.map formatJson = vars.map Except.ok ∧
      out = withFormatted q vars ∧
      (unquoted (splitGraphql t).1 = [] → unquoted q = [] → (Guard.of q).text = strip (GraphQL.print ds)) ∧
      (KeepsMarkers (splitGraphql t).1 (strip (GraphQL.print ds)) → freeStem q = freeStem (splitGraphql t).1 →
        (Guard.of q).text = strip (GraphQL.print ds)) ∧
      ∀ o, out = letters o → ∃ vs : Option Text, vars = vs.map letters ∧
        (splitGraphql o = (q, vs) ↔
          (∀ d ∈ ds, ¬Divided (printedPart (splitGraphql t).1 d)) ∧
            ∀ d ∈ ds.tail, ¬OpensBrace (printedPart (splitGraphql t).1 d)) ∧
        (splitGraphql o = (q, vs) →
          (∀ w, (splitGraphql t).2 = some w → ∃ d, Denotes atoms w d ∧ Unmarked w d.settled) →
          ∀ ds', (Guard.of q).text = strip (GraphQL.print ds') → GraphQL.Reprints ds' →
            formatGraphql o = .ok (letters o)) := by
  rcases hsplit : splitGraphql t with ⟨query, w⟩
  obtain ⟨ds, vars, hparse, hvars, rfl⟩ := exists_parts_of_formatGraphql hsplit h
  refine ⟨ds, _, vars, hparse, rfl, hvars, rfl, text_printedQuery, text_of_keeps, fun o ho => ?_⟩
  obtain ⟨vs, rfl, rfl⟩ := exists_letters_of_withFormatted ho
  refine ⟨vs, rfl, splitGraphql_printedQuery hvars hsplit hparse, fun hagain hdenotes ds' htext hprints => ?_⟩
  exact formatGraphql_formatted hvars hagain hdenotes htext hprints

/-- A query in one line, with a placeholder in it. -/
def heldQuery : Text := "\x7ba(b:\x7b\x7bx\x7d\x7d)\x7dfragment F on T\x7bc\x7d"

/-- Its variables, with another placeholder. -/
def heldVariables : Text := "\x7b\"id\": \x7b\x7by\x7d\x7d\x7d"

theorem denotes_heldVariables :
    Denotes atoms heldVariables (.dict [(.text (letters "id"), .hole "\x7b\x7by\x7d\x7d")]) := by
  have hid : Spells "id" (letters "id") := spells_plain (by decide)
  exact ⟨[], .dict (.lastEntry (.text _ hid) rfl (.hole rfl) rfl), rfl⟩

/-- The two definitions of the query as they are printed, with something for the placeholder. -/
def heldParts (held : Text) : List Text :=
  ["\x7b\n  a(b: " ++ held ++ ")\n\x7d", "fragment F on T \x7b\n  c\n\x7d"]

/-- The query as it is printed, with something for the placeholder. -/
def heldLines (held : Text) : Text := ['\n', '\n'].intercalate (heldParts held)

/-- The query as it is printed, with a hole for the placeholder. -/
def heldWord : Word (Nat × Text) :=
  letters "\x7b\n  a(b: " ++ .inr (0, "\x7b\x7bx\x7d\x7d".toList) ::
    (letters ")\n\x7d\n\nfragment F on T \x7b\n  c\n\x7d" ++ [])

theorem keepsMarkers_heldLines : KeepsMarkers heldQuery (heldLines "\"__HTTPFMT0_0__\"") := by
  have hlabels : labels heldQuery = [(0, "\x7b\x7bx\x7d\x7d".toList)] := by decide +kernel
  have hname : nameOf heldQuery (0, "\x7b\x7bx\x7d\x7d") = "__HTTPFMT0_0__" := by decide +kernel
  refine ⟨heldWord, ?_, ?_, ?_, ?_⟩
  · refine .of_letters (by decide) (by decide) (by decide) (.hole _ ?_)
    exact .of_letters (by decide) (by decide) (by decide) .nil
  · rw [hlabels]
    decide +kernel
  · rw [hlabels]
    refine List.forall_mem_singleton.mpr ?_
    rw [hname]
    decide +kernel
  · rw [heldWord, spell_append, spell_hole, hname]
    decide +kernel

/-- The variables as they are printed. -/
def variablesLines : Text := "\x7b\n  \"id\": \x7b\x7by\x7d\x7d\n\x7d"

/-- The query with its variables as they are printed. -/
def heldOutcome : Text := withVariables (heldLines "\x7b\x7bx\x7d\x7d") (some variablesLines)

/-- A query with placeholders and variables is formatted once and for all. -/
theorem formatGraphql_again_example :
    formatGraphql (withVariables heldQuery (some heldVariables)) = .ok (letters heldOutcome) ∧
      splitGraphql heldOutcome = (heldLines "\x7b\x7bx\x7d\x7d", some variablesLines) ∧
      formatGraphql heldOutcome = .ok (letters heldOutcome) := by
  have hsplit : splitGraphql (withVariables heldQuery (some heldVariables)) = (heldQuery, some heldVariables) := by
    decide +kernel
  have hjson : formatJson heldVariables = .ok (letters variablesLines) :=
    formatJson_of_denotes denotes_heldVariables (unmarked_of_denotes denotes_heldVariables (by decide))
  have hprinted : (GraphQL.parse (Guard.of heldQuery).text).map (fun ds =>
      (ds.map (printedPart heldQuery), printedQuery heldQuery ds, GraphQL.print ds)) =
        .ok (heldParts "\x7b\x7bx\x7d\x7d", heldLines "\x7b\x7bx\x7d\x7d", heldLines "\"__HTTPFMT0_0__\"") := by
    decide +kernel
  have hreprinted : (GraphQL.parse (strip (heldLines "\"__HTTPFMT0_0__\""))).map GraphQL.print =
      .ok (heldLines "\"__HTTPFMT0_0__\"") := by decide +kernel
  have hpass : formatGraphql (withVariables heldQuery (some heldVariables)) = .ok (letters heldOutcome) := by
    obtain ⟨ds, hparse, hall⟩ := map_eq_ok hprinted
    have hformatted : (some heldVariables).map formatJson = ((some variablesLines).map letters).map Except.ok :=
      congrArg some hjson
    have hparts := formatGraphql_of_parts hsplit hparse hformatted
    rwa [(Prod.mk.inj (Prod.mk.inj hall).2).1, withFormatted_letters] at hparts
  obtain ⟨ds, q, vars, hparse, hq, hvars, -, -, hmarkers, hsecond⟩ := formatGraphql_again hpass
  obtain ⟨vs, rfl, hfound, hagain⟩ := hsecond _ rfl
  rw [hsplit] at hparse hq hvars hmarkers hfound hagain
  dsimp only at hparse hq hvars hmarkers hfound hagain
  rw [hparse] at hprinted
  obtain ⟨hparts, hprinted⟩ := Prod.mk.inj (Except.ok.inj hprinted)
  obtain ⟨hquery, hprint⟩ := Prod.mk.inj hprinted
  rw [hquery] at hq
  have hvariables : vs = some variablesLines := by
    rw [Option.map_some, hjson] at hvars
    cases vs with
    | none => cases hvars
    | some v => exact congrArg some (letters_injective (Except.ok.inj (Option.some.inj hvars))).symm
  have hstripped : strip (heldLines "\"__HTTPFMT0_0__\"") = heldLines "\"__HTTPFMT0_0__\"" := by decide +kernel
  rw [hq, hvariables] at hfound hagain
  rw [hq, hprint, hstripped] at hmarkers
  have hwhole : ∀ u ∈ ds.map (printedPart heldQuery), ¬Divided u := by
    rw [hparts]
    decide +kernel
  have hbrace : ∀ u ∈ (ds.map (printedPart heldQuery)).tail, ¬OpensBrace u := by
    rw [hparts]
    decide +kernel
  have hagainSplit := hfound.mpr ⟨fun d hd => hwhole _ (List.mem_map_of_mem hd), fun d hd => hbrace _ ?_⟩
  · refine ⟨hpass, hagainSplit, hagain hagainSplit (fun w hw => ?_) ds ?_ ?_⟩
    · rw [← Option.some.inj hw]
      exact ⟨_, denotes_heldVariables, unmarked_of_denotes denotes_heldVariables (by decide)⟩
    · rw [hprint, hstripped]
      exact hmarkers keepsMarkers_heldLines (by decide +kernel)
    · obtain ⟨ds', hparse', hsame⟩ := map_eq_ok hreprinted
      rw [← hprint] at hparse' hsame
      exact ⟨ds', hparse', hsame⟩
  · rw [← List.map_tail]
    exact List.mem_map_of_mem hd

/-- A fragment, and an operation without a word behind it. -/
def braceQuery : Text := "fragment F on T \x7b x \x7d \x7b ...F \x7d"

/-- An operation without a word is taken for the variables when the query comes again, though it is printed the same. -/
theorem formatGraphql_again_fails :
    ∃ o, (splitGraphql braceQuery).2 = none ∧ formatGraphql braceQuery = .ok (letters o) ∧
      (GraphQL.parse o).map GraphQL.print = .ok o ∧ (splitGraphql o).2 ≠ none ∧ formatGraphql o ≠ .ok (letters o) := by
  have hpass : formatGraphql braceQuery =
      .ok (letters "fragment F on T \x7b\n  x\n\x7d\n\n\x7b\n  ...F\n\x7d") := by decide +kernel
  exact ⟨_, by decide +kernel, hpass, by decide +kernel, by decide +kernel, by decide +kernel⟩

end HttpFile
