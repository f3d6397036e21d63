import HttpFile.Proofs.Document.Lines

/-!
# `HttpFile.Proofs.Document.RequestLines` — the written lines of a request, read one by one

The line of a request, its headers, its body and what is done with its response are read back as the
entries they stand for. A body takes the empty line behind it along, so what follows it is read from
the next line on.

## Contents
- **The request.** `outline_requestLine`, `outline_header`.
- **The body.** `lexeme?_body`, `outline_body`.
- **Below it.** `BelowRequest`, `outline_handler`, `outline_redirect`, `outline_section`.
-/

namespace HttpFile

open Text Unicode Syntax

/-! ## The request -/

theorem method_solid {m : Text} (hm : m ∈ methods.map String.toList) :
    ∃ c r, m = c :: r ∧ ∀ k ∈ [Terminal.endOfLine, .separatorMark, .metadataMark], k.mayOpen c = false := by
  have hall : ∀ m ∈ methods.map String.toList, m ≠ [] ∧
      ∀ k ∈ [Terminal.endOfLine, .separatorMark, .metadataMark], (m.head?.any k.mayOpen) = false := by
    decide
  obtain ⟨hne, hk⟩ := hall m hm
  obtain ⟨c, r, rfl⟩ := List.exists_cons_of_ne_nil hne
  exact ⟨c, r, rfl, hk⟩

theorem target_solid {u : Text} (hu : target? u = some u) : ∃ c r, u = c :: r ∧ isBlank c = false := by
  obtain ⟨c, r, rfl, hc, -⟩ := target?_spec hu
  exact ⟨c, r, rfl, hc⟩

theorem version_solid {v : Text} (hv : version? v = some v) : ∃ r, v = 'H' :: r := by
  obtain ⟨major, -, ⟨minor, rest, -, ht, -⟩ | ⟨rest, ht, -⟩⟩ := version?_spec hv
  · exact ⟨_, ht⟩
  · exact ⟨_, ht⟩

/-- The line of a request, with its target possibly folded. -/
theorem outline_requestLine {m u v : Text} (hm : m ∈ methods.map String.toList)
    (hu : target? u = some u) (hv : version? v = some v) (rest : Text) :
    outline .lineStart (m ++ ' ' :: (u ++ ' ' :: (v ++ '\n' :: rest))) =
      (outline .headers rest).map ([.method (Token.bare .method m), .target (Token.bare .target u),
        .version (Token.bare .version v)] ++ ·) := by
  have hmethod : Context.lineStart.lexeme? (m ++ ' ' :: (u ++ ' ' :: (v ++ '\n' :: rest))) =
      some (.method, m) := by
    obtain ⟨c, r, rfl, hk⟩ := method_solid hm
    have hlex : Terminal.method.lexeme? (c :: r ++ ' ' :: (u ++ ' ' :: (v ++ '\n' :: rest))) = some (c :: r) :=
      method?_append hm _
    rw [lexeme?_lineStart]
    show firstLexeme? ([Terminal.endOfLine, .separatorMark, .metadataMark] ++ Terminal.method :: _)
      (c :: (r ++ ' ' :: (u ++ ' ' :: (v ++ '\n' :: rest)))) = _
    -- what is tried before a method starts with no letter
    rw [firstLexeme?_skipAll _ hk]
    exact firstLexeme?_here _ hlex _
  have hgap1 : outline .methodGap (' ' :: (u ++ ' ' :: (v ++ '\n' :: rest))) =
      outline .target (u ++ ' ' :: (v ++ '\n' :: rest)) := by
    obtain ⟨c, r, hcr, hc⟩ := target_solid hu
    rw [hcr]
    exact outline_layout (lexeme?_gap (.inr rfl) hc _) rfl rfl
  have htarget : Context.target.lexeme? (u ++ ' ' :: (v ++ '\n' :: rest)) = some (.target, u) := by
    have hlex : Terminal.target.lexeme? (u ++ ' ' :: (v ++ '\n' :: rest)) = some u := target?_append hu _
    exact firstLexeme?_here .target hlex _
  have hgap2 : outline .targetGap (' ' :: (v ++ '\n' :: rest)) = outline .version (v ++ '\n' :: rest) := by
    obtain ⟨r, hr⟩ := version_solid hv
    rw [hr]
    exact outline_layout (lexeme?_gap (.inl rfl) (by decide) _) rfl rfl
  have hversion : Context.version.lexeme? (v ++ '\n' :: rest) = some (.version, v) := by
    have hlex : Terminal.version.lexeme? (v ++ '\n' :: rest) = some v := version?_append hv _
    exact firstLexeme?_here .version hlex _
  rw [outline_opened hmethod rfl rfl fun _ => rfl, hgap1,
    outline_opened htarget rfl rfl fun _ => rfl, hgap2,
    outline_opened hversion rfl rfl fun _ => rfl, outline_newline rfl, Option.map_map, Option.map_map]
  rfl

/-- The line of a header. -/
def headerLine (key value : Text) : Text :=
  key ++ ':' :: if value.isEmpty then [] else ' ' :: value

theorem headerLine_eq {key value : Text} (hv : IsValue value) :
    stripRight (key ++ ": " ++ value) = headerLine key value := by
  have hs : key ++ ": " ++ value = key ++ ':' :: ' ' :: value := by simp
  rw [hs, headerLine, stripRight_append_cons _ (by decide : isBlank ':' = false)]
  cases value with
  | nil =>
      have hblank : stripRight [' '] = [] := by decide
      rw [hblank]
      rfl
  | cons c v =>
      have hc : isBlank c = false := hv.1.head rfl
      have hright := stripRight_append_cons [' '] hc v
      rw [← stripRight_cons _ hc, hv.1.stripRight] at hright
      exact congrArg (key ++ ':' :: ·) hright

theorem newline_notMem_headerLine {key value : Text} (hkey : ∀ c ∈ key, isHeaderKey c = true)
    (hv : IsValue value) : '\n' ∉ headerLine key value := by
  unfold headerLine
  rw [List.mem_append]
  rintro (hm | hm)
  · exact absurd (hkey _ hm) (by decide)
  · rcases List.mem_cons.mp hm with he | hm
    · exact absurd he (by decide)
    · split at hm
      · simp at hm
      · rcases List.mem_cons.mp hm with he | hm
        · exact absurd he (by decide)
        · exact hv.2.1 hm

theorem outline_header {key value : Text} (hne : key ≠ []) (hkey : ∀ c ∈ key, isHeaderKey c = true)
    (hv : IsValue value) (rest : Text) :
    outline .headers (headerLine key value ++ '\n' :: rest) =
      (outline .headers rest).map (.header (Token.bare .header (headerLine key value)) :: ·) := by
  have hlex : Terminal.header.lexeme? (headerLine key value ++ '\n' :: rest) =
      some (headerLine key value) := by
    have hcolon : isHeaderKey ':' = false := by decide
    have htext : headerLine key value ++ '\n' :: rest =
        key ++ ':' :: ((if value.isEmpty then [] else ' ' :: value) ++ '\n' :: rest) := by
      simp [headerLine]
    have hline := firstLine_append (newline_notMem_headerLine hkey hv) rest
    show header? _ = _
    rw [htext] at hline ⊢
    rw [header?, takeWhile_append_stop hkey hcolon, dropWhile_append_stop hkey hcolon, hline]
    obtain ⟨c, k, rfl⟩ := List.exists_cons_of_ne_nil hne
    rfl
  have hheader : Context.headers.lexeme? (headerLine key value ++ '\n' :: rest) =
      some (.header, headerLine key value) := by
    obtain ⟨c, k, hck⟩ := List.exists_cons_of_ne_nil hne
    have hc : isHeaderKey c = true := hkey c (by rw [hck]; simp)
    have hb : isBlank c = false := isBlank_of_isGraphic (isGraphic_of_isHeaderKey hc)
    -- a character of a key opens none of the kinds that are tried before a header
    have hskip : ∀ k ∈ [Terminal.endOfLine, .separatorMark], k.mayOpen c = false := by
      have h1 : c ≠ '\n' := by rintro rfl; exact absurd hc (by decide)
      have h2 : c ≠ '#' := by rintro rfl; exact absurd hc (by decide)
      simp [Terminal.mayOpen, isGap_of_solid hb, h1, h2]
    rw [lexeme?_headers]
    show firstLexeme? ([Terminal.endOfLine, .separatorMark] ++ Terminal.header :: _) _ = _
    have htext : headerLine key value ++ '\n' :: rest =
        c :: (k ++ ':' :: ((if value.isEmpty then [] else ' ' :: value) ++ '\n' :: rest)) := by
      simp [headerLine, hck]
    rw [htext, firstLexeme?_skipAll _ hskip, ← htext]
    exact firstLexeme?_here _ hlex _
  rw [outline_opened hheader rfl rfl fun _ => rfl, outline_newline rfl]

/-! ## The body -/

theorem firstLexeme?_bodies {w t : Text} (hw : announced t = announced w) (hraw : opensRaw t = true)
    (hsep : Terminal.separatorMark.lexeme? t = none) (hred : Terminal.redirect.lexeme? t = none)
    (ks : List Terminal) :
    firstLexeme? (.formBody :: .separatorMark :: .graphqlBody :: .xmlBody :: .externalBody ::
      .jsonBody :: .redirect :: .rawBody :: ks) t = some (announced w, bodyLines false t) := by
  have hit : ∀ {k : Terminal} {opens : Text → Bool}, k.lexeme? = bodyIf opens → opens t = true →
      k.lexeme? t = some (bodyLines false t) := by
    intro k opens hk ho
    rw [hk, bodyIf, if_pos ho]
  have miss : ∀ {k : Terminal} {opens : Text → Bool}, k.lexeme? = bodyIf opens → ¬opens t = true →
      k.lexeme? t = none := by
    intro k opens hk ho
    rw [hk, bodyIf, if_neg ho]
  rw [← hw]
  -- the kinds are announced in the order in which they are tried
  unfold announced
  split
  · next h => exact firstLexeme?_here .formBody (hit rfl h) _
  · next h1 =>
      rw [firstLexeme?_skip .formBody (miss rfl h1), firstLexeme?_skip _ hsep]
      split
      · next h => exact firstLexeme?_here .graphqlBody (hit rfl h) _
      · next h2 =>
          rw [firstLexeme?_skip .graphqlBody (miss rfl h2)]
          split
          · next h => exact firstLexeme?_here .xmlBody (hit rfl h) _
          · next h3 =>
              rw [firstLexeme?_skip .xmlBody (miss rfl h3)]
              split
              · next h => exact firstLexeme?_here .externalBody (hit rfl h) _
              · next h4 =>
                  rw [firstLexeme?_skip .externalBody (miss rfl h4)]
                  split
                  · next h => exact firstLexeme?_here .jsonBody (hit rfl h) _
                  · next h5 =>
                      rw [firstLexeme?_skip .jsonBody (miss rfl h5), firstLexeme?_skip _ hred]
                      exact firstLexeme?_here .rawBody (hit rfl hraw) _

/-- Where no line that ends a body starts, there is neither a separator nor a redirect. -/
theorem unmarked_of_inert {t : Text} (h : endsBody t = false) :
    Terminal.separatorMark.lexeme? t = none ∧ Terminal.redirect.lexeme? t = none := by
  rw [endsBody, Bool.or_eq_false_iff] at h
  constructor
  · show literal? "###".toList t = none
    rw [literal?, if_neg (by rw [h.1]; simp)]
  · show redirect? t = none
    rw [redirect?, if_neg]
    intro hp
    refine Bool.eq_false_iff.mp h.2 (List.isPrefixOf_iff_prefix.mpr ?_)
    exact List.IsPrefix.trans ⟨['>'], rfl⟩ (List.isPrefixOf_iff_prefix.mp hp)

/-- A written body is read to the line that ends it, as the kind that its first line announces. -/
theorem lexeme?_body {w rest : Text} (ht : Trimmed w) (hne : w ≠ []) (hi : Inert w)
    (hr : Follows rest) :
    Context.beforeBody.lexeme? (w ++ '\n' :: rest) = some (announced w, w ++ bodyEnd rest) := by
  obtain ⟨c, r, hcr⟩ := List.exists_cons_of_ne_nil hne
  have hc : isBlank c = false := ht.head (by rw [hcr]; rfl)
  have hends : endsBody (w ++ '\n' :: rest) = false := by rw [endsBody_append_newline, hi.endsBody]
  have hend : Terminal.endOfLine.lexeme? (w ++ '\n' :: rest) = none := by
    rw [hcr]
    exact endOfLine?_solid (g := []) (by simp) hc _
  obtain ⟨hsep, hred⟩ := unmarked_of_inert hends
  have hraw : opensRaw (w ++ '\n' :: rest) = true := by
    have hcn : c ≠ '\n' := by rintro rfl; exact absurd hc (by decide)
    have hline : (firstLine (w ++ '\n' :: rest)).all isBlank = false := by
      rw [hcr, List.cons_append, firstLine, List.takeWhile_cons_of_pos (by simpa using hcn)]
      simp [hc]
    rw [opensRaw, hends, hline]
    rfl
  rw [lexeme?_beforeBody, firstLexeme?_skip _ hend, firstLexeme?_bodies (announced_line hne rest) hraw hsep hred,
    bodyLines_written hi hr]

/-- A body is an entry by itself, and below it a request is finished. -/
theorem body_opens {k : Terminal} (hk : k.isBody = true) :
    Context.beforeBody.next k = some .afterBody ∧ k.isLayout = false ∧
      ∀ l us, Entry.opened? (Token.bare k l) us = some (.body (Token.bare k l)) := by
  cases k with
  | formBody | jsonBody | graphqlBody | xmlBody | externalBody | rawBody =>
      exact ⟨rfl, rfl, fun _ _ => rfl⟩
  | _ => simp [Terminal.isBody] at hk

/-- The body of a request: it takes the empty line behind it along. -/
theorem outline_body {w rest : Text} (ht : Trimmed w) (hne : w ≠ []) (hi : Inert w)
    (hr : Follows rest) :
    outline .beforeBody (w ++ '\n' :: rest) =
      (outline .afterBody (rest.drop 1)).map
        (.body (Token.bare (announced w) (w ++ bodyEnd rest)) :: ·) := by
  have hlex := lexeme?_body ht hne hi hr
  have htext : w ++ '\n' :: rest = w ++ bodyEnd rest ++ rest.drop 1 := by
    rcases hr with rfl | ⟨s, rfl, -⟩ <;> simp [bodyEnd]
  rw [htext] at hlex ⊢
  obtain ⟨hnext, hshown, hopen⟩ := body_opens (isBody_announced w)
  exact outline_opened hlex hnext hshown (hopen _)

/-! ## Below it -/

/-- The places below a request where a line starts. -/
def BelowRequest (place : Context) : Prop :=
  place = .beforeBody ∨ place = .afterBody ∨ place = .belowResponses

/-- Below a request, a line that starts with `>` is a handler or a redirect. -/
theorem BelowRequest.lexeme? {place : Context} (hp : BelowRequest place) (t : Text) :
    place.lexeme? ('>' :: t) = firstLexeme? [.redirect, .handlerMark] ('>' :: t) := by
  rw [Context.lexeme?_cons]
  rcases hp with rfl | rfl | rfl <;> rfl

/-- The mark of a script that runs after the request. -/
theorem lexeme?_handlerMark {place : Context} (hp : BelowRequest place) {c : Char}
    (hc : isBlank c = false) (rest : Text) :
    place.lexeme? (['>', ' '] ++ c :: rest) = some (.handlerMark, ['>', ' ']) := by
  have hhandler : Terminal.handlerMark.lexeme? ('>' :: ' ' :: c :: rest) = some ['>', ' '] := by
    have htake : ([' '] ++ c :: rest).takeWhile isGap = [' '] :=
      takeWhile_append_stop (by decide) (isGap_of_solid hc)
    show some ('>' :: ([' '] ++ c :: rest).takeWhile isGap) = _
    rw [htake]
  show place.lexeme? ('>' :: ' ' :: c :: rest) = _
  rw [hp.lexeme?, firstLexeme?_skip .redirect rfl]
  exact firstLexeme?_here _ hhandler _

theorem BelowRequest.next_handlerMark {place : Context} (hp : BelowRequest place) :
    place.next .handlerMark = some .handlerSource := by
  rcases hp with rfl | rfl | rfl <;> rfl

/-- A script that runs after the request. -/
theorem outline_handler {place : Context} (hp : BelowRequest place) {s : Script} (h : s.Extracted)
    {rest : Text} (hopen : s.IsOpen → occursIn closing rest = false) :
    outline place (['>', ' '] ++ (s.render ++ '\n' :: rest)) =
      (outline .responses rest).map (.response (.handler s.token) :: ·) := by
  have hmark : place.lexeme? (['>', ' '] ++ (s.render ++ '\n' :: rest)) =
      some (.handlerMark, ['>', ' ']) := by
    obtain ⟨c, r, hr, hc⟩ := Script.render_solid h
    rw [hr]
    exact lexeme?_handlerMark hp hc (r ++ '\n' :: rest)
  have hsource : reading .handlerSource (s.render ++ '\n' :: rest) =
      (reading .responseEnd ('\n' :: rest)).map (s.token :: ·) := by
    rw [reading_step (Script.lexeme? rfl h hopen) s.next_source.2, Script.token_eq h]
  have hread : reading place (['>', ' '] ++ (s.render ++ '\n' :: rest)) =
      (reading .responses rest).map ([Token.bare .handlerMark ['>', ' '], s.token,
        Token.bare .endOfLine ['\n']] ++ ·) :=
    reading_cons (reading_step hmark hp.next_handlerMark) (reading_cons hsource (reading_newline rfl rest))
  exact outline_line hread fun us _ => entries_source rfl (fun _ => rfl) ['\n'] us

/-- The redirect of a response. -/
theorem outline_redirect {place : Context} (hp : BelowRequest place) {x : Text} (hx : IsValue x)
    (hmark : ['>', '>'] <+: x) (rest : Text) :
    outline place (x ++ '\n' :: rest) =
      (outline .responses rest).map (.response (.redirect (Token.bare .redirect x)) :: ·) := by
  obtain ⟨r, rfl⟩ := hmark
  have hredirect : Terminal.redirect.lexeme? ('>' :: '>' :: (r ++ '\n' :: rest)) = some ('>' :: '>' :: r) := by
    have hline : stripRight (firstLine (['>', '>'] ++ r ++ '\n' :: rest)) = ['>', '>'] ++ r := by
      rw [firstLine_append hx.2.1, hx.1.stripRight]
    have htrim := trimmedLine?_of_ne_nil (t := ['>', '>'] ++ r ++ '\n' :: rest) (by rw [hline]; simp)
    rw [hline] at htrim
    exact htrim
  have hlex : place.lexeme? (['>', '>'] ++ r ++ '\n' :: rest) = some (.redirect, ['>', '>'] ++ r) := by
    show place.lexeme? ('>' :: '>' :: (r ++ '\n' :: rest)) = _
    rw [hp.lexeme?]
    exact firstLexeme?_here _ hredirect _
  have hnext : place.next .redirect = some .responseEnd := by
    rcases hp with rfl | rfl | rfl <;> rfl
  rw [outline_opened hlex hnext rfl fun _ => rfl, outline_newline rfl]

/-- A separator is read below a request as it is at the start of a line. -/
theorem outline_section {place : Context} (hp : BelowRequest place) (rest : Text) :
    outline place (['#', '#', '#'] ++ rest) = outline .lineStart (['#', '#', '#'] ++ rest) := by
  have hlex : place.lexeme? (['#', '#', '#'] ++ rest) = some (.separatorMark, ['#', '#', '#']) := by
    have hmark : Terminal.separatorMark.lexeme? ('#' :: '#' :: '#' :: rest) = some ['#', '#', '#'] :=
      literal?_append ['#', '#', '#'] rest
    show place.lexeme? ('#' :: '#' :: '#' :: rest) = _
    rw [Context.lexeme?_cons]
    rcases hp with rfl | rfl | rfl <;> exact firstLexeme?_here _ hmark _
  have hnext : place.next .separatorMark = some .separatorText := by
    rcases hp with rfl | rfl | rfl <;> rfl
  unfold outline
  rw [reading_step hlex hnext, reading_step (separatorMark_lineStart rest) rfl]

end HttpFile
