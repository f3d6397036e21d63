import HttpFile.Proofs.Syntax.Entries
import Mathlib.Data.List.Find
import Mathlib.Data.List.Infix

/-!
# `HttpFile.Proofs.Syntax.Boundary` — no lexeme crosses a separator

A line that starts with `###` cuts a text in two. Most lexemes do not look beyond their line; targets
and bodies do, but stop at such a line; and a script that is closed above it ends there. Hence in front
of the line each kind covers what it would cover if the text ended, and only the end of a line or a body
reaches it, behind which the file may end as well.

## Contents
- **One line.** `commentMark?_line` and so on: what the kinds see of a text that goes on below its line.
- **Several lines.** `targetTail_boundary`, `bodyLines_boundary`, `throughScriptEnd?_boundary`.
- **All kinds.** `ClosesScripts`, `lexeme?_boundary`.
- **The end.** `ends_line`: the kinds that reach the end of a line; `mayEnd_of_next`.
-/

namespace HttpFile.Syntax

open Text Unicode

/-! ## One line -/

theorem firstLine_line (w t : Text) : firstLine (w ++ '\n' :: t) = firstLine w :=
  takeWhile_append_newline (by decide) w t

/-- A mark without a newline stands at the start of a text if it stands at the start of its line. -/
theorem isPrefixOf_line {mark : Text} (hm : '\n' ∉ mark) (w t : Text) :
    mark.isPrefixOf (w ++ '\n' :: t) = mark.isPrefixOf w := by
  rw [Bool.eq_iff_iff, List.isPrefixOf_iff_prefix, List.isPrefixOf_iff_prefix]
  constructor
  · intro h
    have hline := prefix_firstLine hm h
    rw [firstLine_line] at hline
    exact hline.trans (firstLine_isPrefix w)
  · exact fun h => h.trans (List.prefix_append w _)

theorem commentMark?_line (w t : Text) :
    commentMark? (w ++ '\n' :: t) = (commentMark? w).map fun x => (x.1, x.2 ++ '\n' :: t) := by
  match w with
  | [] => rfl
  | [c] =>
      by_cases hash : c = '#'
      · subst hash; rfl
      · simp [commentMark?, hash]
  | c :: d :: w =>
      by_cases hash : c = '#'
      · subst hash; rfl
      · by_cases slash : c = '/' ∧ d = '/'
        · obtain ⟨rfl, rfl⟩ := slash; rfl
        · rw [not_and] at slash
          simp [commentMark?, hash]
          split <;> simp_all

theorem endOfLine?_boundary (w t : Text) : endOfLine? (w ++ '\n' :: t) = endOfLine? (w ++ ['\n']) := by
  unfold endOfLine?
  simp only [dropWhile_append_newline (by decide : isGap '\n' = false),
    takeWhile_append_newline (by decide : isGap '\n' = false)]
  cases w.dropWhile isGap with
  | nil => rfl
  | cons c r =>
      by_cases hc : c = '\n'
      · subst hc; rfl
      · simp [hc]

theorem assign?_boundary (w t : Text) : assign? (w ++ '\n' :: t) = assign? (w ++ ['\n']) := by
  have hn : isGap '\n' = false := by decide
  unfold assign?
  simp only [dropWhile_append_newline hn, takeWhile_append_newline hn]
  cases w.dropWhile isGap with
  | nil => rfl
  | cons c r =>
      by_cases hc : c = '='
      · subst hc
        simp only [List.cons_append, takeWhile_append_newline hn]
      · simp [hc]

theorem value?_boundary (w t : Text) : value? (w ++ '\n' :: t) = value? (w ++ ['\n']) := by
  cases w with
  | nil => rfl
  | cons c w =>
      show (if isBlank c then none else some (stripRight (firstLine ((c :: w) ++ '\n' :: t)))) =
        if isBlank c then none else some (stripRight (firstLine ((c :: w) ++ ['\n'])))
      rw [firstLine_line, firstLine_line]

theorem identifier?_boundary (w t : Text) :
    identifier? (w ++ '\n' :: t) = identifier? (w ++ ['\n']) := by
  cases w with
  | nil => rfl
  | cons c w =>
      have hn : isIdentifierRest '\n' = false := by decide
      simp only [List.cons_append, identifier?, takeWhile_append_newline hn]

theorem metadataMark?_boundary (w t : Text) :
    metadataMark? (w ++ '\n' :: t) = metadataMark? (w ++ ['\n']) := by
  have hn : isGap '\n' = false := by decide
  unfold metadataMark?
  simp only [commentMark?_line]
  cases commentMark? w with
  | none => rfl
  | some x =>
      obtain ⟨mark, rest⟩ := x
      simp only [Option.map_some, dropWhile_append_newline hn, takeWhile_append_newline hn]
      match rest.dropWhile isGap with
      | [] => rfl
      | [c] =>
          by_cases hc : c = '@'
          · subst hc; rfl
          · simp [hc]
      | c :: d :: r =>
          by_cases hc : c = '@'
          · subst hc; rfl
          · simp [hc]

theorem comment?_boundary (w t : Text) : comment? (w ++ '\n' :: t) = comment? (w ++ ['\n']) := by
  have hash : '\n' ∉ "##".toList := by decide
  unfold comment?
  simp only [commentMark?_line, firstLine_line]
  cases commentMark? w with
  | none => rfl
  | some x =>
      obtain ⟨mark, rest⟩ := x
      simp only [Option.map_some, isPrefixOf_line hash]

theorem preRequestMark?_boundary (w t : Text) :
    preRequestMark? (w ++ '\n' :: t) = preRequestMark? (w ++ ['\n']) := by
  cases w with
  | nil => rfl
  | cons c w =>
      by_cases hc : c = '<'
      · subst hc
        have hn : isGap '\n' = false := by decide
        simp only [List.cons_append, preRequestMark?, takeWhile_append_newline hn]
      · simp [preRequestMark?, hc]

theorem handlerMark?_boundary (w t : Text) :
    handlerMark? (w ++ '\n' :: t) = handlerMark? (w ++ ['\n']) := by
  have hn : isGap '\n' = false := by decide
  match w with
  | [] => rfl
  | [c] =>
      by_cases hc : c = '>'
      · subst hc; rfl
      · simp [handlerMark?, hc]
  | c :: d :: w =>
      by_cases hc : c = '>'
      · subst hc
        by_cases hd : d = '>'
        · subst hd; rfl
        · have hline := takeWhile_append_newline hn (d :: w)
          simp only [List.cons_append] at hline
          simp [handlerMark?, hd, hline]
      · simp [handlerMark?, hc]

theorem method?_boundary (w t : Text) : method? (w ++ '\n' :: t) = method? (w ++ ['\n']) := by
  have hword : ∀ m ∈ methods.map String.toList, '\n' ∉ m := by decide
  unfold method?
  refine List.find?_congr fun m hm => ?_
  rw [isPrefixOf?_line (hword m hm), isPrefixOf?_line (hword m hm)]
  cases m.isPrefixOf? w with
  | none => rfl
  | some v => cases v <;> rfl

theorem version?_boundary (w t : Text) : version? (w ++ '\n' :: t) = version? (w ++ ['\n']) := by
  have hword : '\n' ∉ "HTTP/".toList := by decide
  have hdigit : isDigit '\n' = false := by decide
  unfold version?
  rw [isPrefixOf?_line hword, isPrefixOf?_line hword]
  generalize "HTTP/".toList = word
  match word.isPrefixOf? w with
  | none => rfl
  | some [] =>
      -- below the slash stands a newline, which is no digit
      match t with
      | [] => rfl
      | [c] => simp [hdigit]
      | c :: d :: t =>
          by_cases hc : c = '.'
          · subst hc; simp [hdigit]
          · simp [hdigit, hc]
  | some [c] => rfl
  | some [c, d] =>
      by_cases hd : d = '.'
      · subst hd; rfl
      · simp [hd]
  | some (c :: d :: e :: r) =>
      by_cases hd : d = '.'
      · subst hd; rfl
      · simp [hd]

theorem header?_boundary (w t : Text) : header? (w ++ '\n' :: t) = header? (w ++ ['\n']) := by
  have hkey : isHeaderKey '\n' = false := by decide
  have hgap : isGap '\n' = false := by decide
  unfold header?
  simp only [takeWhile_append_newline hkey, dropWhile_append_newline hkey, dropWhile_append_newline hgap,
    firstLine_line]
  cases w.takeWhile isHeaderKey with
  | nil => rfl
  | cons k ks =>
      cases (w.dropWhile isHeaderKey).dropWhile isGap with
      | nil => rfl
      | cons c r =>
          by_cases hc : c = ':'
          · subst hc; rfl
          · simp [hc]

/-! ## Several lines -/

/-- A line that starts with a gap is continued as before if the text goes on below it. -/
theorem continuesTarget_line (w t : Text) :
    continuesTarget (w ++ '\n' :: t) = continuesTarget (w ++ ['\n']) := by
  have hn : isGap '\n' = false := by decide
  unfold continuesTarget
  simp only [takeWhile_append_newline hn, dropWhile_append_newline hn]
  cases w.takeWhile isGap with
  | nil => rfl
  | cons g gs => cases w.dropWhile isGap <;> rfl

/-- The mark of a separator. -/
def sectionMark : Text := ['#', '#', '#']

/-- A separator does not continue a target. -/
theorem targetTail_boundary (inGap : Bool) (w : Text) {t : Text} (ht : sectionMark <+: t) :
    targetTail inGap (w ++ '\n' :: t) = targetTail inGap (w ++ ['\n']) := by
  have hstop : continuesTarget t = false := by
    obtain ⟨r, rfl⟩ := ht
    rfl
  induction w generalizing inGap with
  | nil =>
      have hblank : isBlank '\n' = true := by decide
      have hgap : isGap '\n' = false := by decide
      have hnil : continuesTarget [] = false := rfl
      simp [targetTail, hblank, hgap, hstop, hnil]
  | cons c w ih =>
      simp only [List.cons_append, targetTail, continuesTarget_line w t, ih]

theorem target?_boundary (w : Text) {t : Text} (ht : sectionMark <+: t) :
    target? (w ++ '\n' :: t) = target? (w ++ ['\n']) := by
  match w with
  | [] => rfl
  | [c] =>
      have hslash : ∀ r, target? (c :: '\n' :: r) =
          if "#@<>".toList.contains c || isBlank c then none else some (c :: targetTail false ('\n' :: r)) := by
        intro r
        unfold target?
        split <;> simp_all
      have htail := targetTail_boundary false [] ht
      simp only [List.nil_append] at htail
      simp only [List.cons_append, List.nil_append, hslash, htail]
  | c :: d :: w =>
      by_cases hslash : c = '/' ∧ d = '/'
      · obtain ⟨rfl, rfl⟩ := hslash; rfl
      · have hopen : ∀ r, target? (c :: d :: r) =
            if "#@<>".toList.contains c || isBlank c then none else some (c :: targetTail false (d :: r)) := by
          intro r
          unfold target?
          split <;> simp_all
        have htail := targetTail_boundary false (d :: w) ht
        simp only [List.cons_append] at htail
        simp only [List.cons_append, hopen, htail]

/-- A separator ends a body. -/
theorem bodyLines_boundary (flag : Bool) (w : Text) {t : Text} (ht : sectionMark <+: t) :
    bodyLines flag (w ++ '\n' :: t) = bodyLines flag (w ++ ['\n']) := by
  have hend : bodyLines true t = [] := by
    obtain ⟨r, rfl⟩ := ht
    rfl
  induction w generalizing flag with
  | nil =>
      have hn : ∀ r, endsBody ('\n' :: r) = false := fun r => rfl
      simp [bodyLines, hn, hend]
  | cons c w ih =>
      have hline : endsBody (c :: (w ++ '\n' :: t)) = endsBody (c :: (w ++ ['\n'])) := by
        rw [← List.cons_append, ← List.cons_append, endsBody_append_newline, endsBody_append_newline]
      simp only [List.cons_append, bodyLines, hline, ih]

theorem bodyIf_boundary {opens : Text → Bool} {w t : Text} (ht : sectionMark <+: t)
    (ho : opens (w ++ '\n' :: t) = opens (w ++ ['\n'])) :
    bodyIf opens (w ++ '\n' :: t) = bodyIf opens (w ++ ['\n']) := by
  unfold bodyIf
  rw [ho, bodyLines_boundary false w ht]

theorem throughScriptEnd?_boundary {u : Text} (hu : closing <:+: u) (t : Text) :
    throughScriptEnd? (u ++ t) = throughScriptEnd? u := by
  cases hs : throughScriptEnd? u with
  | none =>
      rw [throughScriptEnd?_eq_none_iff, occursIn_eq_false_iff] at hs
      exact absurd hu hs
  | some l =>
      obtain ⟨code, rest, rfl, rfl, hno⟩ := throughScriptEnd?_spec hs
      rw [List.append_assoc]
      exact throughScriptEnd?_append hno _

/-! ## All kinds -/

/-- A text in which every inline script is closed. -/
def ClosesScripts (t : Text) : Prop := ∀ v, '{' :: '%' :: v <:+ t → closing <:+: v

instance (t : Text) : Decidable (ClosesScripts t) :=
  decidable_of_iff (∀ s ∈ t.tails, ['{', '%'] <+: s → closing <:+: s.drop 2) <| by
    constructor
    · intro h v hv
      exact h _ ((List.mem_tails _ _).mpr hv) (List.prefix_append ['{', '%'] v)
    · rintro h s hs ⟨v, rfl⟩
      exact h v ((List.mem_tails _ _).mp hs)

theorem ClosesScripts.of_append {u t : Text} (h : ClosesScripts (u ++ t)) : ClosesScripts t :=
  fun v hv => h v (hv.trans (List.suffix_append u t))

theorem script?_boundary {w : Text} (hw : ClosesScripts (w ++ ['\n'])) (t : Text) :
    script? (w ++ '\n' :: t) = script? (w ++ ['\n']) := by
  match w with
  | [] => rfl
  | [c] => simp [script?]
  | c :: d :: w =>
      by_cases hopen : c = '{' ∧ d = '%'
      · obtain ⟨rfl, rfl⟩ := hopen
        have hclosed : closing <:+: w ++ ['\n'] := hw _ (List.suffix_refl _)
        have hend := throughScriptEnd?_boundary hclosed t
        rw [List.append_assoc, List.singleton_append] at hend
        simp only [List.cons_append, script?, hend]
      · have hno : ∀ r, script? (c :: d :: r) = none := by
          intro r
          unfold script?
          split <;> simp_all
        simp only [List.cons_append, hno]

/-- **No lexeme crosses a separator.** In front of one, each kind covers what it covers at the end of a
    text, if scripts are closed. -/
theorem lexeme?_boundary (k : Terminal) {w t : Text} (hw : ClosesScripts (w ++ ['\n']))
    (ht : sectionMark <+: t) : k.lexeme? (w ++ '\n' :: t) = k.lexeme? (w ++ ['\n']) := by
  have hgap : isGap '\n' = false := by decide
  have literal : ∀ {word : Text}, '\n' ∉ word →
      literal? word (w ++ '\n' :: t) = literal? word (w ++ ['\n']) := by
    intro word hword
    rw [literal?, literal?, isPrefixOf_line hword, isPrefixOf_line hword]
  -- most kinds look at the first line only; the end of a line, a script and a body look further
  cases k with
  | endOfLine => exact endOfLine?_boundary w t
  | gap =>
      show gap? _ = gap? _
      rw [gap?, gap?, takeWhile_append_newline hgap, takeWhile_append_newline hgap]
  | separatorMark => exact literal (by decide)
  | variableMark => exact literal (by decide)
  | separatorText =>
      show trimmedLine? _ = trimmedLine? _
      rw [trimmedLine?, trimmedLine?, firstLine_line, firstLine_line]
  | assign => exact assign?_boundary w t
  | identifier => exact identifier?_boundary w t
  | value => exact value?_boundary w t
  | path => exact value?_boundary w t
  | metadataMark => exact metadataMark?_boundary w t
  | comment => exact comment?_boundary w t
  | preRequestMark => exact preRequestMark?_boundary w t
  | handlerMark => exact handlerMark?_boundary w t
  | script => exact script?_boundary hw t
  | redirect =>
      have hmark : '\n' ∉ ">>".toList := by decide
      show redirect? _ = redirect? _
      rw [redirect?, redirect?, isPrefixOf_line hmark, isPrefixOf_line hmark, trimmedLine?,
        trimmedLine?, firstLine_line, firstLine_line]
  | method => exact method?_boundary w t
  | target => exact target?_boundary w ht
  | version => exact version?_boundary w t
  | header => exact header?_boundary w t
  | formBody => exact bodyIf_boundary ht (by rw [opensForm_line, opensForm_line])
  | graphqlBody => exact bodyIf_boundary ht (by rw [opensGraphql_line, opensGraphql_line])
  | jsonBody | xmlBody | externalBody =>
      refine bodyIf_boundary ht ?_
      cases w with
      | nil => rfl
      | cons c w =>
          have hne : c :: w ≠ [] := by simp
          simp only [opensJson_line hne, opensXml_line hne, opensExternal_line hne]
  | rawBody =>
      refine bodyIf_boundary ht ?_
      rw [opensRaw, opensRaw, endsBody_append_newline, endsBody_append_newline, firstLine_line,
        firstLine_line]

theorem Context.lexeme?_boundary (place : Context) {w t : Text} (hw : ClosesScripts (w ++ ['\n']))
    (ht : sectionMark <+: t) : place.lexeme? (w ++ '\n' :: t) = place.lexeme? (w ++ ['\n']) := by
  unfold Context.lexeme? firstLexeme?
  simp only [Syntax.lexeme?_boundary _ hw ht]

/-! ## The end -/

/-- A target does not end in a blank. -/
theorem last_target {t l : Text} (h : target? t = some l) {c : Char} (hc : l.getLast? = some c) :
    isBlank c = false := by
  obtain ⟨w, ls, rfl, hw, hls⟩ := target?_shape h
  rw [joinLines_cons] at hc
  rcases List.eq_nil_or_concat ls with rfl | ⟨ms, m, rfl⟩
  · rw [List.flatMap_nil, List.append_nil] at hc
    exact hw.1 c (List.mem_of_getLast? hc)
  · obtain ⟨g, d, x, -, -, hd, hx, rfl⟩ := hls m (by simp)
    have htail : w ++ (ms ++ [g ++ d :: x]).flatMap ('\n' :: ·) =
        w ++ ms.flatMap ('\n' :: ·) ++ '\n' :: g ++ d :: x := by simp
    have hlast : (d :: x).getLast? = some c := by
      rw [List.concat_eq_append, htail, List.getLast?_append] at hc
      simpa using hc
    rcases List.mem_cons.mp (List.mem_of_getLast? hlast) with rfl | hm
    · exact isBlank_mark hd
    · exact hx c hm

/-- Only the end of a line and a body reach the end of a line. -/
theorem ends_line {k : Terminal} {t l : Text} (h : k.lexeme? t = some l)
    (hend : l.getLast? = some '\n') : k = .endOfLine ∨ k.isBody = true := by
  have hmem : '\n' ∈ l := List.mem_of_getLast? hend
  have hgap : '\n' ∉ t.takeWhile isGap := fun hm => absurd (List.mem_takeWhile_imp hm) (by decide)
  have marked : ∀ {c : Char} {rest : Text}, c ≠ '\n' → l = c :: rest.takeWhile isGap → False := by
    rintro c rest hc rfl
    rcases List.mem_cons.mp hmem with he | hm
    · exact hc he.symm
    · exact absurd (List.mem_takeWhile_imp hm) (by decide)
  -- all other kinds stay on their line, or end in a character of their own
  cases k with
  | endOfLine => exact .inl rfl
  | formBody | jsonBody | graphqlBody | xmlBody | externalBody | rawBody => exact .inr rfl
  | gap => exact absurd ((gap?_spec h).1 ▸ hmem) hgap
  | separatorMark => exact absurd ((literal?_spec h).1 ▸ hmem) (by decide)
  | variableMark => exact absurd ((literal?_spec h).1 ▸ hmem) (by decide)
  | separatorText =>
      obtain ⟨rfl, -⟩ := trimmedLine?_spec h
      exact absurd hmem (stripRight_firstLine_spec t).2.1
  | assign =>
      obtain ⟨g, rest, hg, -, rfl⟩ := assign?_spec h
      rcases List.mem_append.mp hmem with hm | hm
      · exact absurd (hg _ hm) (by decide)
      · rcases List.mem_cons.mp hm with he | hm
        · exact absurd he (by decide)
        · exact absurd (List.mem_takeWhile_imp hm) (by decide)
  | identifier => exact absurd (solid_of_identifier (identifier?_self h) _ hmem) (by decide)
  | value => exact absurd hmem (value?_trimmed h).2.1
  | path => exact absurd hmem (value?_trimmed h).2.1
  | metadataMark =>
      obtain ⟨sign, g, c, rest, -, -, -, -, rfl⟩ := metadataMark?_spec h
      rw [List.getLast?_concat] at hend
      exact absurd hend (by decide)
  | comment =>
      obtain ⟨sign, rest, -, rfl, -⟩ := comment?_spec h
      exact absurd hmem (newline_notMem_firstLine t)
  | preRequestMark =>
      obtain ⟨rest, -, hl⟩ := preRequestMark?_spec h
      exact (marked (by decide) hl).elim
  | handlerMark =>
      obtain ⟨rest, -, hl⟩ := handlerMark?_spec h
      exact (marked (by decide) hl).elim
  | script =>
      obtain ⟨code, rest, -, rfl, -⟩ := script?_spec h
      rw [show '{' :: '%' :: (code ++ closing) = '{' :: '%' :: code ++ ['%'] ++ ['}'] by simp [closing],
        List.getLast?_concat] at hend
      exact absurd hend (by decide)
  | redirect =>
      obtain ⟨-, rfl, -⟩ := redirect?_spec h
      exact absurd hmem (stripRight_firstLine_spec t).2.1
  | method =>
      have hwords : ∀ m ∈ methods.map String.toList, '\n' ∉ m := by decide
      exact absurd hmem (hwords l (method?_spec h).1)
  | target => exact absurd (last_target h hend) (by decide)
  | version =>
      obtain ⟨major, hd, ⟨minor, rest, hm, -, rfl⟩ | ⟨rest, -, rfl⟩⟩ := version?_spec h
      · rw [show "HTTP/".toList ++ [major, '.', minor] = "HTTP/".toList ++ [major, '.'] ++ [minor] by simp,
          List.getLast?_concat] at hend
        rw [Option.some.inj hend] at hm
        exact absurd hm (by decide)
      · rw [List.getLast?_concat] at hend
        rw [Option.some.inj hend] at hd
        exact absurd hd (by decide)
  | header =>
      obtain ⟨key, g, rest, -, -, -, -, rfl⟩ := header?_spec h
      exact absurd hmem (newline_notMem_firstLine t)

/-- Behind the end of a line and behind a body the file may end. -/
theorem mayEnd_of_next {place place' : Context} {k : Terminal} (hk : k = .endOfLine ∨ k.isBody = true)
    (hn : place.next k = some place') : place'.mayEnd = true := by
  have hall : ∀ place : Context, ∀ k : Terminal, (k = .endOfLine ∨ k.isBody = true) →
      ((place.next k).map Context.mayEnd).getD true = true := by
    intro place k hk
    rcases hk with rfl | hk
    · cases place <;> rfl
    · cases k with
      | formBody | jsonBody | graphqlBody | xmlBody | externalBody | rawBody => cases place <;> rfl
      | _ => simp [Terminal.isBody] at hk
  have h := hall place k hk
  rw [hn] at h
  exact h

end HttpFile.Syntax
