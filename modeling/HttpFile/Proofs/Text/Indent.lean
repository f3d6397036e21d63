import HttpFile.Proofs.Text.Line

/-!
# `HttpFile.Proofs.Text.Indent` — indenting a text and taking the indentation off

Indenting works on the lines that any break ends, taking the indentation off on the lines that
newlines end. The two undo each other as long as each line between newlines holds something on its
first line only, or nothing at all.

## Contents
- **Trimming a class.** `trimWhere_wrapped`.
- **Indenting.** `indent_append_newline`, `indent_joinLines`: line by line.
- **Steady lines.** `Steady`, `indent_steady`.
- **Margins.** `commonStart_isPrefix`, `margin_eq`.
- **Both.** `occursIn_dedent`, `dedent_indent`.
-/

namespace HttpFile.Text

open Unicode

/-! ## Trimming a class -/

theorem trimRightWhere_append {p : Char → Bool} (t : Text) {u : Text} (hu : ∀ c ∈ u, p c = true) :
    trimRightWhere p (t ++ u) = trimRightWhere p t := by
  unfold trimRightWhere
  rw [List.reverse_append, List.dropWhile_append_of_pos fun c hc => hu c (List.mem_reverse.mp hc)]

theorem trimRightWhere_of_last {p : Char → Bool} {t : Text}
    (h : ∀ c, t.getLast? = some c → p c = false) : trimRightWhere p t = t := by
  unfold trimRightWhere
  cases ht : t.reverse with
  | nil => rw [List.reverse_eq_nil_iff.mp ht]; rfl
  | cons c r =>
      have hc : t.getLast? = some c := by rw [List.getLast?_eq_head?_reverse, ht]; rfl
      rw [List.dropWhile_cons_of_neg (by simp [h c hc]), ← ht, List.reverse_reverse]

/-- A text whose ends are not of a class is what is left of it between characters of the class. -/
theorem trimWhere_wrapped {p : Char → Bool} {t u v : Text}
    (hh : ∀ c, t.head? = some c → p c = false) (hl : ∀ c, t.getLast? = some c → p c = false)
    (hu : ∀ c ∈ u, p c = true) (hv : ∀ c ∈ v, p c = true) : trimWhere p (u ++ t ++ v) = t := by
  unfold trimWhere trimLeftWhere
  rw [List.append_assoc, List.dropWhile_append_of_pos hu]
  cases t with
  | nil => rw [List.nil_append, List.dropWhile_eq_nil_iff.mpr hv]; rfl
  | cons c t =>
      rw [List.cons_append, List.dropWhile_cons_of_neg (by simp [hh c rfl]), ← List.cons_append,
        trimRightWhere_append _ hv, trimRightWhere_of_last hl]

/-! ## Indenting -/

/-- A line with its end, indented if it holds something. -/
def indentPiece (pad l : Text) : Text := if l.all isBlank then l else pad ++ l

theorem indent_eq (pad t : Text) : indent pad t = (linesWithEnds t).flatMap (indentPiece pad) := rfl

theorem indentPiece_newline (pad l : Text) : indentPiece pad (l ++ ['\n']) = indentPiece pad l ++ ['\n'] := by
  have hb : isBlank '\n' = true := by decide
  unfold indentPiece
  rw [List.all_append]
  simp only [List.all_cons, hb, List.all_nil, Bool.and_true]
  split
  · rfl
  · rw [List.append_assoc]

theorem linesWithEnds_newline (v : Text) : linesWithEnds ('\n' :: v) = ['\n'] :: linesWithEnds v := by
  rw [linesWithEnds]
  · rfl
  · intro rest h
    exact absurd h (by decide)

theorem linesWithEnds_cons {c : Char} (hc : isBreak c = false) (t : Text) :
    linesWithEnds (c :: t) = consFirst c (linesWithEnds t) := by
  rw [linesWithEnds, if_neg (by simp [hc])]
  rintro rest rfl
  exact absurd hc (by decide)

/-- A break ends the line, unless a newline behind it does. -/
theorem linesWithEnds_ended {c : Char} (hc : isBreak c = true) {t : Text}
    (h : c = '\r' → t.head? ≠ some '\n') : linesWithEnds (c :: t) = [c] :: linesWithEnds t := by
  rw [linesWithEnds, if_pos hc]
  rintro rest hr rfl
  exact h hr rfl

theorem linesWithEnds_ne_nil {t : Text} (h : t ≠ []) : linesWithEnds t ≠ [] := by
  intro he
  have hf := flatten_linesWithEnds t
  rw [he] at hf
  exact h hf.symm

theorem linesWithEnds_singleton (c : Char) : linesWithEnds [c] = [[c]] := by
  by_cases hc : isBreak c = true
  · rw [linesWithEnds_ended hc fun _ => by simp]
    rfl
  · rw [linesWithEnds_cons (by simpa using hc)]
    rfl

/-- A newline behind a text without newlines ends its last line, or is a line of its own. -/
theorem linesWithEnds_append_newline (pad : Text) {f : Text} (hn : '\n' ∉ f) {l : Text}
    {ls : List Text} (hf : linesWithEnds f = l :: ls) (v : Text) :
    (ls = [] ∧ linesWithEnds (f ++ '\n' :: v) = (l ++ ['\n']) :: linesWithEnds v) ∨
      ∃ ls', linesWithEnds (f ++ '\n' :: v) = l :: ls' ∧
        ls'.flatMap (indentPiece pad) = ls.flatMap (indentPiece pad) ++ '\n' :: indent pad v := by
  have hnl : indentPiece pad ['\n'] = ['\n'] := by
    have hb : isBlank '\n' = true := by decide
    simp [indentPiece, hb]
  induction f generalizing l ls with
  | nil => simp [linesWithEnds] at hf
  | cons c f ih =>
      have hnf : '\n' ∉ f := fun hm => hn (by simp [hm])
      cases f with
      | nil =>
          -- the one line ends with the newline, unless it has ended with a break already
          rw [linesWithEnds_singleton] at hf
          injection hf with hl hls
          subst hl hls
          by_cases hc : isBreak c = true
          · by_cases hr : c = '\r'
            · subst hr
              exact .inl ⟨rfl, rfl⟩
            · refine .inr ⟨['\n'] :: linesWithEnds v, ?_, ?_⟩
              · rw [List.cons_append, List.nil_append, linesWithEnds_ended hc fun h => absurd h hr,
                  linesWithEnds_newline]
              · rw [List.flatMap_cons, hnl]
                rfl
          · refine .inl ⟨rfl, ?_⟩
            rw [List.cons_append, List.nil_append, linesWithEnds_cons (by simpa using hc),
              linesWithEnds_newline]
            rfl
      | cons d f =>
          obtain ⟨m, ms, hm⟩ :=
            List.exists_cons_of_ne_nil (linesWithEnds_ne_nil (List.cons_ne_nil d f))
          by_cases hc : isBreak c = true
          · -- the first line ends here, and the newline goes to one of the others
            have hd : ∀ w, c = '\r' → (d :: w).head? ≠ some '\n' := fun w _ hd =>
              hnf (Option.some.inj hd ▸ List.mem_cons_self)
            rw [linesWithEnds_ended hc (hd f), hm] at hf
            injection hf with hl hls
            subst hl hls
            refine .inr ⟨linesWithEnds (d :: f ++ '\n' :: v), linesWithEnds_ended hc (hd _), ?_⟩
            rcases ih hnf hm with ⟨rfl, h⟩ | ⟨ms', h, hflat⟩
            · rw [h, List.flatMap_cons, indentPiece_newline]
              simp [indent_eq]
            · rw [h, List.flatMap_cons, hflat]
              simp
          · -- the first line is one longer than that of the rest
            have hcons := linesWithEnds_cons (c := c) (by simpa using hc)
            rw [hcons, hm] at hf
            injection hf with hl hls
            subst hl hls
            rw [List.cons_append, hcons]
            rcases ih hnf hm with ⟨rfl, h⟩ | ⟨ms', h, hflat⟩
            · exact .inl ⟨rfl, by rw [h]; rfl⟩
            · exact .inr ⟨ms', by rw [h]; rfl, hflat⟩

/-- Indenting goes line by line. -/
theorem indent_append_newline (pad : Text) {f : Text} (hn : '\n' ∉ f) (v : Text) :
    indent pad (f ++ '\n' :: v) = indent pad f ++ '\n' :: indent pad v := by
  cases hf : linesWithEnds f with
  | nil =>
      obtain rfl : f = [] := by
        by_contra hne
        exact linesWithEnds_ne_nil hne hf
      have hb : isBlank '\n' = true := by decide
      rw [List.nil_append, indent_eq, linesWithEnds_newline, List.flatMap_cons, ← indent_eq]
      simp [indentPiece, hb, indent_eq, linesWithEnds]
  | cons l ls =>
      rcases linesWithEnds_append_newline pad hn hf v with ⟨rfl, h⟩ | ⟨ls', h, hflat⟩
      · rw [indent_eq, h, indent_eq, hf, List.flatMap_cons, indentPiece_newline, ← indent_eq]
        simp
      · rw [indent_eq, h, List.flatMap_cons, hflat, indent_eq pad f, hf]
        simp

theorem indent_joinLines (pad : Text) {l : Text} {ls : List Text} (h : ∀ m ∈ l :: ls, '\n' ∉ m) :
    indent pad (joinLines (l :: ls)) = joinLines ((l :: ls).map (indent pad)) := by
  induction ls generalizing l with
  | nil => simp [joinLines]
  | cons m ms ih =>
      have hrest := ih (l := m) fun x hx => h x (List.mem_cons_of_mem l hx)
      unfold joinLines at hrest ⊢
      rw [List.intercalate_cons_cons, List.append_assoc, List.singleton_append,
        indent_append_newline pad (h l (by simp)), hrest]
      rw [List.map_cons, List.map_cons, List.map_cons, List.intercalate_cons_cons, List.append_assoc]
      rfl

theorem mem_indent {pad t : Text} {c : Char} (h : c ∈ indent pad t) : c ∈ pad ∨ c ∈ t := by
  rw [indent_eq] at h
  obtain ⟨l, hl, hc⟩ := List.mem_flatMap.mp h
  have ht : ∀ d ∈ l, d ∈ t := by
    intro d hd
    rw [← flatten_linesWithEnds t]
    exact List.mem_flatten.mpr ⟨l, hl, hd⟩
  unfold indentPiece at hc
  split at hc
  · exact .inr (ht c hc)
  · exact (List.mem_append.mp hc).imp id (ht c)

/-- Indented lines are lines again. -/
theorem newline_notMem_indent {pad x : Text} (hpad : '\n' ∉ pad) (hx : '\n' ∉ x) :
    '\n' ∉ indent pad x :=
  fun hmem => (mem_indent hmem).elim hpad hx

theorem fieldsAt_indent {pad l : Text} {ls : List Text} (hpad : '\n' ∉ pad)
    (h : ∀ m ∈ l :: ls, '\n' ∉ m) :
    fieldsAt '\n' (joinLines ((l :: ls).map (indent pad))) = (l :: ls).map (indent pad) := by
  refine fieldsAt_intercalate fun m hm => ?_
  rw [← List.map_cons] at hm
  obtain ⟨x, hx, rfl⟩ := List.mem_map.mp hm
  exact newline_notMem_indent hpad (h x hx)

/-! ## Steady lines -/

/-- A line between newlines that is empty, or that holds something before its first break and nothing
    behind it. -/
def Steady (f : Text) : Prop :=
  f = [] ∨ (¬∀ c ∈ f, isBlank c = true) ∧
    ∀ u c v, f = u ++ c :: v → isBreak c = true → ∀ d ∈ v, isBlank d = true

/-- All lines but the last end in a break. -/
theorem linesWithEnds_break {t l : Text} {b ls : List Text} (h : linesWithEnds t = b ++ l :: ls)
    (hne : ls ≠ []) : ∃ u c, l = u ++ [c] ∧ isBreak c = true := by
  fun_induction linesWithEnds t generalizing b l with
  | case1 => simp at h
  | case2 rest ih =>
      cases b with
      | nil =>
          injection h with hl _
          exact ⟨['\r'], '\n', hl.symm, by decide⟩
      | cons x b =>
          injection h with _ h
          exact ih h
  | case3 c rest _ hc ih =>
      cases b with
      | nil =>
          injection h with hl _
          exact ⟨[], c, hl.symm, hc⟩
      | cons x b =>
          injection h with _ h
          exact ih h
  | case4 c rest _ _ ih =>
      cases hm : linesWithEnds rest with
      | nil =>
          rw [hm] at h
          cases b with
          | nil => injection h with _ hls; exact absurd hls.symm hne
          | cons x b => simp [consFirst] at h
      | cons m ms =>
          rw [hm] at h ih
          cases b with
          | nil =>
              injection h with hl hls
              -- the line goes on in the rest, so its end is found there
              obtain ⟨u, d, hu, hd⟩ := ih (l := m) (b := []) (by rw [hls]; rfl)
              exact ⟨c :: u, d, by rw [← hl, hu]; rfl, hd⟩
          | cons x b =>
              injection h with _ hms
              exact ih (b := m :: b) (by rw [hms]; rfl)

theorem flatMap_indentPiece_blank {pad : Text} {ls : List Text}
    (h : ∀ l ∈ ls, ∀ c ∈ l, isBlank c = true) : ls.flatMap (indentPiece pad) = ls.flatten := by
  induction ls with
  | nil => rfl
  | cons l ls ih =>
      have hl : l.all isBlank = true := List.all_eq_true.mpr (h l (by simp))
      rw [List.flatMap_cons, List.flatten_cons, ih fun m hm => h m (by simp [hm]), indentPiece,
        if_pos hl]

/-- A steady line that is not empty is indented once. -/
theorem indent_steady (pad : Text) {f : Text} (hs : Steady f) (hne : f ≠ []) :
    indent pad f = pad ++ f := by
  obtain ⟨hsolid, hbreak⟩ := hs.resolve_left hne
  cases hf : linesWithEnds f with
  | nil => exact absurd hf (linesWithEnds_ne_nil hne)
  | cons l ls =>
      have hflat := flatten_linesWithEnds f
      rw [hf, List.flatten_cons] at hflat
      -- the first line ends in a break, and behind a break all is blank
      have hrest : ∀ c ∈ ls.flatten, isBlank c = true := by
        cases ls with
        | nil => simp
        | cons m ms =>
            obtain ⟨u, b, rfl, hb⟩ := linesWithEnds_break (b := []) hf (by simp)
            exact hbreak u b _ (by rw [← hflat]; simp) hb
      have hl : l.all isBlank = false := by
        rw [Bool.eq_false_iff]
        intro hall
        refine hsolid fun c hc => ?_
        rw [← hflat, List.mem_append] at hc
        exact hc.elim (List.all_eq_true.mp hall c) (hrest c)
      rw [indent_eq, hf, List.flatMap_cons, indentPiece, if_neg (by simp [hl]),
        flatMap_indentPiece_blank fun m hm c hc => hrest c (List.mem_flatten.mpr ⟨m, hm, hc⟩),
        List.append_assoc, hflat]

/-! ## Margins -/

theorem commonStart_isPrefix (a b : Text) : commonStart a b <+: a := by
  induction a generalizing b with
  | nil => cases b <;> exact List.nil_prefix
  | cons c a ih =>
      cases b with
      | nil => exact List.nil_prefix
      | cons d b =>
          rw [commonStart]
          split
          · exact List.cons_prefix_cons.mpr ⟨rfl, ih b⟩
          · exact List.nil_prefix

theorem commonStart_of_isPrefix {a b : Text} (h : a <+: b) : commonStart a b = a := by
  induction a generalizing b with
  | nil => cases b <;> rfl
  | cons c a ih =>
      cases b with
      | nil => simp at h
      | cons d b =>
          rw [List.cons_prefix_cons] at h
          rw [commonStart, if_pos h.1, ih h.2]

theorem foldl_commonStart_isPrefix (m : Text) (ms : List Text) : ms.foldl commonStart m <+: m := by
  induction ms generalizing m with
  | nil => exact List.prefix_rfl
  | cons a ms ih => exact (ih _).trans (commonStart_isPrefix m a)

theorem foldl_commonStart_of_isPrefix {m : Text} {ms : List Text} (h : ∀ a ∈ ms, m <+: a) :
    ms.foldl commonStart m = m := by
  induction ms with
  | nil => rfl
  | cons a ms ih =>
      rw [List.foldl_cons, commonStart_of_isPrefix (h a (by simp)), ih fun b hb => h b (by simp [hb])]

/-- Where the first line is indented by exactly a pad, and the others by at least it, the pad is what
    they share. -/
theorem margin_eq {pad : Text} {l : Text} {ls : List Text} (hl : l.all isGap = false)
    (hpad : l.takeWhile isGap = pad)
    (hls : ∀ m ∈ ls, m.all isGap = false → pad <+: m.takeWhile isGap) : margin (l :: ls) = pad := by
  unfold margin
  rw [List.filter_cons_of_pos (by simp [hl]), List.map_cons, hpad]
  refine foldl_commonStart_of_isPrefix fun a ha => ?_
  obtain ⟨m, hm, rfl⟩ := List.mem_map.mp ha
  obtain ⟨hmem, hgap⟩ := List.mem_filter.mp hm
  exact hls m hmem (by simpa using hgap)

/-! ## Both -/

/-- The line that is left when the indentation is taken off. -/
def dedentLine (width : Nat) (l : Text) : Text := if l.all isGap then [] else l.drop width

theorem dedent_eq (t : Text) :
    dedent t = joinLines ((fieldsAt '\n' t).map (dedentLine (margin (fieldsAt '\n' t)).length)) := rfl

theorem dedentLine_suffix (width : Nat) (l : Text) : dedentLine width l <:+ l := by
  unfold dedentLine
  split
  · exact List.nil_suffix
  · exact List.drop_suffix width l

/-- Taking the indentation off brings no pattern about. -/
theorem occursIn_dedent {pattern : Text} (hn : '\n' ∉ pattern) (hne : pattern ≠ []) {t : Text}
    (h : occursIn pattern t = false) : occursIn pattern (dedent t) = false := by
  rw [dedent_eq]
  refine occursIn_joinLines hn hne fun m hm => ?_
  obtain ⟨f, hf, rfl⟩ := List.mem_map.mp hm
  exact occursIn_of_isInfix ((dedentLine_suffix _ f).isInfix.trans (infix_of_mem_fieldsAt hf)) h

/-- The width by which scripts are indented. -/
def scriptPad : Text := [' ', ' ']

/-- Steady lines, of which the first starts with something, are what indenting them and taking the
    indentation off again leaves. -/
theorem dedent_indent {f : Text} {fs : List Text} (hn : ∀ m ∈ f :: fs, '\n' ∉ m)
    (hs : ∀ m ∈ f :: fs, Steady m) {c : Char} (hhead : f.head? = some c) (hc : isBlank c = false) :
    dedent (indent scriptPad (joinLines (f :: fs))) = joinLines (f :: fs) := by
  have hline : ∀ m ∈ f :: fs, m ≠ [] → indent scriptPad m = scriptPad ++ m ∧
      (scriptPad ++ m).all isGap = false := by
    intro m hm hne
    refine ⟨indent_steady _ (hs m hm) hne, ?_⟩
    rw [Bool.eq_false_iff]
    intro hall
    refine ((hs m hm).resolve_left hne).1 fun d hd => isBlank_of_isGap ?_
    exact List.all_eq_true.mp hall d (List.mem_append_right _ hd)
  have hempty : indent scriptPad [] = [] := rfl
  have hf : f ≠ [] := by rintro rfl; simp at hhead
  have hgap : isGap c = false := isGap_of_solid hc
  -- the first line starts with something, so the margin is the pad and no more
  have hmargin : margin ((f :: fs).map (indent scriptPad)) = scriptPad := by
    rw [List.map_cons]
    have hfirst := hline f (by simp) hf
    refine margin_eq (by rw [hfirst.1, hfirst.2]) ?_ ?_
    · obtain ⟨d, r, rfl⟩ := List.exists_cons_of_ne_nil hf
      obtain rfl : d = c := by simpa using hhead
      rw [hfirst.1]
      exact takeWhile_append_stop (by decide) hgap
    · intro m hm hall
      obtain ⟨x, hx, rfl⟩ := List.mem_map.mp hm
      have hne : x ≠ [] := by
        rintro rfl
        rw [hempty] at hall
        simp at hall
      rw [(hline x (by simp [hx]) hne).1, List.takeWhile_append_of_pos (by decide)]
      exact List.prefix_append _ _
  rw [indent_joinLines _ hn, dedent_eq, fieldsAt_indent (by decide) hn, hmargin, List.map_map]
  congr 1
  refine (List.map_congr_left fun m hm => ?_).trans (List.map_id _)
  show dedentLine 2 (indent scriptPad m) = m
  by_cases hne : m = []
  · rw [hne, hempty]
    rfl
  · rw [(hline m hm hne).1, dedentLine, if_neg (by simp [(hline m hm hne).2])]
    rfl

/-! ## Only steady lines come back -/

theorem getLast?_indentPiece (pad l : Text) : (indentPiece pad l).getLast? = l.getLast? := by
  unfold indentPiece
  split
  · rfl
  · next h =>
      cases l with
      | nil => exact absurd rfl h
      | cons c l => rw [List.getLast?_append, List.getLast?_cons]; rfl

/-- Indenting keeps the last character. -/
theorem getLast?_indent (pad t : Text) : (indent pad t).getLast? = t.getLast? := by
  have pieces : ∀ ls : List Text, (ls.flatMap (indentPiece pad)).getLast? = ls.flatten.getLast? := by
    intro ls
    induction ls with
    | nil => rfl
    | cons l ls ih =>
        rw [List.flatMap_cons, List.flatten_cons, List.getLast?_append, List.getLast?_append, ih,
          getLast?_indentPiece]
  rw [indent_eq, pieces, flatten_linesWithEnds]

/-- Every line that holds something makes the indented text longer. -/
theorem length_indentPieces (pad : Text) (ls : List Text) :
    ls.flatten.length ≤ (ls.flatMap (indentPiece pad)).length ∧
      ((∃ l ∈ ls, l.all isBlank = false) →
        ls.flatten.length + pad.length ≤ (ls.flatMap (indentPiece pad)).length) := by
  induction ls with
  | nil => simp
  | cons l ls ih =>
      obtain ⟨hle, hmore⟩ := ih
      rw [List.flatten_cons, List.flatMap_cons, List.length_append, List.length_append]
      cases hl : l.all isBlank with
      | true =>
          rw [indentPiece, if_pos hl]
          refine ⟨by omega, fun ⟨m, hm, hb⟩ => ?_⟩
          rcases List.mem_cons.mp hm with rfl | hm
          · rw [hl] at hb; simp at hb
          · have := hmore ⟨m, hm, hb⟩
            omega
      | false =>
          rw [indentPiece, if_neg (by simp [hl]), List.length_append]
          exact ⟨by omega, fun _ => by omega⟩

/-- Lines that do not grow hold nothing. -/
theorem blank_of_length {pad : Text} (hp : pad ≠ []) {ls : List Text}
    (h : (ls.flatMap (indentPiece pad)).length ≤ ls.flatten.length) :
    ∀ l ∈ ls, ∀ c ∈ l, isBlank c = true := by
  intro l hl
  by_contra hno
  have hlen := (length_indentPieces pad ls).2 ⟨l, hl, by simpa using hno⟩
  have hpos := List.length_pos_iff.mpr hp
  omega

theorem length_indent_of_solid (pad : Text) {t : Text} (h : ¬∀ c ∈ t, isBlank c = true) :
    t.length + pad.length ≤ (indent pad t).length := by
  have hlen := (length_indentPieces pad (linesWithEnds t)).2
  rw [flatten_linesWithEnds, ← indent_eq] at hlen
  refine hlen ?_
  by_contra hno
  refine h fun c hc => ?_
  rw [← flatten_linesWithEnds t] at hc
  obtain ⟨l, hl, hcl⟩ := List.mem_flatten.mp hc
  by_contra hb
  refine hno ⟨l, hl, ?_⟩
  rw [List.all_eq_false]
  exact ⟨c, hcl, by simpa using hb⟩

/-- What stands behind a character of a text that is one character long. -/
theorem behind_of_singleton {d c : Char} {u v : Text} (h : [d] = u ++ c :: v) : v = [] := by
  rcases List.singleton_eq_append_iff.mp h with ⟨-, hv⟩ | ⟨-, hv⟩
  · exact (List.cons.inj hv).2
  · exact absurd hv (List.cons_ne_nil c v)

/-- Where there are no newlines, a line has a break at its end only. -/
theorem break_at_end {t l : Text} {ls : List Text} (hn : '\n' ∉ t) (h : linesWithEnds t = l :: ls)
    {u v : Text} {c : Char} (hl : l = u ++ c :: v) (hc : isBreak c = true) : v = [] := by
  fun_induction linesWithEnds t generalizing l ls u with
  | case1 => simp at h
  | case2 rest ih => simp at hn
  | case3 d rest _ hd ih =>
      injection h with h _
      exact behind_of_singleton (h.trans hl)
  | case4 d rest _ hd ih =>
      have hnr : '\n' ∉ rest := fun hm => hn (List.mem_cons_of_mem d hm)
      cases hm : linesWithEnds rest with
      | nil =>
          rw [hm] at h
          injection h with h _
          exact behind_of_singleton (h.trans hl)
      | cons m ms =>
          rw [hm] at h
          injection h with h _
          rw [← h] at hl
          -- the line starts with a character that is no break, so the break is further on
          cases u with
          | nil =>
              injection hl with hdc _
              exact absurd (hdc ▸ hc) hd
          | cons e u =>
              injection hl with _ hmu
              exact ih hnr hm hmu

/-- A text whose first line holds something and whose other lines hold nothing is steady. -/
theorem steady_of_lines {t l : Text} {ls : List Text} (hn : '\n' ∉ t)
    (h : linesWithEnds t = l :: ls) (hl : l.all isBlank = false)
    (hls : ∀ m ∈ ls, ∀ c ∈ m, isBlank c = true) : Steady t := by
  have hflat := flatten_linesWithEnds t
  rw [h, List.flatten_cons] at hflat
  have hrest : ∀ c ∈ ls.flatten, isBlank c = true := by
    intro c hc
    obtain ⟨m, hm, hcm⟩ := List.mem_flatten.mp hc
    exact hls m hm c hcm
  refine .inr ⟨fun hall => ?_, fun u c v ht hc d hd => ?_⟩
  · rw [List.all_eq_false] at hl
    obtain ⟨c, hc, hb⟩ := hl
    exact hb (hall c (by rw [← hflat]; simp [hc]))
  · rw [ht] at hflat
    rcases List.append_eq_append_iff.mp hflat with ⟨a, -, hr⟩ | ⟨a, hl', hr⟩
    · refine hrest d ?_
      rw [hr]
      simp [hd]
    · cases a with
      | nil =>
          refine hrest d ?_
          rw [List.nil_append] at hr
          rw [← hr]
          simp [hd]
      | cons e a =>
          rw [List.cons_append] at hr
          injection hr with hce hv
          subst hce
          obtain rfl := break_at_end hn h hl' hc
          rw [List.nil_append] at hv
          exact hrest d (hv ▸ hd)

/-- A line that comes back when it is indented and the indentation is taken off is steady. -/
theorem steady_of_dedentLine {x : Text} (hn : '\n' ∉ x)
    (h : dedentLine 2 (indent scriptPad x) = x) : Steady x := by
  by_cases hne : x = []
  · exact .inl hne
  have hdrop : (indent scriptPad x).drop 2 = x := by
    unfold dedentLine at h
    split at h
    · exact absurd h.symm hne
    · exact h
  have hflat := flatten_linesWithEnds x
  -- the lines that hold nothing in front of the first that holds something
  have hsplit := (List.takeWhile_append_dropWhile (l := linesWithEnds x) (p := fun l => l.all isBlank)).symm
  have hblank : ∀ l ∈ (linesWithEnds x).takeWhile (fun l => l.all isBlank), ∀ c ∈ l, isBlank c = true := by
    intro l hl
    have hall := List.mem_takeWhile_imp hl
    exact List.all_eq_true.mp hall
  cases hrest : (linesWithEnds x).dropWhile (fun l => l.all isBlank) with
  | nil =>
      rw [hrest, List.append_nil] at hsplit
      rw [indent_eq, flatMap_indentPiece_blank (hsplit ▸ hblank), hflat] at hdrop
      have hlen := congrArg List.length hdrop
      have hpos := List.length_pos_iff.mpr hne
      rw [List.length_drop] at hlen
      omega
  | cons l ls =>
      have hl := dropWhile_cons_stop hrest
      rw [hrest] at hsplit
      generalize (linesWithEnds x).takeWhile (fun l => l.all isBlank) = bs at hsplit hblank
      have hx : bs.flatten ++ (l ++ ls.flatten) = x := by
        rw [← hflat, hsplit]
        simp
      have hindent : indent scriptPad x =
          bs.flatten ++ scriptPad ++ (l ++ ls.flatMap (indentPiece scriptPad)) := by
        rw [indent_eq, hsplit, List.flatMap_append, flatMap_indentPiece_blank hblank,
          List.flatMap_cons, indentPiece, if_neg (by simp [hl])]
        simp
      have htwo : scriptPad.length = 2 := rfl
      have hlen := congrArg List.length hdrop
      rw [hindent, ← hx] at hlen
      simp only [List.length_drop, List.length_append, htwo] at hlen
      have hls : ∀ m ∈ ls, ∀ c ∈ m, isBlank c = true :=
        blank_of_length (by decide : scriptPad ≠ []) (by omega)
      rcases List.eq_nil_or_concat bs with rfl | ⟨init, a, rfl⟩
      · exact steady_of_lines hn hsplit hl hls
      · -- the pad would stand where the break of the line before it does
        exfalso
        rw [List.concat_eq_append] at hindent hx hsplit
        rw [List.append_assoc] at hsplit
        obtain ⟨u, c, rfl, hc⟩ := linesWithEnds_break hsplit (by simp)
        have hbs : (init ++ [u ++ [c]]).flatten = init.flatten ++ u ++ [c] := by simp
        rw [hindent, flatMap_indentPiece_blank hls, ← hx, hbs,
          List.drop_append_of_le_length (by simp [htwo]; omega), List.append_left_inj] at hdrop
        have hlast := congrArg List.getLast? hdrop
        rw [List.getLast?_drop, if_neg (by simp [htwo]; omega)] at hlast
        obtain rfl : ' ' = c := by simpa [scriptPad] using hlast
        exact absurd hc (by decide)

/-- Lines joined end in their last line, behind a newline unless it is the only one. -/
theorem joinLines_concat (ls : List Text) (z : Text) :
    joinLines (ls ++ [z]) = z ∨ ∃ w, joinLines (ls ++ [z]) = w ++ '\n' :: z := by
  cases ls with
  | nil => exact .inl (by simp [joinLines])
  | cons l ls =>
      refine .inr ⟨joinLines (l :: ls), ?_⟩
      rw [List.cons_append, joinLines_cons, joinLines_cons]
      simp

/-- Joined lines end as the last of them does. -/
theorem getLast?_joinLines {z : Text} {d : Char} (hz : z.getLast? = some d) (ls : List Text) :
    (joinLines (ls ++ [z])).getLast? = some d := by
  rcases joinLines_concat ls z with hw | ⟨w, hw⟩
  · rw [hw, hz]
  · rw [hw, List.getLast?_append, List.getLast?_cons, hz]
    rfl

/-- Lines of which the first starts with something and the last ends with something are trimmed. -/
theorem trimmed_joinLines {c d : Char} {y : Text} {ls : List Text} (hc : isBlank c = false)
    (hd : isBlank d = false) (hlast : ∀ z, ((c :: y) :: ls).getLast? = some z → z.getLast? = some d) :
    Trimmed (joinLines ((c :: y) :: ls)) := by
  rw [trimmed_iff]
  constructor
  · intro x hx
    rw [joinLines_cons] at hx
    obtain rfl : c = x := by simpa using hx
    exact hc
  · intro x hx
    obtain ⟨init, z, hz⟩ := (List.eq_nil_or_concat ((c :: y) :: ls)).resolve_left (List.cons_ne_nil _ _)
    rw [List.concat_eq_append] at hz
    have hzd := hlast z (by rw [hz, List.getLast?_concat])
    rw [hz, getLast?_joinLines hzd] at hx
    exact Option.some.inj hx ▸ hd

/-- Lines that are the same when they are joined are the same lines. -/
theorem joinLines_inj {l m : Text} {ls ms : List Text} (hl : ∀ x ∈ l :: ls, '\n' ∉ x)
    (hm : ∀ x ∈ m :: ms, '\n' ∉ x) (h : joinLines (l :: ls) = joinLines (m :: ms)) :
    l :: ls = m :: ms := by
  rw [← fieldsAt_intercalate hl, ← fieldsAt_intercalate hm]
  exact congrArg (fieldsAt '\n') h

/-- Of a line that ends with something, the width is taken off and nothing else. -/
theorem dedentLine_of_last {l : Text} {d : Char} (hl : l.getLast? = some d) (hd : isBlank d = false)
    (width : Nat) : dedentLine width l = l.drop width := by
  rw [dedentLine, if_neg]
  intro hall
  have hgap := List.all_eq_true.mp hall d (List.mem_of_getLast? hl)
  rw [isGap_of_solid hd] at hgap
  cases hgap

theorem length_indent_of_last (pad : Text) {z : Text} {d : Char} (hz : z.getLast? = some d)
    (hd : isBlank d = false) : z.length + pad.length ≤ (indent pad z).length := by
  refine length_indent_of_solid pad fun hall => ?_
  rw [hall d (List.mem_of_getLast? hz)] at hd
  simp at hd

/-- A line that starts with something is indented at its start. -/
theorem indent_cons_solid (pad : Text) {c : Char} (hc : isBlank c = false) (hb : isBreak c = false)
    (r : Text) : ∃ y, indent pad (c :: r) = pad ++ c :: y := by
  rw [indent_eq, linesWithEnds_cons hb]
  cases linesWithEnds r with
  | nil =>
      refine ⟨[], ?_⟩
      simp [consFirst, indentPiece, hc]
  | cons l ls =>
      refine ⟨l ++ ls.flatMap (indentPiece pad), ?_⟩
      simp [consFirst, indentPiece, hc]

/-- The margin of lines of which the first is indented by a pad is at most that pad. -/
theorem margin_isPrefix {pad l : Text} (hl : l.all isGap = false) (hpad : l.takeWhile isGap = pad)
    (ls : List Text) : margin (l :: ls) <+: pad := by
  unfold margin
  rw [List.filter_cons_of_pos (by simp [hl]), List.map_cons, hpad]
  exact foldl_commonStart_isPrefix pad _

/-- An indented line that ends with something ends with it still when no more than the pad is taken
    off. -/
theorem getLast?_dedentLine_indent {z : Text} {d : Char} (hz : z.getLast? = some d)
    (hd : isBlank d = false) {width : Nat} (hw : width ≤ 2) :
    (dedentLine width (indent scriptPad z)).getLast? = some d := by
  have hlast := (getLast?_indent scriptPad z).trans hz
  have hlen : z.length + 2 ≤ (indent scriptPad z).length := length_indent_of_last scriptPad hz hd
  have hpos := List.length_pos_iff.mpr (List.ne_nil_of_mem (List.mem_of_getLast? hz))
  rw [dedentLine_of_last hlast hd, List.getLast?_drop, if_neg (by omega), hlast]

/-- A line that ends with something comes back only if all of the pad is taken off. -/
theorem two_le_of_dedentLine_indent {z : Text} {d : Char} (hz : z.getLast? = some d)
    (hd : isBlank d = false) {width : Nat} (h : dedentLine width (indent scriptPad z) = z) :
    2 ≤ width := by
  have hlen : z.length + 2 ≤ (indent scriptPad z).length := length_indent_of_last scriptPad hz hd
  rw [dedentLine_of_last ((getLast?_indent scriptPad z).trans hz) hd] at h
  have hdrop := congrArg List.length h
  rw [List.length_drop] at hdrop
  omega

/-- Lines come back only if each is steady. The first starts with something and the last ends with
    something, so neither end of the text is trimmed by more than the pad. -/
theorem steady_of_strip_dedent_indent {c d : Char} {r : Text} {fs : List Text}
    (hn : ∀ m ∈ (c :: r) :: fs, '\n' ∉ m) (hc : isBlank c = false) (hcb : isBreak c = false)
    (hd : isBlank d = false) (hlast : ∀ z, ((c :: r) :: fs).getLast? = some z → z.getLast? = some d)
    (h : strip (dedent (indent scriptPad (joinLines ((c :: r) :: fs)))) = joinLines ((c :: r) :: fs)) :
    ∀ f ∈ (c :: r) :: fs, Steady f := by
  have hgap : isGap c = false := isGap_of_solid hc
  obtain ⟨y, hy⟩ := indent_cons_solid scriptPad hc hcb r
  have hfirst : (indent scriptPad (c :: r)).all isGap = false := by
    rw [hy]
    simp [hgap]
  have hstart : (indent scriptPad (c :: r)).takeWhile isGap = scriptPad := by
    rw [hy]
    exact takeWhile_append_stop (by decide) hgap
  -- the margin of the indented lines is taken off; it is at most the pad of the first
  have hmargin := margin_isPrefix hfirst hstart (fs.map (indent scriptPad))
  rw [indent_joinLines _ hn, dedent_eq, fieldsAt_indent (by decide) hn, List.map_cons] at h
  generalize hm : margin (indent scriptPad (c :: r) :: fs.map (indent scriptPad)) = pad at h hmargin
  have hwidth : pad.length ≤ 2 := hmargin.length_le
  have hdrop : dedentLine pad.length (indent scriptPad (c :: r)) =
      scriptPad.drop pad.length ++ c :: y := by
    rw [dedentLine, if_neg (by simp [hfirst]), hy, List.drop_append_of_le_length hwidth]
  rw [List.map_cons, hdrop, joinLines_cons, List.append_assoc, ← joinLines_cons, List.map_map] at h
  have hfs : ∀ init z, fs = init ++ [z] → z.getLast? = some d := by
    rintro init z rfl
    exact hlast z (by rw [← List.cons_append, List.getLast?_concat])
  -- both ends are solid, so of what is left only the rest of the first pad is stripped
  have hends : ∀ z, ((c :: y) :: fs.map (dedentLine pad.length ∘ indent scriptPad)).getLast? = some z →
      z.getLast? = some d := by
    intro z hz
    rcases List.eq_nil_or_concat fs with rfl | ⟨init, w, hcat⟩
    · obtain rfl : c :: y = z := by simpa using hz
      have hl := (getLast?_indent scriptPad (c :: r)).trans (hlast (c :: r) rfl)
      rw [hy, List.getLast?_append, List.getLast?_cons] at hl
      rw [List.getLast?_cons]
      exact hl
    · rw [List.concat_eq_append] at hcat
      rw [hcat, List.map_append, ← List.cons_append, List.map_singleton, List.getLast?_concat] at hz
      rw [← Option.some.inj hz]
      exact getLast?_dedentLine_indent (hfs init w hcat) hd hwidth
  have hpad : ∀ x ∈ scriptPad.drop pad.length, isBlank x = true := fun x hx =>
    (by decide : ∀ x ∈ scriptPad, isBlank x = true) x (List.mem_of_mem_drop hx)
  have hstrip := (trimmed_joinLines hc hd hends).strip_append (u := scriptPad.drop pad.length) (v := [])
    hpad (by simp)
  rw [List.append_nil, h] at hstrip
  -- so the lines are those that were indented, one by one
  have hnewline : ∀ m ∈ (c :: r) :: fs, '\n' ∉ indent scriptPad m := fun m hm =>
    newline_notMem_indent (by decide) (hn m hm)
  have hleft : ∀ m ∈ (c :: y) :: fs.map (dedentLine pad.length ∘ indent scriptPad), '\n' ∉ m := by
    intro m hmem
    rcases List.mem_cons.mp hmem with rfl | hmem
    · have hny := hnewline (c :: r) List.mem_cons_self
      rw [hy] at hny
      exact fun hin => hny (List.mem_append_right _ hin)
    · obtain ⟨f, hf, rfl⟩ := List.mem_map.mp hmem
      exact fun hin => hnewline f (List.mem_cons_of_mem _ hf) ((dedentLine_suffix _ _).subset hin)
  obtain ⟨hry, hsame⟩ := List.cons.inj (joinLines_inj hn hleft hstrip)
  have hback : ∀ x ∈ fs, dedentLine pad.length (indent scriptPad x) = x := by
    have hid : fs.map (dedentLine pad.length ∘ indent scriptPad) = fs.map id := by
      rw [← hsame, List.map_id]
    exact List.map_inj_left.mp hid
  -- the last line came back, so the margin is the whole pad
  have htwo : pad.length = 2 := by
    rcases List.eq_nil_or_concat fs with rfl | ⟨init, z, hcat⟩
    · rw [← hm, List.map_nil, margin_eq hfirst hstart (by simp)]
      rfl
    · rw [List.concat_eq_append] at hcat
      have hz := hback z (by rw [hcat]; simp)
      exact Nat.le_antisymm hwidth (two_le_of_dedentLine_indent (hfs init z hcat) hd hz)
  intro f hf
  rw [htwo] at hback hdrop
  refine steady_of_dedentLine (hn f hf) ?_
  rcases List.mem_cons.mp hf with rfl | hf
  · rw [hdrop, ← hry]
    rfl
  · exact hback f hf

/-- **A trimmed text comes back from being indented exactly when its lines are steady.** -/
theorem strip_dedent_indent_iff {code : Text} (ht : Trimmed code) :
    strip (dedent (indent scriptPad code)) = code ↔ ∀ f ∈ fieldsAt '\n' code, Steady f := by
  cases code with
  | nil => exact ⟨fun _ f hf => .inl (by simpa [fieldsAt] using hf), fun _ => by decide⟩
  | cons c rest =>
      have hc : isBlank c = false := ht.head rfl
      cases hf : fieldsAt '\n' (c :: rest) with
      | nil => exact absurd hf (fieldsAt_ne_nil _ _)
      | cons f fs =>
          have hn : ∀ m ∈ f :: fs, '\n' ∉ m := fun m hm => notMem_of_mem_fieldsAt (hf ▸ hm)
          have hjoin : joinLines (f :: fs) = c :: rest := by rw [← hf]; exact join_fieldsAt _ _
          have hcn : c ≠ '\n' := by
            rintro rfl
            exact absurd hc (by decide)
          obtain ⟨g, rfl⟩ : ∃ g, f = c :: g := by
            cases hr : fieldsAt '\n' rest with
            | nil => exact absurd hr (fieldsAt_ne_nil _ _)
            | cons g gs =>
                rw [fieldsAt_cons_of_ne hcn hr] at hf
                injection hf with hf _
                exact ⟨g, hf.symm⟩
          have hhead : (c :: g).head? = some c := rfl
          constructor
          · intro h
            rw [← hjoin] at h
            have hsome := List.getLast?_eq_some_getLast (l := c :: rest) (by simp)
            refine steady_of_strip_dedent_indent hn hc (isBreak_of_solid hc) (ht.last hsome) ?_ h
            intro z hz
            obtain ⟨init, hinit⟩ := List.getLast?_eq_some_iff.mp hz
            rw [← hsome, ← hjoin, hinit]
            rcases joinLines_concat init z with hw | ⟨w, hw⟩
            · rw [hw]
            · rw [hw, List.getLast?_append]
              cases z with
              | nil =>
                  -- a trimmed text does not end in a newline
                  rw [hinit, hw] at hjoin
                  have hnl : (c :: rest).getLast? = some '\n' := by rw [← hjoin]; simp
                  exact absurd (ht.last hnl) (by decide)
              | cons e z => rw [List.getLast?_cons_cons, List.getLast?_cons]; rfl
          · intro hs
            rw [← hjoin, dedent_indent hn hs hhead hc, hjoin]
            exact ht

end HttpFile.Text
