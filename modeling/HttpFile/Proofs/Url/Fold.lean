import HttpFile.Proofs.Syntax.Lexeme
import HttpFile.Url

/-!
# `HttpFile.Proofs.Url.Fold` — targets, and what folding makes of them

A target is a word without blanks on its first line and, on each further line, a gap and a word that
opens with a question mark or an ampersand. Folding keeps that shape. It depends on the flattened
target only, and the flattened form of a folded target folds to the same lines again.

## Contents
- **Shape.** `Continues`, `target?_shape`, `target?_lines`.
- **Flattening.** `flat_joinLines`, `flat_of_solid`.
- **Folding.** `foldFlat`, `fold_cases`, `fold_fold`, `target?_fold`.
- **Marks.** `occursIn_fold`: folding does not put the closing mark of a script together.
-/

namespace HttpFile.Text

open Unicode

theorem lines_cons {c : Char} (hc : isBreak c = false) (t : Text) :
    lines (c :: t) = consFirst c (lines t) := by
  have hr : c ≠ '\r' := by
    rintro rfl
    exact absurd hc (by decide)
  rw [lines]
  · rw [if_neg (by simp [hc])]
  · intro rest hcr
    exact absurd hcr hr

/-- Free text has the lines that its newlines make where no other break stands. -/
theorem lines_append_newline {u : Text} (hu : ∀ c ∈ u, isBreak c = false) (t : Text) :
    lines (u ++ '\n' :: t) = u :: lines t := by
  induction u with
  | nil =>
      rw [List.nil_append, lines]
      · rfl
      · intro rest h
        exact absurd h (by decide)
  | cons c u ih =>
      rw [List.cons_append, lines_cons (hu c (by simp)), ih fun d hd => hu d (by simp [hd])]
      rfl

theorem lines_eq_singleton {u : Text} (hu : ∀ c ∈ u, isBreak c = false) (hne : u ≠ []) :
    lines u = [u] := by
  induction u with
  | nil => exact absurd rfl hne
  | cons c u ih =>
      rw [lines_cons (hu c (by simp))]
      cases u with
      | nil => rfl
      | cons d u =>
          rw [ih (fun x hx => hu x (by simp [hx])) (by simp)]
          rfl

/-- Lines that hold no break, of which the last is not empty, are the lines of their join. -/
theorem lines_joinLines {l : Text} {ls : List Text} (h : ∀ m ∈ l :: ls, ∀ c ∈ m, isBreak c = false)
    (hne : ∀ m ∈ (l :: ls).getLast?, m ≠ []) : lines (joinLines (l :: ls)) = l :: ls := by
  induction ls generalizing l with
  | nil =>
      have hl : l ≠ [] := hne l (by simp)
      have := lines_eq_singleton (h l (by simp)) hl
      simpa [joinLines] using this
  | cons m ms ih =>
      have hrest := ih (l := m) (fun x hx => h x (List.mem_cons_of_mem l hx))
        (fun x hx => hne x (by simpa using hx))
      unfold joinLines at hrest ⊢
      rw [List.intercalate_cons_cons, List.append_assoc, List.singleton_append,
        lines_append_newline (h l (by simp)), hrest]

end HttpFile.Text

namespace HttpFile.Syntax

open Text Unicode

/-! ## Shape -/

/-- A line that continues a target: a gap, and a word behind a question mark or an ampersand. -/
def Continues (line : Text) : Prop :=
  ∃ g c x, g ≠ [] ∧ (∀ y ∈ g, isGap y = true) ∧ (c = '?' ∨ c = '&') ∧ Solid x ∧ line = g ++ c :: x

theorem isBlank_mark {c : Char} (hc : c = '?' ∨ c = '&') : isBlank c = false := by
  rcases hc with rfl | rfl <;> decide

theorem targetTail_solid {w : Text} (hw : Solid w) (rest : Text) :
    targetTail false (w ++ rest) = w ++ targetTail false rest := by
  induction w with
  | nil => rfl
  | cons c w ih =>
      have hc : isBlank c = false := hw c (by simp)
      rw [List.cons_append, targetTail, if_neg (by simp), if_pos (by simp [hc]),
        ih (hw.of_subset (List.subset_cons_self c w))]
      rfl

theorem targetTail_gap {g : Text} (hg : ∀ y ∈ g, isGap y = true) {c : Char}
    (hc : isBlank c = false) (rest : Text) :
    targetTail true (g ++ c :: rest) = g ++ c :: targetTail false rest := by
  induction g with
  | nil =>
      rw [List.nil_append, targetTail, if_neg (by simp [isGap_of_solid hc]), if_pos (by simp [hc])]
      rfl
  | cons d g ih =>
      have hd : isGap d = true := hg d (by simp)
      rw [List.cons_append, targetTail, if_pos (by simp [hd]), ih fun y hy => hg y (by simp [hy])]
      rfl

theorem continuesTarget_append {g : Text} (hne : g ≠ []) (hg : ∀ y ∈ g, isGap y = true) {c : Char}
    (hc : c = '?' ∨ c = '&') (rest : Text) : continuesTarget (g ++ c :: rest) = true := by
  have hcg : isGap c = false := isGap_of_solid (isBlank_mark hc)
  unfold continuesTarget
  rw [takeWhile_append_stop hg hcg, dropWhile_append_stop hg hcg]
  cases g with
  | nil => exact absurd rfl hne
  | cons d g => rcases hc with rfl | rfl <;> rfl

/-- The lines that continue a target are read to their end. -/
theorem targetTail_continues {ls : List Text} (hls : ∀ l ∈ ls, Continues l) (rest : Text) :
    targetTail false (ls.flatMap ('\n' :: ·) ++ rest) =
      ls.flatMap ('\n' :: ·) ++ targetTail false rest := by
  induction ls with
  | nil => rfl
  | cons l ls ih =>
      obtain ⟨g, c, x, hne, hg, hc, hx, rfl⟩ := hls l (by simp)
      have hcont := continuesTarget_append hne hg hc (x ++ (ls.flatMap ('\n' :: ·) ++ rest))
      have he : List.flatMap ('\n' :: ·) ((g ++ c :: x) :: ls) ++ rest =
          '\n' :: (g ++ c :: (x ++ (ls.flatMap ('\n' :: ·) ++ rest))) := by
        simp
      rw [he, targetTail, if_neg (by simp), if_neg (by decide), if_pos (by simp [hcont]),
        targetTail_gap hg (isBlank_mark hc), targetTail_solid hx,
        ih fun m hm => hls m (by simp [hm])]
      simp

/-- A target goes on at a mark behind a gap. -/
theorem continuesTarget_shape {t : Text} (h : continuesTarget t = true) :
    t.takeWhile isGap ≠ [] ∧ ∃ c rest, t.dropWhile isGap = c :: rest ∧ (c = '?' ∨ c = '&') := by
  unfold continuesTarget at h
  split at h
  · next a as c rest hgap hrest =>
      refine ⟨by rw [hgap]; simp, c, rest, hrest, ?_⟩
      simpa using h
  · cases h

/-- What is read of a target has its shape; the flag says that a gap is being read. -/
theorem targetTail_shape (t : Text) :
    (∃ (w : Text) (ls : List Text), targetTail false t = w ++ ls.flatMap ('\n' :: ·) ∧ Solid w ∧ ∀ l ∈ ls, Continues l) ∧
    ∀ c rest, t.dropWhile isGap = c :: rest → (c = '?' ∨ c = '&') →
      ∃ (x : Text) (ls : List Text), targetTail true t = t.takeWhile isGap ++ c :: x ++ ls.flatMap ('\n' :: ·) ∧ Solid x ∧
        ∀ l ∈ ls, Continues l := by
  induction t with
  | nil =>
      refine ⟨⟨[], [], rfl, by simp [Solid], by simp⟩, ?_⟩
      intro c rest h
      simp at h
  | cons d t ih =>
      obtain ⟨⟨w, ls, hw, hsolid, hls⟩, hgap⟩ := ih
      constructor
      · rw [targetTail, if_neg (by simp)]
        split
        · next hd =>
            have hd' : isBlank d = false := by simpa using hd
            refine ⟨d :: w, ls, by rw [hw]; rfl, ?_, hls⟩
            intro x hx
            rcases List.mem_cons.mp hx with rfl | hx
            · exact hd'
            · exact hsolid x hx
        · split
          · next hn =>
              rw [Bool.and_eq_true] at hn
              have hnl : d = '\n' := by simpa using hn.1
              -- the line ends here, and the gap that was read starts the next one
              obtain ⟨hne, c, rest, hrest, hc⟩ := continuesTarget_shape hn.2
              obtain ⟨x, ms, hx, hxs, hms⟩ := hgap c rest hrest hc
              refine ⟨[], (t.takeWhile isGap ++ c :: x) :: ms, ?_, by simp [Solid], ?_⟩
              · rw [hx, hnl]
                simp
              · intro l hl
                rcases List.mem_cons.mp hl with rfl | hl
                · exact ⟨t.takeWhile isGap, c, x, hne, fun y hy => List.mem_takeWhile_imp hy, hc, hxs, rfl⟩
                · exact hms l hl
          · exact ⟨[], [], rfl, by simp [Solid], by simp⟩
      · intro c rest hd hc
        cases hg : isGap d with
        | true =>
            rw [List.dropWhile_cons_of_pos hg] at hd
            obtain ⟨x, ms, hx, hxs, hms⟩ := hgap c rest hd hc
            refine ⟨x, ms, ?_, hxs, hms⟩
            rw [targetTail, if_pos (by simp [hg]), hx, List.takeWhile_cons_of_pos hg]
            rfl
        | false =>
            rw [List.dropWhile_cons_of_neg (by simp [hg])] at hd
            injection hd with hdc hrest
            subst hdc
            refine ⟨w, ls, ?_, hsolid, hls⟩
            rw [targetTail, if_neg (by simp [hg]), if_pos (by simp [isBlank_mark hc]), hw,
              List.takeWhile_cons_of_neg (by simp [hg])]
            rfl

/-- A word that may open a target. -/
def OpensTarget (w : Text) : Prop :=
  Solid w ∧ (∀ c, w.head? = some c → "#@<>".toList.contains c = false) ∧ w ≠ [] ∧ ¬['/', '/'] <+: w

/-- A start of the first line is no more than the first line. -/
theorem slashes_isPrefix {w : Text} {ls : List Text}
    (h : ['/', '/'] <+: w ++ ls.flatMap ('\n' :: ·)) : ['/', '/'] <+: w := by
  match w with
  | [] =>
      cases ls with
      | nil => simp at h
      | cons l ls => simp at h
  | [c] =>
      cases ls with
      | nil => simp at h
      | cons l ls => simp at h
  | c :: d :: w =>
      rw [List.cons_append, List.cons_append, List.cons_prefix_cons, List.cons_prefix_cons] at h
      rw [List.cons_prefix_cons, List.cons_prefix_cons]
      exact ⟨h.1, h.2.1, List.nil_prefix⟩

/-- What is read as a target is a word and lines that continue it. -/
theorem target?_shape {t l : Text} (h : target? t = some l) :
    ∃ w ls, l = joinLines (w :: ls) ∧ OpensTarget w ∧ ∀ m ∈ ls, Continues m := by
  obtain ⟨c, rest, rfl, hc, hno, hsl, rfl⟩ := target?_spec h
  obtain ⟨⟨w, ls, hw, hs, hls⟩, -⟩ := targetTail_shape rest
  refine ⟨c :: w, ls, by rw [joinLines_cons, hw]; rfl, ⟨?_, ?_, by simp, ?_⟩, hls⟩
  · intro x hx
    rcases List.mem_cons.mp hx with rfl | hx
    · exact hc
    · exact hs x hx
  · intro d hd
    have hcd : c = d := by simpa using hd
    exact hcd ▸ hno
  · intro hp
    refine hsl (hp.trans ?_)
    rw [List.cons_prefix_cons]
    refine ⟨rfl, List.IsPrefix.trans ?_ (targetTail_isPrefix false rest)⟩
    rw [hw]
    exact List.prefix_append _ _

/-- A word and lines that continue it are read as a target, up to a blank that ends it. -/
theorem target?_lines {w : Text} {ls : List Text} (hw : OpensTarget w)
    (hls : ∀ m ∈ ls, Continues m) {rest : Text} (hr : targetTail false rest = [])
    (hsl : ¬['/', '/'] <+: joinLines (w :: ls) ++ rest) :
    target? (joinLines (w :: ls) ++ rest) = some (joinLines (w :: ls)) := by
  obtain ⟨hs, hh, hne, -⟩ := hw
  rw [joinLines_cons] at hsl ⊢
  cases w with
  | nil => exact absurd rfl hne
  | cons c w =>
      have hc : isBlank c = false := hs c (by simp)
      have htail : targetTail false (w ++ ls.flatMap ('\n' :: ·) ++ rest) =
          w ++ ls.flatMap ('\n' :: ·) := by
        rw [List.append_assoc, targetTail_solid (hs.of_subset (List.subset_cons_self c w)),
          targetTail_continues hls, hr, List.append_nil]
      rw [List.cons_append, List.cons_append] at hsl ⊢
      rw [target?]
      · rw [if_neg (by rw [hh c rfl, hc]; simp), htail]
      · intro r hcs hr'
        rw [hr', hcs] at hsl
        exact hsl ⟨r, rfl⟩

theorem target?_self_iff {l : Text} :
    target? l = some l ↔ ∃ w ls, l = joinLines (w :: ls) ∧ OpensTarget w ∧ ∀ m ∈ ls, Continues m := by
  constructor
  · exact target?_shape
  · rintro ⟨w, ls, rfl, hw, hls⟩
    have hsl : ¬['/', '/'] <+: joinLines (w :: ls) ++ [] := by
      rw [List.append_nil, joinLines_cons]
      exact fun h => hw.2.2.2 (slashes_isPrefix h)
    have hself := target?_lines hw hls (rfl : targetTail false [] = []) hsl
    rwa [List.append_nil] at hself

/-- What is read as a target is one. -/
theorem target?_self {t l : Text} (h : target? t = some l) : target? l = some l :=
  target?_self_iff.mpr (target?_shape h)

/-- A target is read up to the space behind it. -/
theorem target?_append {l : Text} (h : target? l = some l) (rest : Text) :
    target? (l ++ ' ' :: rest) = some l := by
  obtain ⟨w, ls, rfl, hw, hls⟩ := target?_shape h
  refine target?_lines hw hls ?_ ?_
  · rw [targetTail, if_neg (by simp), if_neg (by decide), if_neg (by simp)]
  · rw [joinLines_cons]
    intro hp
    -- the space is no slash, so the two slashes would stand in the target itself
    have hsl : ['/', '/'] <+: w ++ ls.flatMap ('\n' :: ·) := by
      obtain ⟨more, he⟩ := hp
      rcases List.append_eq_append_iff.mp he with ⟨a, ha, -⟩ | ⟨a, ha, hb⟩
      · exact ⟨a, ha.symm⟩
      · cases a with
        | nil => rw [List.append_nil] at ha; exact ⟨[], by rw [ha]; simp⟩
        | cons d a =>
            injection hb with hd _
            have hm : ' ' ∈ ['/', '/'] := by
              rw [ha, hd]
              simp
            exact absurd hm (by decide)
    exact hw.2.2.2 (slashes_isPrefix hsl)

end HttpFile.Syntax

namespace HttpFile.Text

/-! ## Cutting -/

theorem cutAt_of_notMem {sep : Char} {t : Text} (h : sep ∉ t) : cutAt sep t = (t, none) := by
  induction t with
  | nil => rfl
  | cons c t ih =>
      have hc : c ≠ sep := fun he => h (by simp [he])
      rw [cutAt, if_neg hc, ih fun hm => h (by simp [hm])]

theorem cutAt_append {sep : Char} {u : Text} (h : sep ∉ u) (t : Text) :
    cutAt sep (u ++ sep :: t) = (u, some t) := by
  induction u with
  | nil => rw [List.nil_append, cutAt, if_pos rfl]
  | cons c u ih =>
      have hc : c ≠ sep := fun he => h (by simp [he])
      rw [List.cons_append, cutAt, if_neg hc, ih fun hm => h (by simp [hm])]

/-- A text holds no separator, or it is cut at the first one. -/
theorem cutAt_cases (sep : Char) (t : Text) :
    (sep ∉ t ∧ cutAt sep t = (t, none)) ∨
      ∃ u v, sep ∉ u ∧ t = u ++ sep :: v ∧ cutAt sep t = (u, some v) := by
  by_cases h : sep ∈ t
  · obtain ⟨u, v, rfl, hu⟩ := List.eq_append_cons_of_mem h
    exact .inr ⟨u, v, hu, rfl, cutAt_append hu v⟩
  · exact .inl ⟨h, cutAt_of_notMem h⟩

end HttpFile.Text

namespace HttpFile.Url

open Text Unicode Syntax

/-! ## Flattening -/

theorem strip_continues {g x : Text} {c : Char} (hg : ∀ y ∈ g, isGap y = true)
    (hc : c = '?' ∨ c = '&') (hx : Solid x) : strip (g ++ c :: x) = c :: x := by
  have hs : Solid (c :: x) := by
    intro d hd
    rcases List.mem_cons.mp hd with rfl | hd
    · exact isBlank_mark hc
    · exact hx d hd
  have := hs.trimmed.strip_append (u := g) (v := []) (fun y hy => isBlank_of_isGap (hg y hy))
    (by simp)
  simpa using this

/-- Flattening a target joins its trimmed lines. -/
theorem flat_joinLines {w : Text} {ls : List Text} (hw : Solid w) (hne : w ≠ [])
    (hls : ∀ l ∈ ls, Continues l) : flat (joinLines (w :: ls)) = w ++ (ls.map strip).flatten := by
  have hbreak : ∀ m ∈ w :: ls, ∀ c ∈ m, isBreak c = false := by
    intro m hm c hc
    rcases List.mem_cons.mp hm with rfl | hm
    · exact isBreak_of_solid (hw c hc)
    · obtain ⟨g, d, x, -, hg, hd, hx, rfl⟩ := hls m hm
      rcases List.mem_append.mp hc with hc | hc
      · exact isBreak_of_isGap (hg c hc)
      · rcases List.mem_cons.mp hc with rfl | hc
        · exact isBreak_of_solid (isBlank_mark hd)
        · exact isBreak_of_solid (hx c hc)
  have hlast : ∀ m ∈ (w :: ls).getLast?, m ≠ [] := by
    intro m hm
    rcases List.mem_cons.mp (List.mem_of_getLast? hm) with rfl | hm
    · exact hne
    · obtain ⟨g, d, x, -, -, -, -, rfl⟩ := hls m hm
      simp
  unfold flat
  rw [lines_joinLines hbreak hlast, List.map_cons, List.flatten_cons, hw.trimmed]

/-- A text without blanks is flat. -/
theorem flat_of_solid {t : Text} (ht : Solid t) (hne : t ≠ []) : flat t = t := by
  have hflat := flat_joinLines ht hne (List.forall_mem_nil Continues)
  simpa [joinLines] using hflat

theorem solid_flat_lines {ls : List Text} (hls : ∀ l ∈ ls, Continues l) :
    Solid (ls.map strip).flatten := by
  induction ls with
  | nil => simp [Solid]
  | cons l ls ih =>
      obtain ⟨g, c, x, -, hg, hc, hx, rfl⟩ := hls l (by simp)
      rw [List.map_cons, List.flatten_cons, strip_continues hg hc hx]
      refine Solid.append ?_ (ih fun m hm => hls m (by simp [hm]))
      intro d hd
      rcases List.mem_cons.mp hd with rfl | hd
      · exact isBlank_mark hc
      · exact hx d hd

/-- A flattened target may open a target: what it adds to the first line starts with a mark. -/
theorem opensTarget_flat {w : Text} {ls : List Text} (hw : OpensTarget w)
    (hls : ∀ l ∈ ls, Continues l) : OpensTarget (w ++ (ls.map strip).flatten) := by
  obtain ⟨hs, hh, hne, hsl⟩ := hw
  refine ⟨hs.append (solid_flat_lines hls), ?_, by simp [hne], ?_⟩
  · intro c hc
    obtain ⟨d, w', rfl⟩ := List.exists_cons_of_ne_nil hne
    exact hh c hc
  · intro hp
    match w with
    | [] => exact hne rfl
    | [c] =>
        cases ls with
        | nil => simp at hp
        | cons l ls =>
            obtain ⟨g, d, x, -, hg, hd, hx, rfl⟩ := hls l (by simp)
            rw [List.map_cons, List.flatten_cons, strip_continues hg hd hx] at hp
            rcases hd with rfl | rfl <;> simp at hp
    | c :: d :: w =>
        rw [List.cons_append, List.cons_append, List.cons_prefix_cons, List.cons_prefix_cons] at hp
        refine hsl ?_
        rw [List.cons_prefix_cons, List.cons_prefix_cons]
        exact ⟨hp.1, hp.2.1, List.nil_prefix⟩

/-! ## Folding -/

/-- Folding a flattened target. -/
def foldFlat (whole : Text) : Text :=
  match cutAt '?' whole with
  | (_, none) => whole
  | (base, some query) =>
    match base, (fieldsAt '&' query).filter (· ≠ []) with
    | [], _ => whole
    | _, [] => whole
    | _, first :: more =>
      joinLines (base :: parameterLine '?' first :: more.map (parameterLine '&'))

/-- Folding depends on the flattened target only. -/
theorem fold_eq (url : Text) : fold url = foldFlat (flat url) := rfl

/-- A flattened target stays as it is, or its parameters go onto lines of their own. -/
theorem foldFlat_cases (whole : Text) :
    foldFlat whole = whole ∨
      ∃ base query first more, base ≠ [] ∧ '?' ∉ base ∧ whole = base ++ '?' :: query ∧
        (fieldsAt '&' query).filter (· ≠ []) = first :: more ∧
        foldFlat whole =
          joinLines (base :: parameterLine '?' first :: more.map (parameterLine '&')) := by
  rcases cutAt_cases '?' whole with ⟨-, hcut⟩ | ⟨base, query, hb, hw, hcut⟩
  · left
    rw [foldFlat, hcut]
  · cases hbase : base with
    | nil =>
        left
        rw [foldFlat, hcut, hbase]
    | cons c b =>
        cases hf : (fieldsAt '&' query).filter (· ≠ []) with
        | nil =>
            left
            rw [foldFlat, hcut, hbase]
            simp only
            rw [hf]
        | cons first more =>
            right
            refine ⟨c :: b, query, first, more, by simp, hbase ▸ hb, hbase ▸ hw, hf, ?_⟩
            rw [foldFlat, hcut, hbase]
            simp only
            rw [hf]

theorem foldFlat_parameters {base first : Text} {more : List Text} (hb : base ≠ [])
    (hq : '?' ∉ base) (hne : ∀ p ∈ first :: more, p ≠ []) (hamp : ∀ p ∈ first :: more, '&' ∉ p) :
    foldFlat (base ++ '?' :: ['&'].intercalate (first :: more)) =
      joinLines (base :: parameterLine '?' first :: more.map (parameterLine '&')) := by
  rw [foldFlat, cutAt_append hq]
  simp only
  have hf : (fieldsAt '&' (['&'].intercalate (first :: more))).filter (· ≠ []) = first :: more := by
    rw [fieldsAt_intercalate hamp, List.filter_eq_self]
    intro p hp
    simpa using hne p hp
  rw [hf]
  cases base with
  | nil => exact absurd rfl hb
  | cons c b => rfl

theorem continues_parameterLine {mark : Char} (hm : mark = '?' ∨ mark = '&') {p : Text}
    (hp : Solid p) : Continues (parameterLine mark p) :=
  ⟨[' ', ' '], mark, p, by simp, by decide, hm, hp, rfl⟩

/-- The lines of parameters continue a target. -/
theorem continues_parameterLines {first : Text} {more : List Text} (h : ∀ p ∈ first :: more, Solid p) :
    ∀ m ∈ parameterLine '?' first :: more.map (parameterLine '&'), Continues m := by
  intro m hm
  rcases List.mem_cons.mp hm with rfl | hm
  · exact continues_parameterLine (.inl rfl) (h first (by simp))
  · obtain ⟨p, hp, rfl⟩ := List.mem_map.mp hm
    exact continues_parameterLine (.inr rfl) (h p (by simp [hp]))

theorem strip_parameterLine {mark : Char} (hm : mark = '?' ∨ mark = '&') {p : Text}
    (hp : Solid p) : strip (parameterLine mark p) = mark :: p :=
  strip_continues (g := [' ', ' ']) (by decide) hm hp

/-- The parameters behind their marks, as they stand in the flattened target. -/
theorem flatten_parameterLines {first : Text} {more : List Text} (h : ∀ p ∈ first :: more, Solid p) :
    ((parameterLine '?' first :: more.map (parameterLine '&')).map strip).flatten =
      '?' :: ['&'].intercalate (first :: more) := by
  rw [List.map_cons, List.flatten_cons, strip_parameterLine (.inl rfl) (h first (by simp))]
  induction more generalizing first with
  | nil => simp
  | cons p ps ih =>
      rw [List.map_cons, List.map_cons, List.flatten_cons,
        strip_parameterLine (.inr rfl) (h p (by simp)), List.intercalate_cons_cons]
      have hps : ∀ q ∈ p :: ps, Solid q := fun q hq => h q (List.mem_cons_of_mem first hq)
      have hrest := ih hps
      rw [List.cons_append] at hrest
      injection hrest with _ hrest
      rw [List.cons_append, List.cons_append, hrest]
      simp

/-- What a flattened target consists of when it is folded. -/
theorem parameters_spec {whole base query first : Text} {more : List Text} (hs : Solid whole)
    (hw : whole = base ++ '?' :: query)
    (hf : (fieldsAt '&' query).filter (· ≠ []) = first :: more) :
    (∀ p ∈ first :: more, Solid p) ∧ (∀ p ∈ first :: more, p ≠ []) ∧
      ∀ p ∈ first :: more, '&' ∉ p := by
  have hmem : ∀ p ∈ first :: more, p ∈ fieldsAt '&' query ∧ p ≠ [] := by
    intro p hp
    rw [← hf, List.mem_filter] at hp
    exact ⟨hp.1, by simpa using hp.2⟩
  refine ⟨fun p hp => ?_, fun p hp => (hmem p hp).2, fun p hp => notMem_of_mem_fieldsAt (hmem p hp).1⟩
  refine hs.of_subset fun c hc => ?_
  have hq : c ∈ query := (infix_of_mem_fieldsAt (hmem p hp).1).subset hc
  rw [hw]
  simp [hq]

/-- **A folded target is a target, and folding it again changes nothing.** -/
theorem target?_fold {l : Text} (h : target? l = some l) :
    target? (fold l) = some (fold l) ∧ fold (fold l) = fold l ∧ fold l ≠ [] := by
  obtain ⟨w, ls, rfl, hw, hls⟩ := target?_shape h
  have hflat := flat_joinLines hw.1 hw.2.2.1 hls
  have hopen := opensTarget_flat hw hls
  rw [fold_eq, hflat]
  generalize w ++ (ls.map strip).flatten = whole at hopen ⊢
  obtain ⟨hs, hh, hne, hsl⟩ := hopen
  rcases foldFlat_cases whole with hsame | ⟨base, query, first, more, hb, hq, hwhole, hf, hfold⟩
  · rw [hsame]
    refine ⟨?_, ?_, hne⟩
    · exact target?_self_iff.mpr ⟨whole, [], by simp [joinLines], ⟨hs, hh, hne, hsl⟩, by simp⟩
    · rw [fold_eq, flat_of_solid hs hne, hsame]
  · obtain ⟨hps, hpn, hpa⟩ := parameters_spec hs hwhole hf
    have hbs : Solid base := hs.of_subset (by rw [hwhole]; simp)
    have hbo : OpensTarget base := by
      refine ⟨hbs, fun c hc => hh c ?_, hb, fun hp => hsl ?_⟩
      · obtain ⟨d, b, rfl⟩ := List.exists_cons_of_ne_nil hb
        rw [hwhole]
        exact hc
      · rw [hwhole]
        exact hp.trans (List.prefix_append _ _)
    -- the base is on the first line, and on each other line a parameter with its mark
    have hcont := continues_parameterLines hps
    rw [hfold]
    refine ⟨target?_self_iff.mpr ⟨base, _, rfl, hbo, hcont⟩, ?_, ?_⟩
    · rw [fold_eq, flat_joinLines hbs hb hcont, flatten_parameterLines hps,
        foldFlat_parameters hb hq hpn hpa]
    · rw [joinLines_cons]
      simp [hb]

/-! ## Marks -/

/-- A pattern of other characters than marks of parameters that does not occur in the lines of a
    target does not occur in the flattened target. -/
theorem occursIn_flat {pattern : Text} (hq : '?' ∉ pattern) (ha : '&' ∉ pattern) {w : Text}
    {ls : List Text} (hls : ∀ l ∈ ls, Continues l)
    (h : ∀ l ∈ w :: ls, occursIn pattern l = false) :
    occursIn pattern (w ++ (ls.map strip).flatten) = false := by
  induction ls generalizing w with
  | nil => simpa using h w (by simp)
  | cons l ls ih =>
      obtain ⟨g, c, x, -, hg, hc, hx, rfl⟩ := hls l (by simp)
      have hcp : c ∉ pattern := by
        rcases hc with rfl | rfl
        · exact hq
        · exact ha
      have hxo : occursIn pattern x = false :=
        occursIn_of_isInfix ⟨g ++ [c], [], by simp⟩ (h (g ++ c :: x) (by simp))
      rw [List.map_cons, List.flatten_cons, strip_continues hg hc hx, List.cons_append]
      refine occursIn_append_cons hcp (h w (by simp)) (ih (fun m hm => hls m (by simp [hm])) ?_)
      intro m hm
      rcases List.mem_cons.mp hm with rfl | hm
      · exact hxo
      · exact h m (by simp [hm])

/-- A target that does not hold the closing mark of a script does not hold it when folded. -/
theorem occursIn_fold {l : Text} (h : target? l = some l) (hno : occursIn closing l = false) :
    occursIn closing (fold l) = false := by
  obtain ⟨w, ls, rfl, hw, hls⟩ := target?_shape h
  have hlines : ∀ m ∈ w :: ls, occursIn closing m = false := by
    intro m hm
    refine occursIn_of_isInfix ?_ hno
    rw [joinLines_cons]
    rcases List.mem_cons.mp hm with rfl | hm
    · exact (List.prefix_append _ _).isInfix
    · obtain ⟨as, bs, rfl⟩ := List.append_of_mem hm
      exact ⟨w ++ as.flatMap ('\n' :: ·) ++ ['\n'], bs.flatMap ('\n' :: ·), by simp⟩
  have hflat := occursIn_flat (by decide) (by decide) hls hlines
  rw [fold_eq, flat_joinLines hw.1 hw.2.2.1 hls]
  generalize w ++ (ls.map strip).flatten = whole at hflat ⊢
  -- each line is a part of the target behind a mark that the closing mark does not have
  rcases foldFlat_cases whole with hsame | ⟨base, query, first, more, -, -, hwhole, hf, hfold⟩
  · rw [hsame]
    exact hflat
  · have hquery : occursIn closing query = false :=
      occursIn_of_isInfix ⟨base ++ ['?'], [], by rw [hwhole]; simp⟩ hflat
    have hparam : ∀ p ∈ first :: more, occursIn closing p = false := by
      intro p hp
      rw [← hf] at hp
      exact occursIn_of_isInfix (infix_of_mem_fieldsAt (List.mem_filter.mp hp).1) hquery
    have hline : ∀ mark : Char, mark ∉ closing → ∀ p ∈ first :: more,
        occursIn closing (parameterLine mark p) = false := by
      intro mark hm p hp
      exact occursIn_append_cons (u := [' ', ' ']) hm (by decide) (hparam p hp)
    rw [hfold]
    refine occursIn_joinLines (by decide) (by decide) ?_
    intro m hm
    rcases List.mem_cons.mp hm with rfl | hm
    · exact occursIn_of_isInfix (by rw [hwhole]; exact (List.prefix_append _ _).isInfix) hflat
    · rcases List.mem_cons.mp hm with rfl | hm
      · exact hline '?' (by decide) first (by simp)
      · obtain ⟨p, hp, rfl⟩ := List.mem_map.mp hm
        exact hline '&' (by decide) p (by simp [hp])

end HttpFile.Url
