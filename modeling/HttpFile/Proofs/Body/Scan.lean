import HttpFile.Proofs.Json.Spelling

/-!
# `HttpFile.Proofs.Body.Scan` — a body with names for its placeholders

A scan takes a body apart into placeholders and other text. Each placeholder is told from the others by the number
of placeholders behind it, so what stands for it does not depend on what is in front of it.

## Contents
- **Tokens.** `IsToken`, `placeholder?_iff`.
- **Quotes.** `throughQuote?_spec`, `quotedRun?_cases`.
- **Segments.** `segments_step`, `scan_induction`; `segments_token`, `segments_char`.
- **Labels.** `labels`, `unquoted`; `pairwise_labels`, `isToken_of_mem_labels`.
- **Guarding.** `guarded`; `guarded_token`, `guarded_char`, `guarded_inv`.
- **Guards.** `nameOf`, `guard_of`.
-/

namespace HttpFile.Body

open Text Json

/-! ## Tokens -/

/-- A placeholder with its braces. -/
def IsToken (token : Text) : Prop :=
  ∃ u, (∀ c ∈ u, isPlaceholderChar c = true) ∧ token = '{' :: '{' :: (u ++ ['}', '}'])

theorem IsToken.ends {token : Text} (h : IsToken token) : ∃ u, token = '{' :: (u ++ ['}']) := by
  obtain ⟨u, -, rfl⟩ := h
  exact ⟨'{' :: (u ++ ['}']), by simp⟩

theorem IsToken.newline_notMem {token : Text} (h : IsToken token) : '\n' ∉ token := by
  obtain ⟨u, hu, rfl⟩ := h
  intro hc
  have hin : '\n' ∈ u := by simpa using hc
  exact absurd (hu _ hin) (by decide)

theorem placeholder?_token {token : Text} (h : IsToken token) (r : Text) :
    placeholder? (token ++ r) = some token := by
  obtain ⟨u, hu, rfl⟩ := h
  have hsplit : '{' :: '{' :: (u ++ ['}', '}']) ++ r = '{' :: '{' :: (u ++ '}' :: '}' :: r) := by simp
  have hclose : isPlaceholderChar '}' = false := by decide
  have hdrop : (u ++ '}' :: '}' :: r).dropWhile isPlaceholderChar = '}' :: '}' :: r := dropWhile_append_stop hu hclose
  have htake : (u ++ '}' :: '}' :: r).takeWhile isPlaceholderChar = u := takeWhile_append_stop hu hclose
  rw [hsplit]
  unfold placeholder?
  simp only [hdrop, htake]
  rfl

/-- **A placeholder stands at the start of a text exactly if the text starts with a token.** -/
theorem placeholder?_iff {t token : Text} :
    placeholder? t = some token ↔ IsToken token ∧ ∃ r, t = token ++ r := by
  constructor
  · intro h
    unfold placeholder? at h
    split at h
    · next rest =>
        split at h
        · next more hclose =>
            injection h with h
            subst h
            refine ⟨⟨rest.takeWhile isPlaceholderChar, fun c hc => List.mem_takeWhile_imp hc, by simp⟩, more, ?_⟩
            have hrest := List.takeWhile_append_dropWhile (p := isPlaceholderChar) (l := rest)
            rw [hclose] at hrest
            simpa using hrest.symm
        · simp at h
    · simp at h
  · rintro ⟨h, r, rfl⟩
    exact placeholder?_token h r

theorem placeholder?_ne {c : Char} (hc : c ≠ '{') (t : Text) : placeholder? (c :: t) = none := by
  rw [Option.eq_none_iff_forall_ne_some]
  intro token h
  obtain ⟨⟨u, -, rfl⟩, r, heq⟩ := placeholder?_iff.mp h
  exact hc (List.cons.inj heq).1

/-! ## Quotes -/

theorem throughTripleQuote?_spec {t run : Text} (h : throughTripleQuote? t = some run) : ∃ r, t = run ++ r := by
  induction t generalizing run with
  | nil => simp [throughTripleQuote?] at h
  | cons c t ih =>
      unfold throughTripleQuote? at h
      split at h
      · cases h
      · next rest heq =>
          injection h with h
          exact ⟨rest, by rw [heq, ← h]; rfl⟩
      · next heq =>
          obtain ⟨hc, ht⟩ := List.cons.inj heq
          subst hc ht
          obtain ⟨run', hrun, rfl⟩ := Option.map_eq_some_iff.mp h
          obtain ⟨r, rfl⟩ := ih hrun
          exact ⟨r, rfl⟩

theorem length_of_throughTripleQuote? {t run : Text} (h : throughTripleQuote? t = some run) : 2 < t.length := by
  induction t generalizing run with
  | nil => cases h
  | cons c t ih =>
      unfold throughTripleQuote? at h
      split at h
      · cases h
      · next rest heq =>
          rw [heq]
          simp
      · next heq =>
          obtain ⟨rfl, rfl⟩ := List.cons.inj heq
          obtain ⟨run', hrun, -⟩ := Option.map_eq_some_iff.mp h
          exact Nat.lt_succ_of_lt (ih hrun)

/-- What is found through three quotes is found whatever is behind. -/
theorem throughTripleQuote?_append {t run : Text} (h : throughTripleQuote? t = some run) (x : Text) :
    throughTripleQuote? (t ++ x) = some run := by
  induction t generalizing run with
  | nil => cases h
  | cons c t ih =>
      unfold throughTripleQuote? at h
      split at h
      · cases h
      · next rest heq =>
          rw [heq]
          exact h
      · next d u hnot heq =>
          obtain ⟨rfl, rfl⟩ := List.cons.inj heq
          obtain ⟨run', hrun, rfl⟩ := Option.map_eq_some_iff.mp h
          -- the text is long enough to hold three quotes itself, if three quotes start here
          have hnone : ∀ r, c = '"' → t ++ x ≠ '"' :: '"' :: r := by
            intro r hc hr
            have hlength := length_of_throughTripleQuote? hrun
            cases t with
            | nil => exact absurd hlength (by decide)
            | cons d t =>
                cases t with
                | nil => exact absurd hlength (by simp)
                | cons e t =>
                    obtain ⟨hd, hrest⟩ := List.cons.inj hr
                    obtain ⟨he, -⟩ := List.cons.inj hrest
                    exact hnot t hc (by rw [hd, he])
          rw [List.cons_append]
          unfold throughTripleQuote?
          split
          · next heq => cases heq
          · next rest heq =>
              obtain ⟨hc, hr⟩ := List.cons.inj heq
              exact absurd hr (hnone rest hc)
          · next heq =>
              obtain ⟨rfl, rfl⟩ := List.cons.inj heq
              rw [ih hrun]
              rfl

/-- What is found through a quote is found in whatever starts with it. -/
theorem throughQuote?_spec {t run : Text} (h : throughQuote? t = some run) :
    ∃ u r, run = u ++ ['"'] ∧ t = u ++ '"' :: r ∧ ∀ x, throughQuote? (u ++ '"' :: x) = some run := by
  induction hn : t.length using Nat.strongRecOn generalizing t run with
  | ind n ih =>
      subst hn
      unfold throughQuote? at h
      split at h
      · cases h
      · next rest =>
          injection h with h
          subst h
          exact ⟨[], rest, rfl, rfl, fun x => rfl⟩
      · cases h
      · cases h
      -- an escaped character is passed, whatever it is
      · next c rest =>
          split at h
          · cases h
          · next hline =>
              obtain ⟨run', hrun, rfl⟩ := Option.map_eq_some_iff.mp h
              obtain ⟨u, r, rfl, rfl, hx⟩ := ih rest.length (by simp only [List.length_cons]; omega) hrun rfl
              refine ⟨'\\' :: c :: u, r, rfl, rfl, fun x => ?_⟩
              show throughQuote? (['\\', c] ++ (u ++ '"' :: x)) = _
              rw [Passed.escape hline, hx]
              rfl
      · next c rest hquote hline hescape hescape' =>
          obtain ⟨run', hrun, rfl⟩ := Option.map_eq_some_iff.mp h
          obtain ⟨u, r, rfl, rfl, hx⟩ := ih rest.length (by simp) hrun rfl
          refine ⟨c :: u, r, rfl, rfl, fun x => ?_⟩
          have hc : Passed [c] := Passed.singleton hquote hline fun he => by
            cases hu : u ++ '"' :: r with
            | nil => simp at hu
            | cons d v => exact hescape' d v he (by rw [hu])
          show throughQuote? ([c] ++ (u ++ '"' :: x)) = _
          rw [hc, hx]
          rfl

/-- A quoted run starts with three quotes, or it runs through the next quote. -/
theorem quotedRun?_cases {t run : Text} (h : quotedRun? ('"' :: t) = some run) :
    (∃ x r, run = '"' :: '"' :: '"' :: x ∧ t = '"' :: '"' :: (x ++ r)) ∨
      ∃ x, throughQuote? t = some x ∧ run = '"' :: x := by
  unfold quotedRun? at h
  dsimp only at h
  split at h
  · next run' htriple =>
      injection h with h
      subst h
      split at htriple
      · next rest heq =>
          obtain ⟨x, hx, rfl⟩ := Option.map_eq_some_iff.mp htriple
          obtain ⟨r, rfl⟩ := throughTripleQuote?_spec hx
          exact Or.inl ⟨x, r, rfl, (List.cons.inj heq).2⟩
      · cases htriple
  · next rest heq =>
      obtain ⟨x, hx, rfl⟩ := Option.map_eq_some_iff.mp h
      exact Or.inr ⟨x, by rw [(List.cons.inj heq).2]; exact hx, rfl⟩
  · cases h

theorem throughQuote?_of_quotedRun?_none {t : Text} (h : quotedRun? ('"' :: t) = none) : throughQuote? t = none := by
  unfold quotedRun? at h
  dsimp only at h
  split at h
  · cases h
  · next rest heq =>
      rw [(List.cons.inj heq).2]
      exact Option.map_eq_none_iff.mp h
  · next hne => exact absurd rfl (hne t)

/-- Where no three quotes stand, the run is the one through the next quote. -/
theorem quotedRun?_single {t x : Text} (htriple : ∀ u, t ≠ '"' :: '"' :: u) (h : throughQuote? t = some x) :
    quotedRun? ('"' :: t) = some ('"' :: x) := by
  unfold quotedRun?
  split
  · next rest heq => exact absurd (List.cons.inj heq).2 (htriple rest)
  · show (throughQuote? t).map _ = _
    rw [h]
    rfl

theorem quotedRun?_triple {t x : Text} (h : throughTripleQuote? t = some x) :
    quotedRun? ('"' :: '"' :: '"' :: t) = some ('"' :: '"' :: '"' :: x) := by
  have htriple : (throughTripleQuote? t).map (['"', '"', '"'] ++ ·) = some ('"' :: '"' :: '"' :: x) := by
    rw [h]
    rfl
  unfold quotedRun?
  simp only [htriple]

theorem quotedRun?_ne {c : Char} (hc : c ≠ '"') (t : Text) : quotedRun? (c :: t) = none := by
  unfold quotedRun?
  split
  · next heq => exact absurd (List.cons.inj heq).1 hc
  · dsimp only
    split
    · next heq => cases heq
    · next heq => exact absurd (List.cons.inj heq).1 hc
    · rfl

theorem quotedRun?_prefix {t run : Text} (h : quotedRun? t = some run) : run ≠ [] ∧ ∃ r, t = run ++ r := by
  cases t with
  | nil => cases h
  | cons c t =>
      by_cases hc : c = '"'
      · subst hc
        rcases quotedRun?_cases h with ⟨x, r, rfl, rfl⟩ | ⟨x, hx, rfl⟩
        · exact ⟨List.cons_ne_nil _ _, r, rfl⟩
        · obtain ⟨u, r, rfl, rfl, -⟩ := throughQuote?_spec hx
          exact ⟨List.cons_ne_nil _ _, r, by simp⟩
      · rw [quotedRun?_ne hc] at h
        cases h

/-! ## Segments -/

theorem segmentsFrom_eq (n : Nat) (t : Text) : segmentsFrom n t = segments (t.drop n) := by
  induction t generalizing n with
  | nil =>
      rw [List.drop_nil]
      cases n <;> rfl
  | cons c t ih =>
      cases n with
      | zero => rfl
      | succ n => exact ih n

theorem segment_prefix (c : Char) (t : Text) : (segment c t).text ≠ [] ∧ ∃ r, c :: t = (segment c t).text ++ r := by
  unfold segment
  split
  · next token hp =>
      obtain ⟨htoken, r, hr⟩ := placeholder?_iff.mp hp
      obtain ⟨u, hu⟩ := htoken.ends
      exact ⟨by simp [Segment.text, hu], r, hr⟩
  · cases hq : quotedRun? (c :: t) with
    | none => exact ⟨List.cons_ne_nil _ _, t, rfl⟩
    | some run => exact quotedRun?_prefix hq

/-- **A scan takes a text apart from the left.** -/
theorem segments_step (c : Char) (t : Text) :
    ∃ r, c :: t = (segment c t).text ++ r ∧ r.length < (c :: t).length ∧
      segments (c :: t) = segment c t :: segments r := by
  obtain ⟨hne, r, hr⟩ := segment_prefix c t
  refine ⟨r, hr, ?_, ?_⟩
  · rw [hr, List.length_append]
    exact Nat.lt_add_of_pos_left (List.length_pos_iff.mpr hne)
  · cases hu : (segment c t).text with
    | nil => exact absurd hu hne
    | cons d u =>
        rw [hu, List.cons_append] at hr
        show segment c t :: segmentsFrom ((segment c t).text.length - 1) t = _
        rw [segmentsFrom_eq, hu, List.length_cons, Nat.add_sub_cancel, (List.cons.inj hr).2, List.drop_left]

/-- What holds of no text and is kept in front of every segment holds of every text. -/
theorem scan_induction {motive : Text → Prop} (nil : motive [])
    (step : ∀ c t r, c :: t = (segment c t).text ++ r → segments (c :: t) = segment c t :: segments r →
      motive r → motive (c :: t)) (t : Text) : motive t := by
  induction hn : t.length using Nat.strongRecOn generalizing t with
  | ind n ih =>
      cases t with
      | nil => exact nil
      | cons c t =>
          obtain ⟨r, hr, hlength, hsegments⟩ := segments_step c t
          exact step c t r hr hsegments (ih r.length (hn ▸ hlength) r rfl)

theorem segments_of_segment {c : Char} {t r : Text} {s : Segment} (hs : segment c t = s)
    (hr : c :: t = s.text ++ r) : segments (c :: t) = s :: segments r := by
  obtain ⟨r', hr', -, hsegments⟩ := segments_step c t
  rw [hs, hr] at hr'
  rw [hsegments, hs, List.append_cancel_left hr']

theorem segments_token {token : Text} (h : IsToken token) (r : Text) :
    segments (token ++ r) = .placeholder token :: segments r := by
  have hplaceholder := placeholder?_token h r
  obtain ⟨u, hu⟩ := h.ends
  cases ht : token ++ r with
  | nil => simp [hu] at ht
  | cons c t =>
      refine segments_of_segment ?_ ht.symm
      unfold segment
      rw [← ht, hplaceholder]

theorem segments_run {t run r : Text} (h : quotedRun? ('"' :: t) = some run) (hr : '"' :: t = run ++ r) :
    segments ('"' :: t) = .plain run :: segments r := by
  refine segments_of_segment ?_ hr
  unfold segment
  rw [placeholder?_ne (by decide), h]
  rfl

theorem segments_char {c : Char} {t : Text} (hplaceholder : placeholder? (c :: t) = none)
    (hquoted : quotedRun? (c :: t) = none) : segments (c :: t) = .plain [c] :: segments t := by
  refine segments_of_segment ?_ rfl
  unfold segment
  rw [hplaceholder, hquoted]
  rfl

/-! ## Labels -/

/-- The placeholders of segments, each with the number of those behind it. -/
def labelsOf : List Segment → List (Nat × Text)
  | [] => []
  | .plain _ :: rest => labelsOf rest
  | .placeholder token :: rest => ((labelsOf rest).length, token) :: labelsOf rest

/-- The placeholders of a body outside quotes, each with the number of those behind it. -/
def labels (t : Text) : List (Nat × Text) := labelsOf (segments t)

/-- The placeholders of a body outside quotes. -/
def unquoted (t : Text) : List Text := (labels t).map Prod.snd

theorem label_lt {segs : List Segment} {a : Nat × Text} (h : a ∈ labelsOf segs) :
    a.1 < (labelsOf segs).length := by
  induction segs with
  | nil => simp [labelsOf] at h
  | cons s segs ih =>
      cases s with
      | plain => exact ih h
      | placeholder token =>
          rcases List.mem_cons.mp h with rfl | h
          · exact Nat.lt_succ_self _
          · exact Nat.lt_succ_of_lt (ih h)

/-- No two placeholders have one number. -/
theorem pairwise_labelsOf (segs : List Segment) : (labelsOf segs).Pairwise fun a b => b.1 < a.1 := by
  induction segs with
  | nil => exact List.Pairwise.nil
  | cons s segs ih =>
      cases s with
      | plain => exact ih
      | placeholder token => exact List.pairwise_cons.mpr ⟨fun a ha => label_lt ha, ih⟩

/-- Every placeholder that is found is a token and stands in the text. -/
theorem isToken_of_mem_labels {t : Text} {a : Nat × Text} (h : a ∈ labels t) : IsToken a.2 ∧ a.2 <:+: t := by
  induction t using scan_induction with
  | nil => simp [labels, segments, segmentsFrom, labelsOf] at h
  | step c t r hr hsegments ih =>
      have hbehind : a ∈ labels r → IsToken a.2 ∧ a.2 <:+: c :: t := by
        intro ha
        obtain ⟨htoken, hin⟩ := ih ha
        rw [hr]
        exact ⟨htoken, hin.trans (List.suffix_append _ r).isInfix⟩
      rw [labels, hsegments] at h
      cases hs : segment c t with
      | plain u =>
          rw [hs] at h
          exact hbehind h
      | placeholder token =>
          rw [hs] at h hr
          rcases List.mem_cons.mp h with rfl | h
          · have hfound : placeholder? (c :: t) = some token := by
              unfold segment at hs
              split at hs
              · next hp => rw [hp, Segment.placeholder.inj hs]
              · cases hs
            exact ⟨(placeholder?_iff.mp hfound).1, hr ▸ (List.prefix_append token r).isInfix⟩
          · exact hbehind h

/-! ## Guarding -/

section
variable (name : Nat × Text → Text)

/-- Segments as a text, with a quoted name for each placeholder. -/
def guardedSegments : List Segment → Text
  | [] => []
  | .plain t :: rest => t ++ guardedSegments rest
  | .placeholder token :: rest =>
    '"' :: (name ((labelsOf rest).length, token) ++ '"' :: guardedSegments rest)

/-- A text with a quoted name for each placeholder outside quotes. -/
def guarded (t : Text) : Text := guardedSegments name (segments t)

theorem guarded_nil : guarded name [] = [] := rfl

theorem guarded_token {token : Text} (h : IsToken token) (r : Text) :
    guarded name (token ++ r) = '"' :: (name ((labels r).length, token) ++ '"' :: guarded name r) := by
  rw [guarded, segments_token h]
  rfl

theorem guarded_run {t run r : Text} (h : quotedRun? ('"' :: t) = some run) (hr : '"' :: t = run ++ r) :
    guarded name ('"' :: t) = run ++ guarded name r := by
  rw [guarded, segments_run h hr]
  rfl

theorem guarded_char {c : Char} {t : Text} (hplaceholder : placeholder? (c :: t) = none)
    (hquoted : quotedRun? (c :: t) = none) : guarded name (c :: t) = c :: guarded name t := by
  rw [guarded, segments_char hplaceholder hquoted]
  rfl

/-- A character that opens neither a placeholder nor a string is left where it is. -/
theorem guarded_plain {c : Char} (hbrace : c ≠ '{') (hquote : c ≠ '"') (t : Text) :
    guarded name (c :: t) = c :: guarded name t :=
  guarded_char name (placeholder?_ne hbrace t) (quotedRun?_ne hquote t)

theorem guarded_append {u : Text} (hu : ∀ c ∈ u, c ≠ '{' ∧ c ≠ '"') (t : Text) :
    guarded name (u ++ t) = u ++ guarded name t := by
  induction u with
  | nil => rfl
  | cons c u ih =>
      obtain ⟨hbrace, hquote⟩ := hu c List.mem_cons_self
      rw [List.cons_append, guarded_plain name hbrace hquote, ih fun d hd => hu d (List.mem_cons_of_mem c hd),
        List.cons_append]

/-- A guarded text starts as the text does, or with a quote in place of a quote or a brace. -/
theorem guarded_cons (c : Char) (t : Text) :
    (∃ g, guarded name (c :: t) = '"' :: g ∧ (c = '"' ∨ c = '{')) ∨
      c ≠ '"' ∧ placeholder? (c :: t) = none ∧ guarded name (c :: t) = c :: guarded name t := by
  cases hp : placeholder? (c :: t) with
  | some token =>
      obtain ⟨htoken, r, hr⟩ := placeholder?_iff.mp hp
      obtain ⟨u, hu⟩ := htoken.ends
      refine Or.inl ⟨_, by rw [hr, guarded_token name htoken], Or.inr ?_⟩
      rw [hu] at hr
      exact (List.cons.inj hr).1
  | none =>
      by_cases hc : c = '"'
      · subst hc
        refine Or.inl ?_
        cases hq : quotedRun? ('"' :: t) with
        | none => exact ⟨_, guarded_char name hp hq, Or.inl rfl⟩
        | some run =>
            obtain ⟨hne, r, hr⟩ := quotedRun?_prefix hq
            cases run with
            | nil => exact absurd rfl hne
            | cons d run =>
                obtain rfl : '"' = d := (List.cons.inj hr).1
                exact ⟨_, guarded_run name hq hr, Or.inl rfl⟩
      · exact Or.inr ⟨hc, rfl, guarded_char name hp (quotedRun?_ne hc t)⟩

/-- What a guarded text starts with, a quote apart, the text starts with. -/
theorem guarded_inv {c : Char} (hc : c ≠ '"') {t g : Text} (h : guarded name t = c :: g) :
    ∃ t', t = c :: t' ∧ placeholder? t = none ∧ g = guarded name t' := by
  cases t with
  | nil => cases h
  | cons d t =>
      rcases guarded_cons name d t with ⟨g', hg, -⟩ | ⟨-, hp, hg⟩
      · rw [h] at hg
        exact absurd (List.cons.inj hg).1 hc
      · rw [h] at hg
        obtain ⟨rfl, rfl⟩ := List.cons.inj hg
        exact ⟨t, rfl, hp, rfl⟩

theorem guarded_ne_nil {t : Text} (h : guarded name t = []) : t = [] := by
  cases t with
  | nil => rfl
  | cons c t =>
      rcases guarded_cons name c t with ⟨g, hg, -⟩ | ⟨-, -, hg⟩ <;> simp [hg] at h

end

section
variable {token t run r : Text} {c : Char}

theorem labels_token (h : IsToken token) : labels (token ++ r) = ((labels r).length, token) :: labels r := by
  rw [labels, segments_token h]
  rfl

theorem labels_run (h : quotedRun? ('"' :: t) = some run) (hr : '"' :: t = run ++ r) :
    labels ('"' :: t) = labels r := by
  rw [labels, segments_run h hr]
  rfl

theorem labels_char (hplaceholder : placeholder? (c :: t) = none) (hquoted : quotedRun? (c :: t) = none) :
    labels (c :: t) = labels t := by
  rw [labels, segments_char hplaceholder hquoted]
  rfl

theorem labels_plain (hbrace : c ≠ '{') (hquote : c ≠ '"') : labels (c :: t) = labels t :=
  labels_char (placeholder?_ne hbrace t) (quotedRun?_ne hquote t)

theorem labels_append {u : Text} (hu : ∀ c ∈ u, c ≠ '{' ∧ c ≠ '"') : labels (u ++ t) = labels t := by
  induction u with
  | nil => rfl
  | cons c u ih =>
      obtain ⟨hbrace, hquote⟩ := hu c List.mem_cons_self
      rw [List.cons_append, labels_plain hbrace hquote, ih fun d hd => hu d (List.mem_cons_of_mem c hd)]

end

/-! ## Guards -/

/-- The marker for the placeholder with a number. -/
def nameOf (t : Text) (a : Nat × Text) : Text := marker (freeStem t) ((labels t).length - 1 - a.1)

theorem guardSegments_eq (stem : Text) {n i : Nat} {segs : List Segment} (h : i + (labelsOf segs).length = n) :
    guardSegments stem i segs = (guardedSegments (fun a => marker stem (n - 1 - a.1)) segs,
      (labelsOf segs).map fun a => (marker stem (n - 1 - a.1), a.2)) := by
  induction segs generalizing i with
  | nil => rfl
  | cons s segs ih =>
      cases s with
      | plain u =>
          rw [guardSegments, ih h]
          rfl
      | placeholder token =>
          have hi : n - 1 - (labelsOf segs).length = i := by
            rw [labelsOf, List.length_cons] at h
            omega
          rw [guardSegments, ih (i := i + 1) (by rw [labelsOf, List.length_cons] at h; omega)]
          show (_, _) = (_, _)
          simp only [guardedSegments, labelsOf, List.map_cons, hi]
          simp

/-- **A guard is the guarded text, with the name and the token of each placeholder.** -/
theorem guard_of (t : Text) :
    Guard.of t = ⟨freeStem t, guarded (nameOf t) t, (labels t).map fun a => (nameOf t a, a.2)⟩ := by
  unfold Guard.of
  dsimp only
  rw [guardSegments_eq (freeStem t) (Nat.zero_add _)]
  rfl

end HttpFile.Body
