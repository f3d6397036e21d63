import HttpFile.Proofs.Yaml.Lexeme
import HttpFile.Yaml.Layout

/-!
# `HttpFile.Proofs.Yaml.Layout` — where a scan breaks off

A scan that fails puts a broken token behind the tokens that it is sure of. Each step of a scan keeps to the stream
that is left and adds whole tokens only, so the broken one is the last step's, and it tells of the text what the failed
lexeme told of it.

## Contents
- **The invariant.** `Layout.Sound`: what is left is an end of the stream, and no token is broken.
- **Steps.** `Leads`, with one lemma for each kind of step; `leads_tokenAt`, `leads_nextToken`.
- **Runs.** `broken_run`: a broken token is the last step's.
- **Texts.** `Excess.of_endMark`, `broken_tokens`.
-/

namespace HttpFile.Yaml

open Text Lexeme

namespace Layout

/-! ## The invariant -/

/-- What is left is an end of the stream, and the tokens read so far are whole. -/
structure Sound (whole : Stream) (l : Layout) : Prop where
  rest : l.rest <:+ whole
  tokens : ∀ f, Token.broken f ∉ l.tokens

/-- A step that leads on soundly and fails only for an excess in the stream. -/
abbrev Leads (whole : Stream) (step : Step) : Prop := Ends (Excess (textOf whole)) (Sound whole) step

variable {whole : Stream} {l : Layout} {t : Token}

theorem Sound.push (h : l.Sound whole) (ht : ∀ f, Token.broken f ≠ t) : (l.push t).Sound whole :=
  ⟨h.rest, fun f hf => (List.mem_cons.mp hf).elim (ht f) (h.tokens f)⟩

theorem Sound.pass (h : l.Sound whole) (n : Nat) : (l.pass n).Sound whole :=
  ⟨(List.drop_suffix n l.rest).trans h.rest, h.tokens⟩

theorem Sound.insert (h : l.Sound whole) (position : Nat) (ht : ∀ f, Token.broken f ≠ t) :
    (l.insert position t).Sound whole := by
  refine ⟨h.rest, fun f hf => ?_⟩
  rcases List.mem_append.mp hf with hf | hf
  · exact h.tokens f (List.mem_of_mem_take hf)
  · exact (List.mem_cons.mp hf).elim (ht f) fun hf => h.tokens f (List.mem_of_mem_drop hf)

/-- Neither keys nor indentation count. -/
theorem Sound.of_eq {l' : Layout} (h : l.Sound whole) (hrest : l'.rest = l.rest) (htokens : l'.tokens = l.tokens) :
    l'.Sound whole := ⟨hrest ▸ h.rest, htokens ▸ h.tokens⟩

theorem Sound.move {rest : Stream} (h : l.Sound whole) (hrest : rest <:+ whole) :
    Sound whole { l with rest := rest } := ⟨hrest, h.tokens⟩

/-! ## Steps -/

theorem leads_dropStaleKeys (h : l.Sound whole) : Leads whole l.dropStaleKeys := by
  unfold dropStaleKeys
  exact (ends_require _).bind fun _ _ => ends_pure (h.of_eq rfl rfl)

theorem leads_dropKey (h : l.Sound whole) : Leads whole l.dropKey := by
  unfold dropKey
  exact (ends_require _).bind fun _ _ => ends_pure (h.of_eq rfl rfl)

theorem leads_saveKey (h : l.Sound whole) : Leads whole l.saveKey := by
  unfold saveKey
  split
  · exact (leads_dropKey h).bind fun l h => ends_pure (h.of_eq rfl rfl)
  · exact ends_pure h

theorem Sound.closeBlocksTo (h : l.Sound whole) (column : Int) (outer : List Int) :
    (closeBlocksTo column outer l).Sound whole := by
  induction outer generalizing l with
  | nil => exact h
  | cons indent outer ih =>
      unfold Layout.closeBlocksTo
      split
      · exact ih (Sound.push (h.of_eq rfl rfl) (by simp))
      · exact h

theorem Sound.closeBlocks (h : l.Sound whole) (column : Int) : (l.closeBlocks column).Sound whole := by
  unfold Layout.closeBlocks
  split
  · exact h.closeBlocksTo column l.outer
  · exact h

theorem Sound.openBlock (h : l.Sound whole) (column position : Nat) (ht : ∀ f, Token.broken f ≠ t) :
    (l.openBlock column position t).Sound whole := by
  unfold Layout.openBlock
  split
  · refine Sound.insert ?_ position ht
    exact h.of_eq rfl rfl
  · exact h

theorem Sound.openInBlock (h : l.Sound whole) (column position : Nat) (ht : ∀ f, Token.broken f ≠ t) :
    (if l.inBlock then l.openBlock column position t else l).Sound whole := by
  split
  · exact h.openBlock column position ht
  · exact h

theorem Sound.skipBlanks (h : l.Sound whole) (bound : Nat) : (l.skipBlanks bound).Sound whole := by
  induction bound generalizing l with
  | zero => exact h
  | succ bound ih =>
      unfold Layout.skipBlanks
      have hspaces := (skipWhile_suffix (· == ' ') l.rest).trans h.rest
      have hrest : (if peek (skipWhile (· == ' ') l.rest) = '#' then
          skipWhile (fun c => !isEndOrBreak c) (skipWhile (· == ' ') l.rest)
          else skipWhile (· == ' ') l.rest) <:+ whole := by
        split
        · exact (skipWhile_suffix _ _).trans hspaces
        · exact hspaces
      simp only
      split
      · next g after hnext =>
        split
        · rw [hnext] at hrest
          have hafter := h.move ((List.suffix_cons g after).trans hrest)
          exact ih (hafter.of_eq rfl rfl)
        · exact h.move hrest
      · exact h.move hrest

theorem leads_leaveBlocks (h : l.Sound whole) : Leads whole l.leaveBlocks := by
  unfold leaveBlocks
  exact (leads_dropKey (h.closeBlocks (-1))).bind fun l h => ends_pure (h.of_eq rfl rfl)

theorem leads_documentMark (h : l.Sound whole) (ht : ∀ f, Token.broken f ≠ t) : Leads whole (l.documentMark t) := by
  unfold documentMark
  exact (leads_leaveBlocks h).bind fun l h => ends_pure ((h.push ht).pass 3)

theorem leads_directive (bound : Nat) (h : l.Sound whole) : Leads whole (l.directive bound) := by
  unfold Layout.directive
  refine (leads_leaveBlocks h).bind fun l h => ?_
  exact (reads_directive bound h.rest).bind fun p hp => ends_pure ((h.push (by simp)).move hp)

theorem leads_openBracket (h : l.Sound whole) (ht : ∀ f, Token.broken f ≠ t) : Leads whole (l.openBracket t) := by
  unfold openBracket
  refine (leads_saveKey h).bind fun l h => ends_pure (Sound.pass (Sound.push ?_ ht) 1)
  exact h.of_eq rfl rfl

theorem leads_closeBracket (h : l.Sound whole) (ht : ∀ f, Token.broken f ≠ t) : Leads whole (l.closeBracket t) := by
  unfold closeBracket
  refine (leads_dropKey h).bind fun l h => (ends_require _).bind fun _ _ => ?_
  refine ends_pure (Sound.pass (Sound.push ?_ ht) 1)
  exact h.of_eq rfl rfl

theorem leads_comma (h : l.Sound whole) : Leads whole l.comma := by
  unfold comma
  refine Ends.bind (leads_dropKey (h.of_eq rfl rfl)) fun l h => ?_
  exact ends_pure ((h.push (by simp)).pass 1)

theorem leads_entryMark {opens mark : Token} (keyNext : Bool) (h : l.Sound whole)
    (hopens : ∀ f, Token.broken f ≠ opens) (hmark : ∀ f, Token.broken f ≠ mark) :
    Leads whole (l.entryMark opens mark keyNext) := by
  unfold entryMark
  refine (ends_require _).bind fun _ _ => ?_
  have hopened := h.openInBlock l.place.column l.count hopens
  refine Ends.bind (leads_dropKey (hopened.of_eq rfl rfl)) fun l h => ?_
  exact ends_pure ((h.push hmark).pass 1)

theorem leads_colon (h : l.Sound whole) : Leads whole l.colon := by
  unfold colon
  split
  · next k _ =>
    extract_lets forgotten keyed opened
    have hforgotten : forgotten.Sound whole := h.of_eq rfl rfl
    have hkeyed : keyed.Sound whole := hforgotten.insert k.position (by simp)
    have hopened : opened.Sound whole := hkeyed.openInBlock k.place.column k.position (by simp)
    refine ends_pure (Sound.pass (Sound.push ?_ (by simp)) 1)
    exact hopened.of_eq rfl rfl
  · exact leads_entryMark _ h (by simp) (by simp)

theorem leads_keyStart {scan : Stream → Except Failure (Token × Stream)} (h : l.Sound whole)
    (hscan : ∀ s, s <:+ whole → Ends (Excess (textOf whole))
      (fun p => p.2 <:+ whole ∧ ∀ f, Token.broken f ≠ p.1) (scan s)) : Leads whole (l.keyStart scan) := by
  unfold keyStart
  refine (leads_saveKey h).bind fun l h => (hscan l.rest h.rest).bind fun p hp => ?_
  exact ends_pure ⟨hp.1, (h.push hp.2).tokens⟩

theorem leads_blockScalar (bound : Nat) (fold : Bool) (h : l.Sound whole) : Leads whole (l.blockScalar bound fold) := by
  unfold blockScalar
  refine Ends.bind (leads_dropKey (h.of_eq rfl rfl)) fun l h => ?_
  exact (reads_block bound fold l.indent h.rest).bind fun p hp => ends_pure ((h.push (by simp)).move hp)

theorem leads_plainScalar (bound : Nat) (h : l.Sound whole) : Leads whole (l.plainScalar bound) := by
  unfold plainScalar
  refine (leads_saveKey h).bind fun l h => ?_
  exact ends_pure ⟨(plain_suffix bound _ _ l.rest).trans h.rest, (h.push (by simp)).tokens⟩

theorem leads_ite {c : Prop} [Decidable c] {first other : Step} (hfirst : Leads whole first)
    (hother : Leads whole other) : Leads whole (if c then first else other) := by
  split
  · exact hfirst
  · exact hother

/-- **Every token leads on soundly.** -/
theorem leads_tokenAt (bound : Nat) (h : l.Sound whole) : Leads whole (l.tokenAt bound) := by
  unfold tokenAt
  refine leads_ite (leads_directive bound h) ?_
  refine leads_ite (leads_documentMark h (by simp)) (leads_ite (leads_documentMark h (by simp)) ?_)
  refine leads_ite (leads_openBracket h (by simp)) (leads_ite (leads_openBracket h (by simp)) ?_)
  refine leads_ite (leads_closeBracket h (by simp)) (leads_ite (leads_closeBracket h (by simp)) ?_)
  refine leads_ite (leads_comma h) ?_
  refine leads_ite (leads_entryMark _ h (by simp) (by simp)) (leads_ite (leads_entryMark _ h (by simp) (by simp)) ?_)
  refine leads_ite (leads_colon h) ?_
  refine leads_ite (leads_keyStart h fun s hs => (reads_name hs).map fun p hp => ⟨hp, by simp⟩) ?_
  refine leads_ite (leads_keyStart h fun s hs => (reads_name hs).map fun p hp => ⟨hp, by simp⟩) ?_
  refine leads_ite (leads_keyStart h fun s hs => (reads_tag bound hs).map fun p hp => ⟨hp, by simp⟩) ?_
  refine leads_ite (leads_blockScalar bound false h) (leads_ite (leads_blockScalar bound true h) ?_)
  refine leads_ite (leads_keyStart h fun s hs => (reads_quoted bound _ hs).map fun p hp => ⟨hp, by simp⟩) ?_
  exact leads_ite (leads_plainScalar bound h) ends_malformed

theorem leads_nextToken (bound : Nat) (h : l.Sound whole) :
    Ends (Excess (textOf whole)) (fun next => next.1.Sound whole) (l.nextToken bound) := by
  unfold nextToken
  refine (leads_dropStaleKeys (h.skipBlanks bound)).bind fun l h => ?_
  have hclosed := h.closeBlocks l.place.column
  simp only
  split
  · exact (leads_leaveBlocks hclosed).bind fun l h => ends_pure (h.push (by simp))
  · refine (leads_tokenAt bound hclosed).bind fun l h => ?_
    exact (leads_dropStaleKeys h).bind fun l h => ends_pure h

/-! ## Runs -/

/-- **A broken token tells that the text is malformed, or of an excess in it.** -/
theorem broken_run (bound steps : Nat) (h : l.Sound whole) {f : Failure} (hf : Token.broken f ∈ run bound steps l) :
    f = .malformed ∨ Excess (textOf whole) f := by
  induction steps generalizing l with
  | zero =>
      rcases List.mem_cons.mp (List.mem_reverse.mp hf) with hf | hf
      · exact .inl (Token.broken.inj hf)
      · exact absurd hf (h.tokens f)
  | succ steps ih =>
      have hnext := leads_nextToken bound h
      unfold run at hf
      split at hf
      · next f' hfails =>
        rw [hfails] at hnext
        -- the tokens that were certain are whole, and the broken one stands behind them
        rcases List.mem_append.mp hf with hf | hf
        · exact absurd (List.mem_reverse.mp (List.mem_of_mem_take hf)) (h.tokens f)
        · obtain rfl : f = f' := Token.broken.inj (List.mem_singleton.mp hf)
          exact hnext
      · next next hends =>
        rw [hends] at hnext
        exact absurd (List.mem_reverse.mp hf) (hnext.tokens f)
      · next next hgoes =>
        rw [hgoes] at hnext
        exact ih hnext hf

end Layout

/-! ## Texts -/

theorem textOf_glyphsFrom (index line column : Nat) (t : Text) :
    textOf (glyphsFrom index line column t) = t ++ [endMark] := by
  induction t generalizing index line column with
  | nil => rfl
  | cons c rest ih =>
      unfold glyphsFrom
      split
      · exact congrArg (c :: ·) (ih _ _ _)
      · split <;> exact congrArg (c :: ·) (ih _ _ _)

theorem isSome_hexDigit? {t : Text} {n : Nat} (h : hexValue? t = some n) : ∀ c ∈ t, (hexDigit? c).isSome = true := by
  unfold hexValue? at h
  generalize 0 = start at h
  induction t generalizing start with
  | nil => simp
  | cons c rest ih =>
      rw [List.foldlM_cons] at h
      obtain ⟨m, hm, hrest⟩ := Option.bind_eq_some_iff.mp h
      obtain ⟨k, hk, -⟩ := Option.map_eq_some_iff.mp hm
      exact List.forall_mem_cons.mpr ⟨by rw [hk]; rfl, ih m hrest⟩

theorem escapeDigits?_ne_zero (c : Char) : escapeDigits? c ≠ some 0 := by
  unfold escapeDigits?
  split <;> simp

/-- The end mark is no part of an escape. -/
theorem EscapesBeyond.of_endMark {t : Text} {f : Failure} (h : EscapesBeyond (t ++ [endMark]) f) :
    EscapesBeyond t f := by
  obtain ⟨before, letter, digits, after, code, htext, hletter, hcode, hf⟩ := h
  -- an escape that reached the end would have the mark for its last digit
  rcases List.eq_nil_or_concat after with rfl | ⟨after, last, rfl⟩
  · rcases List.eq_nil_or_concat digits with rfl | ⟨front, last, rfl⟩
    · exact absurd hletter (escapeDigits?_ne_zero letter)
    · have hends : t ++ [endMark] = (before ++ '\\' :: letter :: front) ++ [last] := by simpa using htext
      obtain rfl : endMark = last := List.cons.inj (List.append_inj_right' hends rfl) |>.1
      exact absurd (isSome_hexDigit? hcode endMark (by simp)) (by decide)
  · have hends : t ++ [endMark] = (before ++ '\\' :: letter :: (digits ++ after)) ++ [last] := by simpa using htext
    exact ⟨before, letter, digits, after, code, List.append_inj_left' hends rfl, hletter, hcode, hf⟩

/-- The end mark is no digit. -/
theorem LongNumeral.of_endMark {t : Text} {f : Failure} (h : LongNumeral (t ++ [endMark]) f) : LongNumeral t f := by
  obtain ⟨hf, digits, ⟨before, after, htext⟩, hlong, hdigit⟩ := h
  rcases List.eq_nil_or_concat after with rfl | ⟨after, last, rfl⟩
  · rcases List.eq_nil_or_concat digits with rfl | ⟨front, last, rfl⟩
    · exact absurd hlong (by decide)
    · have hends : (before ++ front) ++ [last] = t ++ [endMark] := by simpa using htext
      obtain rfl : last = endMark := List.cons.inj (List.append_inj_right' hends rfl) |>.1
      exact absurd (hdigit endMark (by simp)) (by decide)
  · have hends : (before ++ digits ++ after) ++ [last] = t ++ [endMark] := by simpa using htext
    exact ⟨hf, digits, ⟨before, after, List.append_inj_left' hends rfl⟩, hlong, hdigit⟩

theorem Excess.of_endMark {t : Text} {f : Failure} (h : Excess (t ++ [endMark]) f) : Excess t f := by
  cases h with
  | escape h => exact .escape h.of_endMark
  | numeral h => exact .numeral h.of_endMark

/-- **The tokens of a text are whole, up to one that tells that the text is malformed, or of an excess in it.** -/
theorem broken_tokens {t : Text} {f : Failure} (hf : Token.broken f ∈ tokens t) :
    f = .malformed ∨ Excess t f := by
  have hstart : (if peek (glyphs t) = byteOrderMark then (glyphs t).drop 1 else glyphs t) <:+ glyphs t := by
    split
    · exact List.drop_suffix 1 _
    · exact List.suffix_rfl
  have hrun := Layout.broken_run (t.length + 2) (t.length + 2) ⟨hstart, by simp⟩ hf
  unfold glyphs at hrun
  rw [textOf_glyphsFrom] at hrun
  exact hrun.imp_right Excess.of_endMark

end HttpFile.Yaml
