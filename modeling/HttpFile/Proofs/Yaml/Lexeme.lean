import HttpFile.Proofs.Yaml.Ending
import HttpFile.Yaml.Lexeme

/-!
# `HttpFile.Proofs.Yaml.Lexeme` — what reading a lexeme comes to

Every lexeme is taken from the front of a stream, so what is left is an end of it. Only two lexemes fail in another way
than that the text is malformed: a quoted scalar with an escape by number, when there is no character of that number,
and a directive whose version has more digits than are converted.

## Contents
- **Excess.** `beyond?`, `EscapesBeyond`: an escape for a code point beyond all characters; `LongNumeral`; `Excess` for
  either.
- **Readings.** `Reads`: what is left is an end of the stream, and an excess in it is the only cause of failure.
- **Lexemes.** `reads_name`, `reads_tag`, `reads_directive`, `plain_suffix`, `reads_quoted` and `reads_block`.
-/

namespace HttpFile.Yaml

open Text Lexeme

/-! ## Excess -/

/-- How an escape for a code point fails, if the code point is beyond all characters. -/
def beyond? (code : Nat) : Option Failure :=
  if 0x80000000 ≤ code then some .tooLarge else if 0x110000 ≤ code then some .outOfRange else none

/-- The text holds an escape by number that fails. -/
def EscapesBeyond (t : Text) (f : Failure) : Prop :=
  ∃ before letter digits after code, t = before ++ '\\' :: letter :: (digits ++ after) ∧
    escapeDigits? letter = some digits.length ∧ hexValue? digits = some code ∧ beyond? code = some f

theorem EscapesBeyond.mono {t u : Text} {f : Failure} (h : EscapesBeyond t f) (ht : t <:+ u) : EscapesBeyond u f := by
  obtain ⟨before, letter, digits, after, code, rfl, hrest⟩ := h
  obtain ⟨front, rfl⟩ := ht
  exact ⟨front ++ before, letter, digits, after, code, (List.append_assoc front before _).symm, hrest⟩

/-- The text holds more digits in a row than are converted. -/
def LongNumeral (t : Text) (f : Failure) : Prop :=
  f = .outOfRange ∧ ∃ digits, digits <:+: t ∧ maxDigits < digits.length ∧ ∀ c ∈ digits, c.isDigit = true

/-- The text holds an escape or a numeral that is too large to be converted. -/
inductive Excess (t : Text) (f : Failure) : Prop
  | escape (h : EscapesBeyond t f)
  | numeral (h : LongNumeral t f)

theorem textOf_suffix {s s' : Stream} (h : s <:+ s') : textOf s <:+ textOf s' := h.map _

/-! ## Readings -/

/-- What is left of a stream is an end of it, and an excess in it is the only cause of failure. -/
abbrev Reads (whole : Stream) {α : Type} (r : Except Failure (α × Stream)) : Prop :=
  Ends (Excess (textOf whole)) (fun p => p.2 <:+ whole) r

variable {whole s : Stream}

theorem ends_require {cause : Failure → Prop} (b : Bool) : Ends cause (fun _ => b = true) (require b) := by
  cases b with
  | true => exact rfl
  | false => exact .inl rfl

theorem skipWhile_suffix (p : Char → Bool) (s : Stream) : skipWhile p s <:+ s := List.dropWhile_suffix _

theorem skipBreak_suffix (s : Stream) : skipBreak s <:+ s := by
  unfold skipBreak
  split
  · split
    · exact List.suffix_cons _ _
    · exact List.suffix_rfl
  · exact List.suffix_rfl

theorem ends_restOfLine (h : s <:+ whole) :
    Ends (Excess (textOf whole)) (fun rest => rest <:+ whole) (restOfLine s) := by
  unfold restOfLine
  refine (ends_require _).bind fun _ _ => ?_
  have hspaces := (skipWhile_suffix (· == ' ') s).trans h
  refine ends_pure ((skipBreak_suffix _).trans ?_)
  split
  · exact (skipWhile_suffix _ _).trans hspaces
  · exact hspaces

/-! ## Properties -/

theorem reads_name (h : s <:+ whole) : Reads whole (Lexeme.name s) := by
  unfold Lexeme.name
  refine (ends_require _).bind fun _ _ => (ends_require _).bind fun _ _ => ?_
  exact ends_pure ((skipWhile_suffix _ _).trans ((List.drop_suffix 1 s).trans h))

theorem reads_escapedBytes (bound : Nat) (h : s <:+ whole) : Reads whole (escapedBytes bound s) := by
  induction bound generalizing s with
  | zero => exact h
  | succ bound ih =>
      unfold escapedBytes
      split
      · split
        · refine (ih ((List.drop_suffix 3 s).trans h)).bind fun p hp => ?_
          exact ends_pure hp
        · exact ends_malformed
      · exact h

theorem reads_addressFrom (bound : Nat) (h : s <:+ whole) : Reads whole (addressFrom bound s) := by
  induction bound generalizing s with
  | zero => exact h
  | succ bound ih =>
      unfold addressFrom
      split
      · refine (reads_escapedBytes bound h).bind fun p hp => ?_
        obtain ⟨bs, rest⟩ := p
        simp only
        split
        · exact ends_malformed
        · exact (ih hp).bind fun p hp => ends_pure hp
      · split
        · exact (ih ((skipWhile_suffix _ s).trans h)).bind fun p hp => ends_pure hp
        · exact h

theorem reads_address (bound : Nat) (h : s <:+ whole) : Reads whole (address bound s) := by
  unfold address
  exact (ends_require _).bind fun _ _ => reads_addressFrom bound h

theorem reads_handle (h : s <:+ whole) : Reads whole (handle s) := by
  unfold handle
  refine (ends_require _).bind fun _ _ => ?_
  have hmark := (List.drop_suffix 1 s).trans h
  split
  · exact ends_pure hmark
  · refine (ends_require _).bind fun _ _ => ends_pure ?_
    exact (List.drop_suffix 1 _).trans ((skipWhile_suffix _ _).trans hmark)

theorem reads_tag (bound : Nat) (h : s <:+ whole) : Reads whole (Lexeme.tag bound s) := by
  have drop (n : Nat) : s.drop n <:+ whole := (List.drop_suffix n s).trans h
  unfold Lexeme.tag
  refine Ends.bind (P := fun p => p.2 <:+ whole) ?_ fun p hp => ?_
  · split
    · refine (reads_address bound (drop 2)).bind fun p hp => ?_
      exact (ends_require _).bind fun _ _ => ends_pure ((List.drop_suffix 1 _).trans hp)
    · split
      · exact ends_pure (drop 1)
      · split
        · refine (reads_handle h).bind fun p hp => ?_
          exact (reads_address bound hp).bind fun p hp => ends_pure hp
        · exact (reads_address bound (drop 1)).bind fun p hp => ends_pure hp
  · exact (ends_require _).bind fun _ _ => ends_pure hp

theorem reads_versionNumber (h : s <:+ whole) : Reads whole (versionNumber s) := by
  unfold versionNumber
  refine (ends_require _).bind fun _ _ => ?_
  split
  · next hlong =>
    have hdigits : textOf (s.takeWhile fun g => g.char.isDigit) <:+: textOf whole :=
      ((List.takeWhile_prefix _).isInfix.trans h.isInfix).map Glyph.char
    refine .inr (.numeral ⟨rfl, _, hdigits, hlong, fun c hc => ?_⟩)
    obtain ⟨g, hg, rfl⟩ := List.mem_map.mp hc
    exact List.all_eq_true.mp List.all_takeWhile g hg
  · exact ends_pure ((skipWhile_suffix _ s).trans h)

theorem reads_version (h : s <:+ whole) : Reads whole (version s) := by
  unfold version
  refine (reads_versionNumber ((skipWhile_suffix _ s).trans h)).bind fun p hp => ?_
  refine (ends_require _).bind fun _ _ => ?_
  refine (reads_versionNumber ((List.drop_suffix 1 _).trans hp)).bind fun p hp => ?_
  exact (ends_require _).bind fun _ _ => ends_pure hp

theorem reads_handleDeclaration (bound : Nat) (h : s <:+ whole) : Reads whole (handleDeclaration bound s) := by
  unfold handleDeclaration
  refine (reads_handle ((skipWhile_suffix _ s).trans h)).bind fun p hp => ?_
  refine (ends_require _).bind fun _ _ => ?_
  refine (reads_address bound ((skipWhile_suffix _ _).trans hp)).bind fun p hp => ?_
  exact (ends_require _).bind fun _ _ => ends_pure hp

theorem reads_directive (bound : Nat) (h : s <:+ whole) : Reads whole (Lexeme.directive bound s) := by
  unfold Lexeme.directive
  refine (ends_require _).bind fun _ _ => (ends_require _).bind fun _ _ => ?_
  have hname : skipWhile isNameChar (s.drop 1) <:+ whole :=
    (skipWhile_suffix _ _).trans ((List.drop_suffix 1 s).trans h)
  have line (p : Directive × Stream) (hp : p.2 <:+ whole) : Reads whole (do
      let rest ← restOfLine p.2
      pure (p.1, rest)) := (ends_restOfLine hp).bind fun rest hrest => ends_pure hrest
  simp only
  split
  · exact (reads_version hname).bind line
  · split
    · exact (reads_handleDeclaration bound hname).bind line
    · exact line (.other, _) ((skipWhile_suffix (fun c => !isEndOrBreak c) _).trans hname)

/-! ## Plain scalars -/

theorem plainRun_suffix (inFlow : Bool) (s : Stream) : (plainRun inFlow s).2 <:+ s := by
  induction s with
  | nil => exact List.suffix_rfl
  | cons g rest ih =>
      unfold plainRun
      split
      · exact List.suffix_rfl
      · exact ih.trans (List.suffix_cons g rest)

theorem plainBreaks_suffix (s : Stream) : (plainBreaks s).2 <:+ s := by
  induction s with
  | nil => exact List.suffix_rfl
  | cons g rest ih =>
      unfold plainBreaks
      split
      · exact ih.trans (List.suffix_cons g rest)
      · split
        · split
          · exact List.suffix_cons g rest
          · exact ih.trans (List.suffix_cons g rest)
        · exact List.suffix_rfl

theorem plainBlanks_suffix (s : Stream) : (plainBlanks s).2.2 <:+ s := by
  have hspaces : skipWhile (· == ' ') s <:+ s := skipWhile_suffix _ s
  unfold plainBlanks spanWhile
  simp only
  split
  · next g after hrest =>
    have hafter : after <:+ s := (List.suffix_cons g after).trans (hrest ▸ hspaces)
    split
    · split
      · exact hafter
      · split
        · next others after' hbreaks =>
          have hbreak := plainBreaks_suffix after
          rw [hbreaks] at hbreak
          exact hbreak.trans hafter
        · next after' hbreaks =>
          have hbreak := plainBreaks_suffix after
          rw [hbreaks] at hbreak
          exact hbreak.trans hafter
    · exact hspaces
  · exact hspaces

theorem plainFrom_suffix (inFlow : Bool) (indent : Int) (bound : Nat) (blanks : Text) (crossed : Bool) (s : Stream) :
    (plainFrom inFlow indent bound blanks crossed s).2.2 <:+ s := by
  induction bound generalizing blanks crossed s with
  | zero => exact List.suffix_rfl
  | succ bound ih =>
      unfold plainFrom
      split
      · exact List.suffix_rfl
      · split
        · exact List.suffix_rfl
        · next run rest _ hrun =>
          have hrest : rest <:+ s := by
            have hsuffix := plainRun_suffix inFlow s
            rwa [hrun] at hsuffix
          have hblanks := (plainBlanks_suffix rest).trans hrest
          simp only
          split
          · exact hblanks
          · exact (ih _ _ _).trans hblanks

theorem plain_suffix (bound : Nat) (inFlow : Bool) (indent : Int) (s : Stream) :
    (plain bound inFlow indent s).2.2 <:+ s := plainFrom_suffix inFlow indent bound [] false s

/-! ## Quoted scalars -/

/-- Digits behind the letter of an escape fail as malformed, or because they are beyond all characters. -/
theorem ends_codePoint {letter : Char} {digits : Nat} (hletter : escapeDigits? letter = some digits) (s : Stream) :
    Ends (EscapesBeyond ('\\' :: letter :: textOf s)) (fun _ => True) (codePoint digits s) := by
  unfold codePoint
  refine (ends_require _).bind fun _ hlength => ?_
  have hdigits : (textOf (s.take digits)).length = digits := by simpa using hlength
  split
  · exact ends_malformed
  · next code hcode =>
    have hbeyond : ∀ f, beyond? code = some f → EscapesBeyond ('\\' :: letter :: textOf s) f := fun f hf =>
      ⟨[], letter, textOf (s.take digits), textOf (s.drop digits), code, by
        unfold textOf
        rw [← List.map_append, List.take_append_drop]
        rfl, by rw [hletter, hdigits], hcode, hf⟩
    split
    · next h => exact .inr (hbeyond _ (by simp [beyond?, h]))
    · next h =>
      split
      · next h' => exact .inr (hbeyond _ (by simp [beyond?, h, h']))
      · trivial

theorem reads_quotedBreaks (bound : Nat) (h : s <:+ whole) : Reads whole (quotedBreaks bound s) := by
  induction bound generalizing s with
  | zero => exact ends_malformed
  | succ bound ih =>
      unfold quotedBreaks
      split
      · exact ends_malformed
      · have hblanks := (skipWhile_suffix (fun c => c == ' ' || c == '\t') s).trans h
        split
        · exact ends_malformed
        · next g rest hrest =>
          rw [hrest] at hblanks
          split
          · exact (ih ((List.suffix_cons g rest).trans hblanks)).bind fun p hp => ends_pure hp
          · exact hblanks

/-- An escape by number inside a stream. -/
theorem ends_escape {g : Glyph} {rest : Stream} {digits : Nat} (h : g :: rest <:+ whole) (hslash : g.char = '\\')
    (hdigits : escapeDigits? (peek rest) = some digits) :
    Ends (Excess (textOf whole)) (fun _ => True) (codePoint digits (rest.drop 1)) := by
  cases rest with
  | nil => simp [peek, escapeDigits?, endMark] at hdigits
  | cons e after =>
      have hescape : '\\' :: e.char :: textOf after <:+ textOf whole := by
        rw [← hslash]
        exact textOf_suffix h
      exact (ends_codePoint hdigits after).mono_cause fun f hf => .inr (.escape (hf.mono hescape))

/-- Inside quotes a character that is neither passed over nor a blank nor a quote starts an escape. -/
theorem eq_backslash {c : Char} (hordinary : ¬isOrdinary c = true) (hend : ¬c = endMark)
    (hblank : ¬(decide (c = ' ') || decide (c = '\t') || isLineBreak c) = true) (hdouble : ¬c = '"')
    (hsingle : ¬c = '\'') : c = '\\' := by
  refine Decidable.byContradiction fun hc => hordinary ?_
  have hspace : isBlankOrEnd c = false := by
    simp only [Bool.or_eq_true, decide_eq_true_eq, not_or, Bool.not_eq_true] at hblank
    simp [isBlankOrEnd, isSpaceOrEnd, isEndOrBreak, hend, hblank]
  simp [isOrdinary, hspace, hc, hdouble, hsingle]

theorem reads_quotedFrom (double : Bool) (bound : Nat) (h : s <:+ whole) :
    Reads whole (quotedFrom double bound s) := by
  induction bound generalizing s with
  | zero => exact ends_malformed
  | succ bound ih =>
      -- every branch goes on with an end of the stream
      have more {codes : List Nat} {rest : Stream} (hrest : rest <:+ whole) :
          Reads whole (do
            let p ← quotedFrom double bound rest
            return (codes ++ p.1, p.2)) := (ih hrest).bind fun p hp => ends_pure hp
      unfold quotedFrom
      cases s with
      | nil => exact ends_malformed
      | cons g rest =>
          have hrest : rest <:+ whole := (List.suffix_cons g rest).trans h
          simp only
          split
          · exact more ((skipWhile_suffix isOrdinary (g :: rest)).trans h)
          · next hordinary =>
            split
            · exact ends_malformed
            · next hend =>
              split
              · have hblanks := (skipWhile_suffix (fun c => c == ' ' || c == '\t') (g :: rest)).trans h
                split
                · exact ends_malformed
                · next b after hafter =>
                  have hb : b :: after <:+ whole := by
                    rw [← hafter]
                    exact hblanks
                  split
                  · exact ends_malformed
                  · split
                    · exact (reads_quotedBreaks bound ((List.suffix_cons b after).trans hb)).bind fun p hp => more hp
                    · exact more hblanks
              · next hblank =>
                split
                · split
                  · exact hrest
                  · next hdouble =>
                    split
                    · exact more hrest
                    · next hsingle =>
                      -- neither a blank nor a quote, so an escape
                      have hslash := eq_backslash hordinary hend hblank hdouble hsingle
                      split
                      · exact more ((List.drop_suffix 1 rest).trans hrest)
                      · next digits _ hdigits =>
                        refine (ends_escape h hslash hdigits).bind fun code _ => more ?_
                        exact (List.drop_suffix _ _).trans hrest
                      · split
                        · refine (reads_quotedBreaks bound ((List.drop_suffix 1 rest).trans hrest)).bind fun p hp => ?_
                          exact more hp
                        · exact ends_malformed
                · split
                  · split
                    · exact more ((List.drop_suffix 1 rest).trans hrest)
                    · exact hrest
                  · exact more hrest

theorem reads_quoted (bound : Nat) (double : Bool) (h : s <:+ whole) : Reads whole (Lexeme.quoted bound double s) := by
  unfold Lexeme.quoted
  exact (reads_quotedFrom double bound ((List.drop_suffix 1 s).trans h)).bind fun p hp => ends_pure hp

/-! ## Block scalars -/

theorem reads_increment (h : s <:+ whole) : Reads whole (increment s) := by
  unfold increment
  simp only
  split
  · exact (ends_require _).bind fun _ _ => ends_pure ((List.drop_suffix 1 s).trans h)
  · exact ends_pure h

theorem reads_blockMarks (h : s <:+ whole) : Reads whole (blockMarks s) := by
  unfold blockMarks
  refine Ends.bind (P := fun p => p.2 <:+ whole) ?_ fun p hp => ?_
  · split
    · exact (reads_increment ((List.drop_suffix 1 s).trans h)).bind fun p hp => ends_pure hp
    · refine (reads_increment h).bind fun p hp => ?_
      simp only
      split
      · exact ends_pure ((List.drop_suffix 1 _).trans hp)
      · exact ends_pure hp
  · exact (ends_require _).bind fun _ _ => ends_pure hp

theorem blockIndentation_suffix (widest : Nat) (s : Stream) : (blockIndentation widest s).2.2 <:+ s := by
  induction s generalizing widest with
  | nil => exact List.suffix_rfl
  | cons g rest ih =>
      unfold blockIndentation
      split
      · exact (ih _).trans (List.suffix_cons g rest)
      · split
        · exact (ih _).trans (List.suffix_cons g rest)
        · exact List.suffix_rfl

theorem blockBreaks_suffix (indent : Nat) (s : Stream) : (blockBreaks indent s).2 <:+ s := by
  induction s with
  | nil => exact List.suffix_rfl
  | cons g rest ih =>
      unfold blockBreaks
      split
      · exact ih.trans (List.suffix_cons g rest)
      · split
        · exact ih.trans (List.suffix_cons g rest)
        · exact List.suffix_rfl

theorem lineBreak_suffix (s : Stream) : (lineBreak s).2 <:+ s := by
  unfold lineBreak
  split
  · split
    · exact List.suffix_cons _ _
    · exact List.suffix_rfl
  · exact List.suffix_rfl

theorem blockLines_suffix (fold : Bool) (indent bound : Nat) (breaks : Text) (s : Stream) :
    (blockLines fold indent bound breaks s).2.2.2 <:+ s := by
  induction bound generalizing breaks s with
  | zero => exact List.suffix_rfl
  | succ bound ih =>
      unfold blockLines
      split
      · have hline := (lineBreak_suffix _).trans (skipWhile_suffix (fun c => !isEndOrBreak c) s)
        have hnext := (blockBreaks_suffix indent _).trans hline
        simp only
        split
        · exact (ih _ _).trans hnext
        · exact hnext
      · exact List.suffix_rfl

theorem reads_block (bound : Nat) (fold : Bool) (indent : Int) (h : s <:+ whole) :
    Reads whole (block bound fold indent s) := by
  unfold block
  refine (reads_blockMarks ((List.drop_suffix 1 s).trans h)).bind fun p hp => ?_
  obtain ⟨⟨chomping, n⟩, rest⟩ := p
  refine (ends_restOfLine hp).bind fun rest hrest => ?_
  have hlines (indent : Nat) (breaks : Text) {s : Stream} (hs : s <:+ rest) :
      (blockLines fold indent bound breaks s).2.2.2 <:+ whole :=
    ((blockLines_suffix fold indent bound breaks s).trans hs).trans hrest
  cases n with
  | none => cases chomping <;> exact ends_pure (hlines _ _ (blockIndentation_suffix 0 rest))
  | some n => cases chomping <;> exact ends_pure (hlines _ _ (blockBreaks_suffix _ rest))

end HttpFile.Yaml
