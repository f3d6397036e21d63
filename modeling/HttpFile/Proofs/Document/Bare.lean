import HttpFile.Config
import HttpFile.Proofs.Document.Canonical
import HttpFile.Proofs.Document.Sections

/-!
# `HttpFile.Proofs.Document.Bare` — which configurations are usable

A request line may be bare: a target, with neither method nor version. These come from the configuration,
which may hold any text for them, and they are written out in the canonical text. So the canonical text of
a bare line says what the configuration says only if this can be read in a request line: the method must be
one that a file may name, and the version must be one.

## Contents
- **Reading.** `target?_newline`, `lexeme?_bare`, `parse_bare`.
- **Writing.** `settle_bare`, `parse_canonical_bare`.
- **Usable configurations.** `canonicalize_bare`.
-/

namespace HttpFile

open Text Unicode Syntax

/-! ## Reading -/

/-- A target is read up to the end of its last line. -/
theorem target?_newline {u : Text} (h : target? u = some u) : target? (u ++ ['\n']) = some u := by
  obtain ⟨w, ls, rfl, hw, hls⟩ := target?_shape h
  have hstop : targetTail false ['\n'] = [] := rfl
  refine target?_lines hw hls hstop ?_
  rw [joinLines_cons]
  intro hp
  have hslash := prefix_firstLine (by decide) hp
  rw [firstLine_line] at hslash
  exact hw.2.2.2 (slashes_isPrefix (hslash.trans (firstLine_isPrefix _)))

/-- A target without a gap behind its first word is no method. -/
theorem method?_bare {u : Text} (h : target? u = some u) : method? (u ++ ['\n']) = none := by
  cases hm : method? (u ++ ['\n']) with
  | none => rfl
  | some m =>
      obtain ⟨hmem, c, rest, hc, htext⟩ := method?_spec hm
      obtain ⟨w, ls, rfl, hw, hls⟩ := target?_shape h
      -- both the method and the first line of the target are what stands before the first blank
      have hmethod : ∀ m ∈ methods.map String.toList, ∀ x ∈ m, (!isBlank x) = true := by decide
      have hgap : (!isBlank c) = false := by rw [isBlank_of_isGap hc]; rfl
      have hline : ∃ more, joinLines (w :: ls) ++ ['\n'] = w ++ '\n' :: more := by
        rw [joinLines_cons]
        cases ls with
        | nil => exact ⟨[], by simp⟩
        | cons l ls => exact ⟨l ++ ls.flatMap ('\n' :: ·) ++ ['\n'], by simp⟩
      obtain ⟨more, hmore⟩ := hline
      have hword : ∀ x ∈ w, (!isBlank x) = true := fun x hx => by rw [hw.1 x hx]; rfl
      have hdrop := congrArg (List.dropWhile fun x => !isBlank x) (hmore.symm.trans htext)
      rw [dropWhile_append_stop hword (by decide), dropWhile_append_stop (hmethod m hmem) hgap] at hdrop
      rw [← (List.cons.inj hdrop).1] at hc
      exact absurd hc (by decide)

/-- At the start of a line, a target is read as one. -/
theorem lexeme?_bare {u : Text} (h : target? u = some u) :
    Context.lineStart.lexeme? (u ++ ['\n']) = some (.target, u) := by
  have hread := target?_newline h
  have hmethod := method?_bare h
  have hmeta : metadataMark? (u ++ ['\n']) = none := by
    cases hm : metadataMark? (u ++ ['\n']) with
    | none => rfl
    | some l =>
        obtain ⟨c, rest, ht, -, hno, hslash, -⟩ := target?_spec hread
        obtain ⟨mark, g, d, more, hmark, -, -, htext, -⟩ := metadataMark?_spec hm
        -- a target starts neither with the sign of a comment nor with two slashes
        rcases hmark with rfl | rfl
        · rw [ht] at htext
          rw [(List.cons.inj htext).1] at hno
          exact absurd hno (by decide)
        · exact absurd ⟨g ++ '@' :: d :: more, by rw [htext]; simp⟩ hslash
  obtain ⟨c, rest, rfl, hc, hno, -, -⟩ := target?_spec h
  have hend : Terminal.endOfLine.mayOpen c = false := by
    have hn : c ≠ '\n' := fun he => by rw [he] at hc; exact absurd hc (by decide)
    simp [Terminal.mayOpen, isGap_of_solid hc, hn]
  have hseparator : Terminal.separatorMark.mayOpen c = false := by
    have hne : c ≠ '#' := fun he => by rw [he] at hno; exact absurd hno (by decide)
    simp [Terminal.mayOpen, hne]
  -- so none of the kinds that are tried before it reads anything
  rw [lexeme?_lineStart]
  rw [List.cons_append] at hread hmethod hmeta ⊢
  rw [firstLexeme?_skip _ (lexeme?_eq_none hend _), firstLexeme?_skip _ (lexeme?_eq_none hseparator _),
    firstLexeme?_skip .metadataMark hmeta, firstLexeme?_skip .method hmethod]
  exact firstLexeme?_here .target hread _

/-- What a bare request line asks for. -/
def Document.bare (defaults : Defaults) (url : Text) : Document :=
  { blocks := [{ request := some {
      method := defaults.method
      url := Url.fold url
      version := defaults.version } }] }

/-- **A bare request line is read with what the configuration says**, its line ended or not. -/
theorem parse_bare (defaults : Defaults) (source : Text) {u t : Text} (hu : target? u = some u)
    (ht : t = u ∨ t = u ++ ['\n']) :
    Document.parse defaults source t = .ok (Document.bare defaults u) := by
  have hnormal : normalize t = u ++ ['\n'] := by
    have hcarriage := carriage_notMem_target hu
    rcases ht with rfl | rfl
    · -- a target does not end in a newline, so one is added
      have hends : endsWith t ['\n'] = false := by
        unfold endsWith
        rw [Bool.eq_false_iff, Ne, List.isSuffixOf_iff_suffix]
        rintro ⟨v, hv⟩
        exact absurd (last_target hu (by rw [← hv, List.getLast?_concat])) (by decide)
      unfold Syntax.normalize
      simp [unifyNewlines_eq_self hcarriage, hends]
    · apply normalize_eq_self
      · simpa using hcarriage
      · exact List.suffix_append _ _
  have houtline : outline .lineStart (normalize t) = some [.target (Token.bare .target u)] := by
    rw [hnormal, outline_opened (lexeme?_bare hu) rfl rfl fun _ => rfl]
    rfl
  rw [parse_of_outline defaults source houtline]
  have hne : (Url.fold u).isEmpty = false := by
    simpa using (Url.target?_fold hu).2.2
  have hkeep : (Document.bare defaults u).blocks.filter (fun b => !b.isEmpty) =
      (Document.bare defaults u).blocks := by
    simp [Document.bare, Block.isEmpty, hne]
  exact congrArg (fun bs => Except.ok (⟨[], bs⟩ : Document)) hkeep

/-! ## Writing -/

/-- A request without a body is written as it is. -/
theorem settle_bare (defaults : Defaults) (url : Text) (reformat : Bool) :
    (Document.bare defaults url).settle reformat = .ok (Document.bare defaults url) := by
  cases reformat <;> rfl

/-- **The canonical text of a bare request line is read back** where the configuration names a method and a
    version, whatever the configuration with which it is read. -/
theorem parse_canonical_bare {defaults : Defaults} (hm : defaults.method ∈ methods.map String.toList)
    (hv : version? defaults.version = some defaults.version) {u : Text} (hu : target? u = some u)
    (again : Defaults) (source : Text) :
    Document.parse again source (Document.bare defaults u).text = .ok (Document.bare defaults u) := by
  obtain ⟨htarget, hfold, hne⟩ := Url.target?_fold hu
  have hwritable : (Document.bare defaults u).Writable := by
    refine ⟨by simp [Document.bare], fun b hb => ?_⟩
    obtain rfl := List.mem_singleton.mp hb
    refine ⟨by simp [Block.isEmpty, hne], by simp, by simp, by simp, by simp, ?_, by simp, by simp, by simp⟩
    intro r hr
    obtain rfl := Option.some.inj hr
    exact ⟨⟨hm, htarget, hfold, hv, by simp⟩, by simp, rfl⟩
  have bodies : ∀ P : Text → Prop, ∀ b ∈ (Document.bare defaults u).blocks, ∀ r ∈ b.request,
      ∀ w ∈ r.body, P w := by
    intro P b hb r hr w hw
    obtain rfl := List.mem_singleton.mp hb
    obtain rfl := Option.some.inj hr
    simp at hw
  have hquiet : QuietBlocks (Document.bare defaults u).blocks :=
    ⟨⟨.nil, by simp, .nil, by simp⟩, trivial⟩
  have houtline := outline_document hwritable (by simp [Document.bare]) (bodies Inert) hquiet
  exact parse_text again source hwritable (bodies fun w => '\r' ∉ w) houtline

/-! ## Usable configurations -/

/-- **Which configurations are usable.** Whatever a configuration says, a bare request line has a canonical
    text. From it a single request is read with the method and the version of the configuration and the
    folded target exactly if the method is one that a file may name and the version is one; and then it
    is read so whatever the configuration. -/
theorem canonicalize_bare (defaults : Defaults) (reformat : Bool) (source : Text) {u t : Text}
    (hu : target? u = some u) (ht : t = u ∨ t = u ++ ['\n']) :
    ∃ c, canonicalize defaults reformat source t = .ok c ∧
      ((∃ d r, Document.parse {} source c = .ok d ∧ d.blocks.filterMap (·.request) = [r] ∧
          r.method = defaults.method ∧ r.url = Url.fold u ∧ r.version = defaults.version) ↔
        defaults.method ∈ methods.map String.toList ∧
          version? defaults.version = some defaults.version) ∧
      (defaults.method ∈ methods.map String.toList → version? defaults.version = some defaults.version →
        ∀ again, Document.parse again source c = .ok (Document.bare defaults u)) := by
  refine ⟨(Document.bare defaults u).text,
    canonicalize_eq_ok.mpr ⟨_, _, parse_bare defaults source hu ht, settle_bare defaults u reformat, rfl⟩,
    ⟨?_, ?_⟩, fun hm hv again => parse_canonical_bare hm hv hu again source⟩
  · rintro ⟨d, r, hparse, hrequests, hmethod, -, hversion⟩
    -- what is read from a request line is a method and a version, or the default ones, which are
    obtain ⟨b, hb, hr⟩ := List.mem_filterMap.mp (hrequests ▸ List.mem_singleton_self r)
    have hsound := (((extracted_of_parse hparse).blocks b hb).2.request r hr).sound
    rw [← hmethod, ← hversion]
    exact ⟨hsound.method, hsound.version⟩
  · rintro ⟨hm, hv⟩
    exact ⟨_, _, parse_canonical_bare hm hv hu {} source, rfl, rfl, rfl, rfl⟩

/-- A bare line over two lines, under a configuration that is usable. -/
theorem canonicalize_bare_example :
    let defaults : Defaults := { method := "POST", version := "HTTP/2" }
    let u : Text := "h/a\n  ?b=1&c=2"
    target? u = some u ∧
      ∃ c, canonicalize defaults true [] u = .ok c ∧
        ((∃ d r, Document.parse {} [] c = .ok d ∧ d.blocks.filterMap (·.request) = [r] ∧
            r.method = defaults.method ∧ r.url = Url.fold u ∧ r.version = defaults.version) ↔
          defaults.method ∈ methods.map String.toList ∧
            version? defaults.version = some defaults.version) ∧
        (defaults.method ∈ methods.map String.toList → version? defaults.version = some defaults.version →
          ∀ again, Document.parse again [] c = .ok (Document.bare defaults u)) := by
  refine ⟨?target, canonicalize_bare _ true [] ?target (.inl rfl)⟩
  decide

/-- A configuration is accepted with a method that no file may name, and the canonical text of a bare line is
    refused. -/
theorem canonicalize_bare_fails :
    let tree : Files.Tree :=
      { entries := [([configFile], .file (Utf8.encode "defaults:\n  http_method: FOO\n"))]
        current := [] }
    let defaults : Defaults := { method := "FOO" }
    let c : Text := "###\n\nFOO a HTTP/1.1\n"
    (loadConfig 400 tree (configPath tree)).outcome.1.toOption = some defaults ∧
      canonicalize defaults true [] "a\n" = .ok c ∧
      (Document.parse defaults [] c).toOption = none := by
  decide +kernel

end HttpFile
