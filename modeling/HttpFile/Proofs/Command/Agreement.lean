import HttpFile.Command.Run
import HttpFile.Proofs.Ansi
import HttpFile.Proofs.Check
import HttpFile.Proofs.Document.Canonical
import HttpFile.Proofs.Document.Extracted
import HttpFile.Proofs.Files.Kept
import HttpFile.Proofs.Text.Utf8

/-!
# `HttpFile.Proofs.Command.Agreement` — a text on standard input and in a file

A text may come on standard input, or stand in a file. The two ways meet in the canonical form, which does
not depend on the name that the text has in messages, so commands end in the same way for both. They part
where the canonical text is put: a file gets it as it is, and a channel without colours gets it without its
escape sequences.

## Contents
- **Command lines.** `Asks`, `run_of_asks`; `named_of_asks` for the paths.
- **Canonical forms.** `canonicalize_source`, `endingFor`.
- **Standard input.** `ending_processStdin`, `stdout_processStdin`.
- **One file.** `outcome_checkFile`, `processPaths_file`; `ending_processPaths`, `readText_processPaths`.
- **Agreement.** `Paired`, `Prints`, `Leaves`; `Paired.ending_file`, `Paired.formatted_stdin` and
  `Paired.formatted_file`, from which `stdin_agrees`.
-/

namespace HttpFile.Command

open Text Files

/-! ## Command lines -/

/-- A command line that asks to check or format, and what it says about that. -/
def Asks (tree : Tree) (words : List Text) (mode : Mode) (w : FileWords) : Prop :=
  ∃ s, readStart words = .work s ∧
    match mode with
    | .format => s.subcommand = "format".toList ∧ readFormat tree s.words = .work w
    | .check => s.subcommand = "check".toList ∧ readCheck tree s.words = .work w

/-- Notes do not show on the first channel. -/
theorem stdout_after_logged (notes : List Note) (r : Reply) (colour : Bool) :
    (r.after (logged notes)).stdout colour = r.stdout colour := by
  unfold Reply.stdout Reply.after logged
  rw [List.flatMap_append, List.flatMap_map]
  simp

/-- A command line that asks to check or format is done so with the configuration. -/
theorem run_of_asks {room : Nat} {tree : Tree} {words : List Text} {mode : Mode} {w : FileWords}
    {defaults : Defaults}
    (hconfig : (loadConfig room tree (configPath tree)).outcome.1 = .ok defaults) (h : Asks tree words mode w) :
    ∃ notes, ∀ stdin, run room tree words stdin =
      (processWords mode tree defaults (unifyNewlines stdin) w).after (logged notes) := by
  refine ⟨(loadConfig room tree (configPath tree)).outcome.2, fun stdin => ?_⟩
  obtain ⟨s, hs, hwords⟩ := h
  have hload : (loadConfig room tree (configPath tree)).outcome =
      (.ok defaults, (loadConfig room tree (configPath tree)).outcome.2) := Prod.ext hconfig rfl
  unfold run
  rw [hs]
  show runSubcommand room tree (unifyNewlines stdin) s = _
  -- the subcommand is not the one that does without a configuration
  unfold runSubcommand runConfigured
  cases mode with
  | format =>
      obtain ⟨hsub, hread⟩ := hwords
      rw [if_neg (by rw [hsub]; decide), hload]
      simp only
      rw [if_pos hsub, hread]
      rfl
  | check =>
      obtain ⟨hsub, hread⟩ := hwords
      rw [if_neg (by rw [hsub]; decide), hload]
      simp only
      rw [if_neg (by rw [hsub]; decide), if_pos hsub, hread]
      rfl

theorem named_ofText (word : Text) : [] ∉ (Path.ofText word).parts := by
  unfold Path.ofText Path.partsOf
  simp

theorem named_existingPath {tree : Tree} {word : Text} {p : Path} (h : existingPath tree word = .ok p) :
    [] ∉ p.parts := by
  unfold existingPath at h
  split at h
  · simp at h
  · split at h
    · rw [← Except.ok.inj h]
      exact named_ofText word
    · simp at h

theorem named_readFileWords {tree : Tree} {specs : List OptionSpec} {words : List Text} {w : FileWords}
    (h : readFileWords tree specs words = .work w) : ∀ p ∈ w.paths, [] ∉ p.parts := by
  unfold readFileWords readWords at h
  split at h
  · simp at h
  · next given rest _ =>
      cases hpaths : rest.mapM (existingPath tree) with
      | error e =>
          simp only [hpaths] at h
          cases e <;> split at h <;> simp [bind, Except.bind] at h
      | ok paths =>
          simp only [hpaths] at h
          split at h
          · simp at h
          · obtain rfl := Asked.work.inj h
            intro p hp
            obtain ⟨word, -, hword⟩ := exists_of_forall₂ (forall₂_of_mapM hpaths) hp
            exact named_existingPath hword

/-- The paths that a command line names have no empty parts. -/
theorem named_of_asks {tree : Tree} {words : List Text} {mode : Mode} {w : FileWords}
    (h : Asks tree words mode w) : ∀ p ∈ w.paths, [] ∉ p.parts := by
  obtain ⟨s, -, h⟩ := h
  cases mode with
  | format => exact named_readFileWords h.2
  | check => exact named_readFileWords h.2

/-! ## Canonical forms -/

/-- **A canonical form does not depend on the name in messages**, nor does the lack of one. -/
theorem canonicalize_source (defaults : Defaults) (reformat : Bool) (source source' t : Text) :
    canonicalize defaults reformat source' t = canonicalize defaults reformat source t ∨
      ∃ e e', canonicalize defaults reformat source t = .error (.parse e) ∧
        canonicalize defaults reformat source' t = .error (.parse e') := by
  unfold canonicalize
  rcases parse_eq_outline defaults source t with ⟨es, hes, hparse⟩ | ⟨hnone, e, hparse⟩
  · exact .inl (by rw [parse_of_outline defaults source' hes, hparse])
  · rcases parse_eq_outline defaults source' t with ⟨es, hes, -⟩ | ⟨-, e', hparse'⟩
    · simp [hnone] at hes
    · exact .inr ⟨e, e', by rw [hparse], by rw [hparse']⟩

/-- How a command on a text ends, given the canonical form of the text. -/
def endingFor (mode : Mode) (t : Text) : Except CanonicalError Text → Ending
  | .error (.parse _) => .exit 1
  | .error (.format e) => if e.escapes then .escaped (.format e) else .exit formatCode
  | .error (.halves _) =>
    match mode with
    | .check => .exit 1
    | .format => .escaped .halves
  | .ok canonical =>
    match mode with
    | .check => .exit (if t = canonical then 0 else 1)
    | .format => .exit 0

theorem ending_bodyFailure (tree : Tree) (e : FormatError) :
    (bodyFailure tree e).ending = if e.escapes then .escaped (.format e) else .exit formatCode := by
  unfold bodyFailure
  split <;> rfl

theorem endingFor_source (mode : Mode) (defaults : Defaults) (reformat : Bool) (source source' t : Text) :
    endingFor mode t (canonicalize defaults reformat source' t) =
      endingFor mode t (canonicalize defaults reformat source t) := by
  rcases canonicalize_source defaults reformat source source' t with hsame | ⟨e, e', he, he'⟩
  · rw [hsame]
  · rw [he, he']
    rfl

/-! ## Standard input -/

theorem ending_processStdin (mode : Mode) (tree : Tree) (settings : Settings) (verbose : Bool) (t : Text) :
    (processStdin mode tree settings verbose t).ending =
      endingFor mode t (canonicalize settings.defaults settings.reformatBody stdinName t) := by
  unfold processStdin
  rcases canonicalize settings.defaults settings.reformatBody stdinName t with (e | e | w) | c
  · rfl
  · exact ending_bodyFailure tree e
  · cases mode <;> rfl
  · cases mode with
    | format => rfl
    | check =>
        show Ending.exit (if (FileResult.failed _) then 1 else 0) = .exit (if t = c then 0 else 1)
        by_cases hc : t = c <;> simp [hc, FileResult.failed]

theorem stdout_processStdin {tree : Tree} {settings : Settings} {t c : Text} (verbose : Bool)
    (hc : canonicalize settings.defaults settings.reformatBody stdinName t = .ok c) :
    (processStdin .format tree settings verbose t).stdout false = Ansi.stripSequences c := by
  unfold processStdin
  rw [hc]
  show Ansi.stripSequences c ++ [] = _
  rw [List.append_nil]

/-! ## One file -/

section OneFile

variable {tree : Tree} {settings : Settings} {p : Path} {t : Text}

theorem outcome_checkFile (settings : Settings) (hread : tree.readText p = .ok t) :
    ∃ notes, (checkFile tree settings p).outcome =
      (match canonicalize settings.defaults settings.reformatBody p.text t with
        | .ok c => .ok ⟨p, if t = c then .valid else .invalid, t, letters c, none⟩
        | .error (.parse e) => .ok ⟨p, .error, t, [], some e.message⟩
        | .error (.format e) => .error e
        | .error (.halves w) => .ok ⟨p, .invalid, t, w, none⟩, notes) := by
  unfold checkFile checkText
  rw [hread]
  simp only
  rcases canonicalize settings.defaults settings.reformatBody p.text t with (e | e | w) | c
  · exact ⟨_, rfl⟩
  · exact ⟨_, rfl⟩
  · exact ⟨_, rfl⟩
  · exact ⟨_, rfl⟩

/-- A file that has been checked has its canonical text afterwards, whether it had it before or not. -/
theorem settle_file (hread : tree.readText p = .ok t) (c : Text) :
    ∃ after, settle tree ⟨p, if t = c then .valid else .invalid, t, letters c, none⟩ =
        (after, some ⟨p, if t = c then .valid else .formatted, t, letters c, none⟩) ∧
      after.readText p = .ok (unifyNewlines c) := by
  by_cases hc : t = c
  · -- the file is left alone, and its text needs no unifying since it was read
    refine ⟨tree, by rw [if_pos hc, if_pos hc]; rfl, ?_⟩
    rw [hread, ← hc, Tree.unifyNewlines_readText hread]
  · obtain ⟨hnull, l, hl⟩ := Tree.target?_of_readText hread
    refine ⟨_, ?_, Tree.readText_writeText (Tree.writeBytes_of_target hnull hl (Utf8.encode c))⟩
    rw [if_neg hc, if_neg hc]
    unfold settle
    simp only [Tree.writeWide_of_target hnull hl, encodedWide, text?_letters]
    rfl

/-- A file whose canonical text has halves has no outcome. -/
theorem settle_halves (hread : tree.readText p = .ok t) {w : Wide} (hw : Word.text? w = none) :
    ∃ after, settle tree ⟨p, .invalid, t, w, none⟩ = (after, none) := by
  obtain ⟨hnull, l, hl⟩ := Tree.target?_of_readText hread
  refine ⟨tree.put l (.file (encodedWide w)), ?_⟩
  unfold settle
  simp only [Tree.writeWide_of_target hnull hl, hw]
  rfl

variable (hp : [] ∉ p.parts) (hread : tree.readText p = .ok t)

include hp hread

/-- One file is the only one that is worked on. -/
theorem processPaths_file (mode : Mode) (verbose : Bool) :
    processPaths mode tree settings verbose [p] =
      runReply mode verbose (match mode with
        | .check => checkAll tree settings [p]
        | .format => formatAll settings tree [p]) := by
  obtain ⟨hnull, l, hl⟩ := Tree.target?_of_readText hread
  unfold processPaths processFiles
  simp only [List.isEmpty_cons, Bool.false_eq_true, if_false]
  rw [outcome_map, outcome_collectFiles_file requestExtensions hp hnull hl]
  cases mode <;> rfl

theorem ending_processPaths (mode : Mode) (verbose : Bool) :
    (processPaths mode tree settings verbose [p]).ending =
      endingFor mode t (canonicalize settings.defaults settings.reformatBody p.text t) := by
  rw [processPaths_file hp hread]
  obtain ⟨notes, hcheck⟩ := outcome_checkFile settings hread
  cases mode with
  | check =>
      simp only [checkAll, hcheck]
      rcases canonicalize settings.defaults settings.reformatBody p.text t with (e | e | w) | c
      · rfl
      · exact ending_bodyFailure tree e
      · rfl
      · by_cases hc : t = c <;> simp [hc, runReply, Run.cons, countsAgainst, FileResult.failed, endingFor]
  | format =>
      simp only [formatAll, formatFile, outcome_map, hcheck]
      cases hcanonical : canonicalize settings.defaults settings.reformatBody p.text t with
      | error e =>
          cases e with
          | parse e => rfl
          | format e => exact ending_bodyFailure tree e
          | halves w =>
              obtain ⟨after, hsettle⟩ := settle_halves hread (text?_of_halves hcanonical)
              simp only [Except.map, hsettle]
              rfl
      | ok c =>
        obtain ⟨after, hsettle, -⟩ := settle_file hread c
        simp only [Except.map, hsettle]
        by_cases hc : t = c <;> simp [hc, runReply, Run.cons, countsAgainst, endingFor]

theorem readText_processPaths (verbose : Bool) {c : Text}
    (hc : canonicalize settings.defaults settings.reformatBody p.text t = .ok c) :
    (processPaths .format tree settings verbose [p]).tree.readText p = .ok (unifyNewlines c) := by
  rw [processPaths_file hp hread]
  obtain ⟨notes, hcheck⟩ := outcome_checkFile settings hread
  obtain ⟨after, hsettle, hafter⟩ := settle_file hread c
  simp only [formatAll, formatFile, outcome_map, hcheck, hc, Except.map, hsettle]
  exact hafter

end OneFile

/-! ## Agreement -/

/-- Two command lines with the same mode and the same word on bodies, one for the text on standard input, the
    other for the file at a path. -/
structure Paired (tree : Tree) (mode : Mode) (body : Bool) (p : Path) (words words' : List Text) : Prop where
  stdin : ∃ w, Asks tree words mode w ∧ w.stdin = true ∧ w.body = body
  file : ∃ w, Asks tree words' mode w ∧ w.stdin = false ∧ w.body = body ∧ w.paths = [p]

/-- A command succeeds and shows a text, up to newlines, on a first channel without colours. -/
def Prints (r : Reply) (s : Text) : Prop :=
  r.ending = .exit 0 ∧ unifyNewlines (r.stdout false) = unifyNewlines s

instance (r : Reply) (s : Text) : Decidable (Prints r s) := inferInstanceAs (Decidable (_ ∧ _))

/-- A command succeeds and leaves a file that reads as a text, up to newlines. -/
def Leaves (r : Reply) (p : Path) (s : Text) : Prop :=
  r.ending = .exit 0 ∧ r.tree.readText p = .ok (unifyNewlines s)

instance (r : Reply) (p : Path) (s : Text) : Decidable (Leaves r p s) :=
  inferInstanceAs (Decidable (_ ∧ _))

section Agreement

variable {room : Nat} {tree : Tree} {defaults : Defaults} {mode : Mode} {body : Bool} {p : Path}
  {words words' : List Text} {t : Text}
  (hconfig : (loadConfig room tree (configPath tree)).outcome.1 = .ok defaults)
  (h : Paired tree mode body p words words')

include hconfig h

/-- The text on standard input is what the first command is about. -/
theorem Paired.run_stdin (t : Text) :
    ∃ notes verbose, run room tree words t =
      (processStdin mode tree ⟨defaults, body⟩ verbose (unifyNewlines t)).after (logged notes) := by
  obtain ⟨w, hasks, hstdin, rfl⟩ := h.stdin
  obtain ⟨notes, hrun⟩ := run_of_asks hconfig hasks
  refine ⟨notes, w.verbose, ?_⟩
  rw [hrun]
  unfold processWords
  rw [if_pos hstdin]

/-- The file is what the second command is about, whatever stands on standard input. -/
theorem Paired.run_file (t : Text) :
    [] ∉ p.parts ∧ ∃ notes verbose, run room tree words' t =
      (processPaths mode tree ⟨defaults, body⟩ verbose [p]).after (logged notes) := by
  obtain ⟨w, hasks, hstdin, rfl, hpaths⟩ := h.file
  obtain ⟨notes, hrun⟩ := run_of_asks hconfig hasks
  refine ⟨named_of_asks hasks p (by simp [hpaths]), notes, w.verbose, ?_⟩
  rw [hrun]
  unfold processWords
  rw [if_neg (by simp [hstdin]), hpaths]

theorem Paired.ending_stdin (t : Text) :
    (run room tree words t).ending =
      endingFor mode (unifyNewlines t) (canonicalize defaults body stdinName (unifyNewlines t)) := by
  obtain ⟨notes, verbose, hrun⟩ := h.run_stdin hconfig t
  rw [hrun]
  exact ending_processStdin mode tree ⟨defaults, body⟩ verbose (unifyNewlines t)

/-- **Both commands end in the same way.** -/
theorem Paired.ending_file (hread : tree.readBytes p = .ok (Utf8.encode t)) (t' : Text) :
    (run room tree words t).ending = (run room tree words' t').ending := by
  obtain ⟨hp, notes, verbose, hrun⟩ := h.run_file hconfig t'
  rw [h.ending_stdin hconfig t, hrun]
  show _ = (processPaths mode tree ⟨defaults, body⟩ verbose [p]).ending
  -- the file has another name than standard input, which only shows in messages
  rw [ending_processPaths hp (Tree.readText_of_readBytes hread)]
  exact (endingFor_source mode defaults body stdinName p.text (unifyNewlines t)).symm

end Agreement

section Formatted

variable {room : Nat} {tree : Tree} {defaults : Defaults} {body : Bool} {p : Path} {words words' : List Text} {t c : Text}
  (hconfig : (loadConfig room tree (configPath tree)).outcome.1 = .ok defaults)
  (h : Paired tree .format body p words words')
  (hc : canonicalize defaults body stdinName (unifyNewlines t) = .ok c)

include hconfig h hc

theorem Paired.formatted_stdin :
    (run room tree words t).ending = .exit 0 ∧ (run room tree words t).stdout false = Ansi.stripSequences c := by
  constructor
  · rw [h.ending_stdin hconfig t, hc]
    rfl
  · obtain ⟨notes, verbose, hrun⟩ := h.run_stdin hconfig t
    rw [hrun, stdout_after_logged]
    exact stdout_processStdin verbose hc

theorem Paired.formatted_file (hread : tree.readBytes p = .ok (Utf8.encode t)) (t' : Text) :
    (run room tree words' t').ending = .exit 0 ∧
      (run room tree words' t').tree.readText p = .ok (unifyNewlines c) := by
  constructor
  · rw [← h.ending_file hconfig hread t']
    exact (h.formatted_stdin hconfig hc).1
  · obtain ⟨hp, notes, verbose, hrun⟩ := h.run_file hconfig t'
    have hcanonical : canonicalize defaults body p.text (unifyNewlines t) = .ok c := by
      rcases canonicalize_source defaults body stdinName p.text (unifyNewlines t) with
        hsame | ⟨e, _, he, -⟩
      · rw [hsame, hc]
      · simp [hc] at he
    rw [hrun]
    exact readText_processPaths hp (Tree.readText_of_readBytes hread) verbose hcanonical

end Formatted

/-- **Where the two ways part.** Standard input and a file with the same text end a command in the same way,
    whether it checks or formats. If the text has a canonical form, formatting succeeds in both; the file
    then holds the canonical text, and the channel shows what is left of it without escape sequences. So
    the two give the same text, up to newlines, exactly if the canonical text has no such sequence. -/
theorem stdin_agrees {room : Nat} {tree : Tree} {defaults : Defaults} {mode : Mode} {body : Bool}
    {p : Path} {words words' : List Text} {t : Text}
    (hconfig : (loadConfig room tree (configPath tree)).outcome.1 = .ok defaults)
    (h : Paired tree mode body p words words') (hread : tree.readBytes p = .ok (Utf8.encode t)) (t' : Text) :
    (run room tree words t).ending = (run room tree words' t').ending ∧
      (mode = .format →
        (∀ c, canonicalize defaults body stdinName (unifyNewlines t) = .ok c →
          ((run room tree words t).ending = .exit 0 ∧
            (run room tree words t).stdout false = Ansi.stripSequences c) ∧
          (run room tree words' t').ending = .exit 0 ∧
            (run room tree words' t').tree.readText p = .ok (unifyNewlines c)) ∧
        ((∀ s, Prints (run room tree words t) s ↔ Leaves (run room tree words' t') p s) ↔
          ∀ c, canonicalize defaults body stdinName (unifyNewlines t) = .ok c → Ansi.Unmarked c)) := by
  have hending := h.ending_file hconfig hread t'
  refine ⟨hending, ?_⟩
  rintro rfl
  refine ⟨fun c hc => ⟨h.formatted_stdin hconfig hc, h.formatted_file hconfig hc hread t'⟩, ?_⟩
  cases hc : canonicalize defaults body stdinName (unifyNewlines t) with
  | error e =>
      -- neither command succeeds, so there is nothing to compare
      have hfails : (run room tree words t).ending ≠ .exit 0 := by
        rw [h.ending_stdin hconfig t, hc]
        cases e with
        | parse e => simp [endingFor]
        | format e =>
            show (if e.escapes then Ending.escaped (.format e) else .exit formatCode) ≠ .exit 0
            split <;> simp [formatCode]
        | halves w => simp [endingFor]
      refine iff_of_true (fun s => iff_of_false (fun hs => hfails hs.1) ?_) (by simp)
      exact fun hs => hfails (hending.trans hs.1)
  | ok c =>
      obtain ⟨hshown, hout⟩ := h.formatted_stdin hconfig hc
      obtain ⟨hleft, hfile⟩ := h.formatted_file hconfig hc hread t'
      simp only [Prints, Leaves, hshown, hout, hleft, hfile, true_and, Except.ok.injEq, forall_eq']
      rw [← Ansi.unifyNewlines_stripSequences_iff]
      constructor
      · intro hs
        exact (hs c).mpr rfl
      · intro hs s
        rw [hs]

/-- A bare line that ends with a carriage return, and a configured method. -/
theorem stdin_agrees_example :
    let tree : Tree :=
      { entries := [([configFile], .file (Utf8.encode "defaults:\n  http_method: PUT\n")),
          ([("a.http" : Text)], .file (Utf8.encode "a\r\n"))]
        current := [] }
    let defaults : Defaults := ⟨"PUT", "HTTP/1.1"⟩
    let words : List Text := ["format", "--stdin"]
    let words' : List Text := ["format", "a.http"]
    let p : Path := .ofText "a.http"
    let t : Text := "a\r\n"
    (((loadConfig 400 tree (configPath tree)).outcome.1 = .ok defaults ∧
          Paired tree .format true p words words' ∧ tree.readBytes p = .ok (Utf8.encode t)) ∧
        Prints (run 400 tree words t) "###\n\nPUT a HTTP/1.1\n" ∧
        Leaves (run 400 tree words' []) p "###\n\nPUT a HTTP/1.1\n") ∧
      (run 400 tree words t).ending = (run 400 tree words' []).ending ∧
      (Mode.format = .format →
        (∀ c, canonicalize defaults true stdinName (unifyNewlines t) = .ok c →
          ((run 400 tree words t).ending = .exit 0 ∧
            (run 400 tree words t).stdout false = Ansi.stripSequences c) ∧
          (run 400 tree words' []).ending = .exit 0 ∧
            (run 400 tree words' []).tree.readText p = .ok (unifyNewlines c)) ∧
        ((∀ s, Prints (run 400 tree words t) s ↔ Leaves (run 400 tree words' []) p s) ↔
          ∀ c, canonicalize defaults true stdinName (unifyNewlines t) = .ok c → Ansi.Unmarked c)) := by
  refine ⟨⟨⟨?config, ?paired, ?bytes⟩, by decide +kernel, by decide +kernel⟩,
    stdin_agrees ?config ?paired ?bytes []⟩
  · decide +kernel
  · exact ⟨⟨_, ⟨_, rfl, rfl, rfl⟩, rfl, rfl⟩, ⟨_, ⟨_, rfl, rfl, rfl⟩, rfl, rfl, rfl⟩⟩
  · decide +kernel

/-- A body with a colour: formatting shows it without the colour on standard output, and leaves it with the
    colour in a file. -/
theorem stdin_agrees_fails :
    let t : Text := "POST a\n\n\x1b[31mx\n"
    let tree : Tree := { entries := [([("a.http" : Text)], .file (Utf8.encode t))], current := [] }
    let shown := run 400 tree ["format", "--stdin"] t
    let left := run 400 tree ["format", "a.http"] []
    Prints shown "###\n\nPOST a HTTP/1.1\n\nx\n" ∧
      Leaves left (.ofText "a.http") "###\n\nPOST a HTTP/1.1\n\n\x1b[31mx\n" ∧
      ¬ Prints shown "###\n\nPOST a HTTP/1.1\n\n\x1b[31mx\n" ∧
      ¬ Leaves left (.ofText "a.http") "###\n\nPOST a HTTP/1.1\n\nx\n" := by
  decide +kernel

end HttpFile.Command
