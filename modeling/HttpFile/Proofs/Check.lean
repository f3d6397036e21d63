import HttpFile.Check
import HttpFile.Proofs.Files.Collect
import HttpFile.Proofs.Text.Wide

/-!
# `HttpFile.Proofs.Check` — checking predicts formatting

Files are written while others are still to be read. A run that formats nevertheless finds in every file
what a run that only checks finds there, for no two of the collected paths lead to the same file, and
writing to a file changes its bytes only. So the two runs agree on all outcomes, and the tree at the end
differs from the one at the start in the files that were formatted. A canonical text with halves of
characters cannot be written: where formatting comes to one, it ends, and leaves the file empty.

## Contents
- **One file.** `checkFile_congr`, `checkFile_spec`.
- **Runs.** `FileResult.isWritable`, `Run.reached`: how far formatting gets.
- **Formatting.** `FileResult.settled`, `Run.Carries`; `Run.Carries.unchanged`, `Run.Carries.rewritten` and
  `Run.Carries.broken` for a step, `carries_formatAll` for a run.
- **All files.** `processFiles_carries`.
-/

namespace HttpFile

open Text Files

/-! ## One file -/

/-- What is found in a file depends on what its path leads to only. -/
theorem checkFile_congr {t t' : Tree} {p : Path} (h : t'.find p true = t.find p true)
    (settings : Settings) : checkFile t' settings p = checkFile t settings p := by
  unfold checkFile
  rw [Tree.readText_congr h]

theorem checkText_spec {settings : Settings} {p : Path} {current : Text} {r : FileResult}
    (h : (checkText settings p current).Yields r) : r.path = p ∧ r.status ≠ .formatted := by
  unfold checkText at h
  split at h
  · rw [← yields_pure h]
    refine ⟨rfl, ?_⟩
    show (if _ then Status.valid else Status.invalid) ≠ .formatted
    split <;> simp
  · rw [← yields_pure h]
    simp
  · obtain ⟨_, -, h⟩ := yields_bind h
    rw [← yields_pure h]
    simp
  · exact (yields_throw h).elim

/-- The outcome of a check is about the file, and a file that is not as it should be can be written. -/
theorem checkFile_spec {t : Tree} {settings : Settings} {p : Path} {r : FileResult}
    (h : (checkFile t settings p).Yields r) :
    r.path = p ∧ r.status ≠ .formatted ∧
      (r.status = .invalid → Tree.hasNull p = false ∧ ∃ l, t.target? p = some l) := by
  unfold checkFile at h
  split at h
  · rw [← yields_pure h]
    simp
  · next current hread =>
      obtain ⟨hpath, hstatus⟩ := checkText_spec h
      exact ⟨hpath, hstatus, fun _ => Tree.target?_of_readText hread⟩

/-! ## Runs -/

/-- Whether formatting a file with this outcome has nothing to write, or a text. -/
def FileResult.isWritable (r : FileResult) : Bool := r.status != .invalid || (Word.text? r.canonical).isSome

theorem FileResult.isWritable_of_ne {r : FileResult} (h : r.status ≠ .invalid) : r.isWritable = true := by
  unfold FileResult.isWritable
  rw [bne_iff_ne.mpr h, Bool.true_or]

theorem FileResult.isWritable_of_eq {r : FileResult} (h : r.status = .invalid) :
    r.isWritable = (Word.text? r.canonical).isSome := by
  unfold FileResult.isWritable
  rw [h, bne_self_eq_false, Bool.false_or]

/-- A check as far as formatting gets: it ends at the first file whose canonical text has halves. -/
def Run.reached (check : Run) : Run :=
  match check.results.find? fun x => !x.2.isWritable with
  | none => check
  | some x => { check with results := check.results.takeWhile (·.2.isWritable), failure := some (x.1, .halves) }

/-- Where all can be written, formatting gets to the end. -/
theorem Run.reached_eq_self {check : Run} (h : ∀ x ∈ check.results, x.2.isWritable = true) : check.reached = check := by
  have hnone : check.results.find? (fun x => !x.2.isWritable) = none := by
    refine List.find?_eq_none.mpr fun x hx => ?_
    simp [h x hx]
  unfold Run.reached
  rw [hnone]

theorem Run.reached_cons {check : Run} {notes : List Note} {r : FileResult} (h : r.isWritable = true) :
    (check.cons notes r).reached = check.reached.cons notes r := by
  have hfind : (check.cons notes r).results.find? (fun x => !x.2.isWritable) =
      check.results.find? fun x => !x.2.isWritable := List.find?_cons_of_neg (by simp [h])
  unfold Run.reached
  rw [hfind]
  cases check.results.find? fun x => !x.2.isWritable with
  | none => rfl
  | some x =>
      have htake : (check.cons notes r).results.takeWhile (·.2.isWritable) =
          (notes, r) :: check.results.takeWhile (·.2.isWritable) := List.takeWhile_cons_of_pos h
      simp only [htake]
      rfl

theorem Run.reached_broken {check : Run} {notes : List Note} {r : FileResult} (h : r.isWritable = false) :
    (check.cons notes r).reached = { results := [], failure := some (notes, .halves), tree := check.tree } := by
  have hfind : (check.cons notes r).results.find? (fun x => !x.2.isWritable) = some (notes, r) :=
    List.find?_cons_of_pos (by simp [h])
  have htake : (check.cons notes r).results.takeWhile (·.2.isWritable) = [] :=
    List.takeWhile_cons_of_neg (by simp [h])
  unfold Run.reached
  rw [hfind]
  simp only [htake]
  rfl

/-! ## Formatting -/

/-- The outcome of formatting that a check predicts. -/
def FileResult.settled (r : FileResult) : FileResult :=
  { r with status := if r.status = .invalid then .formatted else r.status }

/-- A run carries out, on a tree, what another run found: as far as it gets it has the same outcomes for the same
    files up to the same failure, with `formatted` for `invalid`, and it changes the files that were formatted,
    which hold their canonical text at the end, and nothing else, unless it comes to a canonical text that cannot
    be written: then that file is empty. -/
structure Run.Carries (tree : Tree) (check format : Run) : Prop where
  results : format.results = check.reached.results.map fun (notes, r) => (notes, r.settled)
  failure : format.failure = check.reached.failure
  current : format.tree.current = tree.current
  untouched : ∀ l, format.tree.at? l ≠ tree.at? l →
    (∃ x ∈ format.results, x.2.status = .formatted ∧ tree.target? x.2.path = some l) ∨
    ∃ x, check.results.find? (fun x => !x.2.isWritable) = some x ∧ tree.target? x.2.path = some l ∧
      format.tree.at? l = some (.file [])
  written : ∀ x ∈ format.results, x.2.status = .formatted →
    ∃ text l, x.2.canonical = letters text ∧ tree.target? x.2.path = some l ∧
      format.tree.at? l = some (.file (Utf8.encode text))

theorem Run.Carries.nil (tree : Tree) (failure : Option (List Note × Fatal)) (tree' : Tree) :
    Run.Carries tree { failure := failure, tree := tree' } { failure := failure, tree := tree } :=
  ⟨rfl, rfl, rfl, fun _ h => absurd rfl h, by simp⟩

/-- **A file that stays as it is.** -/
theorem Run.Carries.unchanged {tree : Tree} {check format : Run} (h : Run.Carries tree check format)
    (notes : List Note) {r : FileResult} (hr : r.status ≠ .invalid) (hf : r.status ≠ .formatted) :
    Run.Carries tree (check.cons notes r) (format.cons notes r) where
  results := by
    have hsettled : r.settled = r := by
      unfold FileResult.settled
      rw [if_neg hr]
    rw [Run.reached_cons (FileResult.isWritable_of_ne hr)]
    show (notes, r) :: format.results = (notes, r.settled) :: check.reached.results.map _
    rw [h.results, hsettled]
  failure := by
    rw [Run.reached_cons (FileResult.isWritable_of_ne hr)]
    exact h.failure
  current := h.current
  untouched l hl := by
    rcases h.untouched l hl with ⟨x, hx, hstatus, htarget⟩ | ⟨x, hx, hempty⟩
    · exact .inl ⟨x, List.mem_cons_of_mem _ hx, hstatus, htarget⟩
    · refine .inr ⟨x, ?_, hempty⟩
      exact (List.find?_cons_of_neg (by simp [FileResult.isWritable_of_ne hr])).trans hx
  written := by
    intro x hx hstatus
    rcases List.mem_cons.mp hx with rfl | hx
    · exact absurd hstatus hf
    · exact h.written x hx hstatus

/-- **A file that is written.** The files that are formatted after it are others. -/
theorem Run.Carries.rewritten {tree : Tree} {check format : Run} {r : FileResult} {l : Location}
    {old : List UInt8} {text : Text} (hl : tree.at? l = some (.file old))
    (h : Run.Carries (tree.put l (.file (Utf8.encode text))) check format) (notes : List Note)
    (hr : r.status = .invalid) (htext : r.canonical = letters text) (htarget : tree.target? r.path = some l)
    (hother : ∀ x ∈ check.results, tree.target? x.2.path ≠ some l) :
    Run.Carries tree (check.cons notes r) (format.cons notes { r with status := .formatted }) := by
  have hwritable : r.isWritable = true := by
    rw [FileResult.isWritable_of_eq hr, htext, text?_letters]
    rfl
  -- what formatting comes to later stands elsewhere
  have hlater : ∀ x ∈ format.results, tree.target? x.2.path ≠ some l := by
    intro x hx
    rw [h.results] at hx
    obtain ⟨y, hy, rfl⟩ := List.mem_map.mp hx
    refine hother y ?_
    unfold Run.reached at hy
    split at hy
    · exact hy
    · exact (List.takeWhile_prefix _).subset hy
  refine ⟨?_, ?_, h.current.trans (Tree.current_put tree l _), fun k hk => ?_, fun x hx hstatus => ?_⟩
  · have hsettled : r.settled = { r with status := .formatted } := by
      unfold FileResult.settled
      rw [if_pos hr]
    rw [Run.reached_cons hwritable]
    show (notes, _) :: format.results = (notes, r.settled) :: check.reached.results.map _
    rw [h.results, hsettled]
  · rw [Run.reached_cons hwritable]
    exact h.failure
  · by_cases hkl : k = l
    · subst hkl
      exact .inl ⟨_, List.mem_cons_self, rfl, htarget⟩
    · have hput := Tree.at?_put hl (.file (Utf8.encode text)) k
      rw [if_neg hkl] at hput
      rcases h.untouched k (by rwa [hput]) with ⟨x, hx, hstatus, hx'⟩ | ⟨x, hx, hx', hempty⟩
      · rw [Tree.target?_put hl] at hx'
        exact .inl ⟨x, List.mem_cons_of_mem _ hx, hstatus, hx'⟩
      · rw [Tree.target?_put hl] at hx'
        refine .inr ⟨x, ?_, hx', hempty⟩
        exact (List.find?_cons_of_neg (by simp [hwritable])).trans hx
  · rcases List.mem_cons.mp hx with rfl | hx
    · refine ⟨text, l, htext, htarget, ?_⟩
      -- nothing that comes later is written to this file
      have hkept : format.tree.at? l = (tree.put l (.file (Utf8.encode text))).at? l := by
        by_contra hne
        rcases h.untouched l hne with ⟨x, hx, -, hx'⟩ | ⟨x, hx, hx', -⟩
        · rw [Tree.target?_put hl] at hx'
          exact hlater x hx hx'
        · rw [Tree.target?_put hl] at hx'
          exact hother x (List.mem_of_find?_eq_some hx) hx'
      show format.tree.at? l = _
      rw [hkept, Tree.at?_put hl, if_pos rfl]
    · obtain ⟨u, k, hu, hk, hwritten⟩ := h.written x hx hstatus
      rw [Tree.target?_put hl] at hk
      exact ⟨u, k, hu, hk, hwritten⟩

/-- **A file that cannot be written.** Formatting ends, and the file is empty. -/
theorem Run.Carries.broken {tree : Tree} {check : Run} {r : FileResult} {l : Location} {old : List UInt8}
    (hl : tree.at? l = some (.file old)) (notes : List Note) (hr : r.isWritable = false)
    (htarget : tree.target? r.path = some l) :
    Run.Carries tree (check.cons notes r) { failure := some (notes, .halves), tree := tree.put l (.file []) } := by
  refine ⟨?_, ?_, Tree.current_put tree l _, fun k hk => ?_, by simp⟩
  · rw [Run.reached_broken hr]
    rfl
  · rw [Run.reached_broken hr]
  · have hput := Tree.at?_put hl (.file []) k
    by_cases hkl : k = l
    · subst hkl
      rw [if_pos rfl] at hput
      exact .inr ⟨(notes, r), List.find?_cons_of_pos (by simp [hr]), htarget, hput⟩
    · rw [if_neg hkl] at hput
      exact absurd hput hk

/-- The outcomes are for the files that are given. -/
theorem path_mem_checkAll {t : Tree} {settings : Settings} {files : List Path}
    {x : List Note × FileResult} (hx : x ∈ (checkAll t settings files).results) : x.2.path ∈ files := by
  induction files with
  | nil => simp [checkAll] at hx
  | cons p files ih =>
      unfold checkAll at hx
      split at hx
      · next r notes hcheck =>
          rcases List.mem_cons.mp hx with rfl | hx
          · rw [(checkFile_spec ⟨[], notes, hcheck⟩).1]
            exact List.mem_cons_self
          · exact List.mem_cons_of_mem _ (ih hx)
      · simp at hx

theorem tree_checkAll (t : Tree) (settings : Settings) (files : List Path) :
    (checkAll t settings files).tree = t := by
  induction files with
  | nil => rfl
  | cons p files ih =>
      unfold checkAll
      split
      · exact ih
      · rfl

/-- **The whole run.** From a tree on which the paths lead to what they lead to where files are checked,
    formatting carries out what checking finds. -/
theorem carries_formatAll {t t' : Tree} (settings : Settings) {files : List Path}
    (hfind : ∀ p ∈ files, t'.find p true = t.find p true)
    (hdistinct : files.Pairwise fun p q => ∀ l, t'.target? p = some l → t'.target? q ≠ some l) :
    Run.Carries t' (checkAll t settings files) (formatAll settings t' files) := by
  induction files generalizing t' with
  | nil => exact .nil t' none t
  | cons p files ih =>
      obtain ⟨hp, hrest⟩ := List.pairwise_cons.mp hdistinct
      have hsame : checkFile t' settings p = checkFile t settings p :=
        checkFile_congr (hfind p (by simp)) settings
      have hlater : ∀ q ∈ files, t'.find q true = t.find q true := fun q hq => hfind q (by simp [hq])
      unfold checkAll formatAll formatFile
      rw [outcome_map, hsame]
      rcases hcheck : (checkFile t settings p).outcome with ⟨e | r, notes⟩
      · exact .nil t' _ t
      · rw [← hsame] at hcheck
        obtain ⟨rfl, hformatted, hinvalid⟩ := checkFile_spec ⟨[], notes, hcheck⟩
        by_cases hr : r.status = .invalid
        · obtain ⟨hnull, l, hl⟩ := hinvalid hr
          obtain ⟨old, hold⟩ := Tree.target?_eq_some.mp hl
          have hat := Tree.at?_of_find hold
          cases hw : Word.text? r.canonical with
          | none =>
              have hsettle : settle t' r = (t'.put l (.file []), none) := by
                unfold settle
                simp only [hr, Tree.writeWide_of_target hnull hl, encodedWide, hw]
                rfl
              simp only [Except.map, hsettle]
              exact .broken hat notes (by rw [FileResult.isWritable_of_eq hr, hw]; rfl) hl
          | some text =>
              have hsettle : settle t' r = (t'.put l (.file (Utf8.encode text)),
                  some { r with status := .formatted }) := by
                unfold settle
                simp only [hr, Tree.writeWide_of_target hnull hl, encodedWide, hw]
                rfl
              -- no later path leads to the file that is written, so later files are read as before
              have hcarries := ih
                (fun q hq => (Tree.find_put_of_ne hat (Utf8.encode text) (hp q hq l hl)).trans (hlater q hq))
                (by simpa only [Tree.target?_put hat] using hrest)
              simp only [Except.map, hsettle]
              exact hcarries.rewritten hat notes hr (text?_eq_some.mp hw) hl fun x hx => hp _ (path_mem_checkAll hx) l hl
        · have hsettle : settle t' r = (t', some r) := by
            unfold settle
            split
            · next hs => exact absurd hs hr
            · rfl
          simp only [Except.map, hsettle]
          exact (ih hlater hrest).unchanged notes hr hformatted

/-! ## All files -/

/-- **Checking predicts formatting.** On a tree in which names are not empty, from starting points
    without empty parts, both collect the same files or fail in the same way. Checking leaves the tree as
    it is, and formatting carries out what checking finds: all of it, if every canonical text can be written. -/
theorem processFiles_carries {tree : Tree} (ht : tree.Named) (settings : Settings) {roots : List Path}
    (hroots : ∀ p ∈ roots, [] ∉ p.parts) :
    (∃ e notes, (processFiles .check tree settings roots).outcome = (.error e, notes) ∧
      (processFiles .format tree settings roots).outcome = (.error e, notes)) ∨
    ∃ check format notes, (processFiles .check tree settings roots).outcome = (.ok check, notes) ∧
      (processFiles .format tree settings roots).outcome = (.ok format, notes) ∧
      check.tree = tree ∧ Run.Carries tree check format ∧
      ((∀ x ∈ check.results, x.2.isWritable = true) → check.reached = check) := by
  unfold processFiles
  rw [outcome_map, outcome_map]
  rcases hcollect : (collectFiles tree requestExtensions roots).outcome with ⟨e | files, notes⟩
  · exact .inl ⟨e, notes, rfl, rfl⟩
  · have htargets := targets_collectFiles ht hroots ⟨[], notes, hcollect⟩
    exact .inr ⟨_, _, notes, rfl, rfl, tree_checkAll tree settings files,
      carries_formatAll settings (fun _ _ => rfl) htargets, Run.reached_eq_self⟩

/-- A link, the file it leads to, which is named once more, and a file that is refused. -/
theorem processFiles_carries_example :
    let tree : Tree :=
      { entries := [([("a.http" : Text)], .file (Utf8.encode "GET a\n")),
          ([("b" : Text)], .link "a.http"), ([("c.http" : Text)], .file (Utf8.encode "POST\n/"))]
        current := [] }
    let roots : List Path := [.ofText "b", .ofText "./a.http", .ofText "c.http"]
    (∀ p ∈ roots, [] ∉ p.parts) ∧ tree.Named ∧
      ((processFiles .format tree {} roots).outcome.1.toOption.map fun run =>
        run.results.map fun x => (x.2.path.text, x.2.status)) =
          some [(("b" : Text), .formatted), (("c.http" : Text), .error)] ∧
      ((∃ e notes, (processFiles .check tree {} roots).outcome = (.error e, notes) ∧
          (processFiles .format tree {} roots).outcome = (.error e, notes)) ∨
        ∃ check format notes, (processFiles .check tree {} roots).outcome = (.ok check, notes) ∧
          (processFiles .format tree {} roots).outcome = (.ok format, notes) ∧
          check.tree = tree ∧ Run.Carries tree check format ∧
          ((∀ x ∈ check.results, x.2.isWritable = true) → check.reached = check)) := by
  refine ⟨?roots, ?named, by decide +kernel, processFiles_carries ?named {} ?roots⟩
  · decide
  · decide

end HttpFile
