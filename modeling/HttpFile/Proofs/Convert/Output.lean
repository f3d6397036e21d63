import HttpFile.Convert
import HttpFile.Proofs.Files.Child
import HttpFile.Proofs.Text.Wide
import Mathlib.Data.List.Nodup

/-!
# `HttpFile.Proofs.Convert.Output` — the files that documents are written to

A document whose name has no slash gets a file in the target folder, and different names get different
files. Writing several files changes the entries that their paths lead to and nothing else, and it gets to the
end only if all that is written are texts.

## Contents
- **Paths.** `outputPath_eq_child`, `nodup_outputPaths_iff`.
- **Rendering.** `renderAll_spec`, `renderAll_error`.
- **Writing.** `writeWide_spec`, `writeAll_spec`, `exists_text_of_writeAll`.
-/

namespace HttpFile

open Text Files

/-! ## Paths -/

/-- The name of the file that a document with a name gets. -/
def outputName (name : Text) : Text := name ++ ".http"

theorem outputName_ne_dots (name : Text) :
    outputName name ≠ ['.'] ∧ outputName name ≠ ['.', '.'] := by
  have hlength : 5 ≤ (outputName name).length := by simp [outputName]
  constructor <;> intro h <;> simp [h] at hlength

/-- A name without a slash names a file in the folder. -/
theorem outputPath_eq_child (folder : Path) {name : Text} (h : '/' ∉ name) :
    outputPath folder name = folder.child (outputName name) := by
  have hslash : '/' ∉ outputName name := by simp [outputName, h]
  have hsome : outputName name ≠ [] := List.append_ne_nil_of_right_ne_nil _ (by decide)
  exact Path.join_ofText folder hslash hsome (outputName_ne_dots name).1

/-- Documents get different files exactly if they have different names. -/
theorem nodup_outputPaths_iff (folder : Path) {names : List Text} (h : ∀ name ∈ names, '/' ∉ name) :
    (names.map (outputPath folder)).Nodup ↔ names.Nodup := by
  refine ⟨List.Nodup.of_map _, fun hnodup => hnodup.map_on fun a ha b hb heq => ?_⟩
  rw [outputPath_eq_child folder (h a ha), outputPath_eq_child folder (h b hb)] at heq
  have hparts : folder.parts ++ [outputName a] = folder.parts ++ [outputName b] := congrArg Path.parts heq
  simpa [outputName] using hparts

/-! ## Rendering -/

/-- Each document is rendered for its own file. -/
theorem renderAll_spec {folder : Path} {ds : List NamedDocument} {outputs : List (Path × Wide)}
    (h : renderAll folder ds = .ok outputs) :
    List.Forall₂ (fun d o => o.1 = outputPath folder d.name ∧ d.document.render true = .ok o.2) ds outputs := by
  induction ds generalizing outputs with
  | nil =>
      obtain rfl := Except.ok.inj h
      exact .nil
  | cons d ds ih =>
      rw [renderAll] at h
      cases htext : d.document.render true with
      | error e => rw [htext] at h; simp [bind, Except.bind] at h
      | ok text =>
          cases hmore : renderAll folder ds with
          | error e => rw [htext, hmore] at h; simp [bind, Except.bind] at h
          | ok more =>
              rw [htext, hmore] at h
              obtain rfl := Except.ok.inj h
              exact .cons ⟨rfl, htext⟩ (ih hmore)

/-- Rendering stops at the first document with a body that is not what it should be. -/
theorem renderAll_error {folder : Path} {documents : List NamedDocument} {e : FormatError}
    (h : renderAll folder documents = .error e) :
    ∃ (before : List NamedDocument) (d : NamedDocument) (after : List NamedDocument),
      documents = before ++ d :: after ∧
      (∀ x ∈ before, ∃ text, x.document.render true = .ok text) ∧ d.document.render true = .error e := by
  induction documents with
  | nil => simp [renderAll] at h
  | cons d documents ih =>
      rw [renderAll] at h
      cases htext : d.document.render true with
      | error f =>
          rw [htext] at h
          obtain rfl : f = e := Except.error.inj h
          exact ⟨[], d, documents, rfl, by simp, htext⟩
      | ok text =>
          cases hmore : renderAll folder documents with
          | error f =>
              rw [htext, hmore] at h
              obtain rfl : f = e := Except.error.inj h
              obtain ⟨before, x, after, rfl, hbefore, hx⟩ := ih hmore
              exact ⟨d :: before, x, after, rfl, List.forall_mem_cons.mpr ⟨⟨text, htext⟩, hbefore⟩, hx⟩
          | ok more =>
              rw [htext, hmore] at h
              exact absurd h (by simp [bind, Except.bind, pure, Except.pure])

/-! ## Writing -/

/-- Writing leaves the tree alone, or leaves what can be encoded at one location. -/
theorem writeWide_spec {t t' : Tree} {p : Path} {w : Wide} {r : Except WriteError Unit}
    (h : t.writeWide p w = (t', r)) :
    t' = t ∨ t.writeBytes p (encodedWide w) = .ok t' := by
  unfold Tree.writeWide at h
  split at h
  · exact .inl (Prod.mk.inj h).1.symm
  · next hwrite => exact .inr ((Prod.mk.inj h).1 ▸ hwrite)

/-- **Several files.** All that was there stays, and where the tree is another one, one of the files stands
    with what can be encoded of its text; its path leads there. -/
theorem writeAll_spec {t t' : Tree} {outputs : List (Path × Wide)} {r : Except WriteError Unit}
    (h : writeAll t outputs = (t', r)) :
    t.Keeps t' ∧ ∀ l, t'.at? l ≠ t.at? l →
      ∃ o ∈ outputs, t'.at? l = some (.file (encodedWide o.2)) ∧ t'.target? o.1 = some l := by
  induction outputs generalizing t with
  | nil =>
      obtain ⟨rfl, -⟩ : t = t' ∧ _ := by simpa [writeAll] using h
      exact ⟨.refl t, fun l hl => absurd rfl hl⟩
  | cons o outputs ih =>
      obtain ⟨path, w⟩ := o
      rcases hwrite : t.writeWide path w with ⟨t₁, r₁⟩
      -- the files that come later are written to the tree that this one leaves, if they are written
      obtain ⟨hlater, hrest⟩ : t₁.Keeps t' ∧ ∀ l, t'.at? l ≠ t₁.at? l →
          ∃ o ∈ outputs, t'.at? l = some (.file (encodedWide o.2)) ∧ t'.target? o.1 = some l := by
        rw [writeAll, hwrite] at h
        cases r₁ with
        | ok => exact ih h
        | error e =>
            obtain rfl : t₁ = t' := (Prod.mk.inj h).1
            exact ⟨.refl t₁, fun l hl => absurd rfl hl⟩
      rcases writeWide_spec hwrite with rfl | hwrite
      · refine ⟨hlater, fun l hl => ?_⟩
        obtain ⟨o, ho, hspec⟩ := hrest l hl
        exact ⟨o, List.mem_cons_of_mem _ ho, hspec⟩
      · obtain ⟨k, hk, rfl, hkeeps, htarget⟩ := Tree.writeBytes_eq_ok hwrite
        refine ⟨hkeeps.trans hlater, fun l hl => ?_⟩
        by_cases hsame : t'.at? l = (t.put k (.file (encodedWide w))).at? l
        · -- no later file is written here, so it is the one that was written now
          rw [Tree.at?_put_of_ne_nil hk] at hsame
          have hlk : l = k := by
            by_contra hne
            rw [if_neg hne] at hsame
            exact hl hsame
          rw [if_pos hlk] at hsame
          exact ⟨(path, w), List.mem_cons_self, hsame, hlk ▸ hlater.target? htarget⟩
        · obtain ⟨o, ho, hspec⟩ := hrest l hsame
          exact ⟨o, List.mem_cons_of_mem _ ho, hspec⟩

/-- All files are written only if no text has halves of characters. -/
theorem exists_text_of_writeAll {t t' : Tree} {outputs : List (Path × Wide)}
    (h : writeAll t outputs = (t', .ok ())) : ∀ o ∈ outputs, ∃ text : Text, o.2 = letters text := by
  induction outputs generalizing t with
  | nil => simp
  | cons o outputs ih =>
      obtain ⟨path, w⟩ := o
      rcases hwrite : t.writeWide path w with ⟨t₁, _ | _⟩
      · rw [writeAll, hwrite] at h
        cases h
      · rw [writeAll, hwrite] at h
        refine List.forall_mem_cons.mpr ⟨?_, ih h⟩
        unfold Tree.writeWide at hwrite
        split at hwrite
        · cases hwrite
        · split at hwrite
          · next hsome =>
              obtain ⟨text, htext⟩ := Option.isSome_iff_exists.mp hsome
              exact ⟨text, text?_eq_some.mp htext⟩
          · cases hwrite

end HttpFile
