import HttpFile.Proofs.Convert.Output
import HttpFile.Proofs.Source.Converted

/-!
# `HttpFile.Proofs.Convert` — which converted files are canonical

All three kinds of source go the same way: they are read into documents, and each document is written to
a file of its own. So what is known of converted documents is known of the files.

## Contents
- **What is written.** `convert_eq_ok`.
- **Canonical files.** `convert_canonical`.
-/

namespace HttpFile

open Text Files Source

/-! ## What is written -/

/-- What a conversion that succeeds has read, and what it has written. -/
theorem convert_eq_ok {room : Nat} {tree : Tree} {source : Path} {format : Option Format}
    {output : Option Path} {paths : List Path}
    (h : (convert room tree source format output).result = .ok paths) :
    ∃ folder documents outputs before,
      (readForConversion room tree source format output).outcome.1 = .ok (folder, documents) ∧
      renderAll folder documents = .ok outputs ∧
      writeAll before outputs = ((convert room tree source format output).tree, .ok ()) ∧
      paths = outputs.map (·.1) := by
  -- a stage that fails gives the result, so every stage succeeds
  unfold convert at h ⊢
  rcases hread : (readForConversion room tree source format output).outcome with ⟨e | ⟨folder, documents⟩, notes⟩
  · rw [hread] at h
    simp at h
  · rw [hread] at h
    rcases hfolder : tree.makeFolderPath folder with ⟨before, _ | e⟩
    · simp only [hfolder] at h ⊢
      cases hrender : renderAll folder documents with
      | error e => rw [hrender] at h; simp at h
      | ok outputs =>
          rw [hrender] at h
          rcases hwrite : writeAll before outputs with ⟨after, e | _⟩
          · simp only [hwrite] at h
            simp at h
          · simp only [hwrite] at h
            refine ⟨folder, documents, outputs, before, rfl, hrender, ?_, (Except.ok.inj h).symm⟩
            simp only [hwrite]
    · simp only [hfolder] at h
      simp at h

/-! ## Canonical files -/

/-- What a converted document makes of a file: the file has the text of the settled document, which is
    reproduced from it exactly when its parts are presentable and the formatters of its bodies leave them alone, as
    they do where the bodies are formatted once and for all; and then the text is canonical. -/
def NamedDocument.Presents (d : NamedDocument) (w : Text) : Prop :=
  ∃ e, d.document.settle true = .ok e ∧ w = e.tidy.text ∧
    (e.tidy.Reproduced true ↔ e.tidy.Presentable ∧ e.tidy.Formatted) ∧
    (d.document.Keyed → d.document.Lasting → e.tidy.Formatted) ∧
    (e.tidy.Presentable → e.tidy.Formatted → ∀ file, canonicalize {} true file w = .ok w)

theorem presents_of_render {d : NamedDocument} (h : d.document.Converted) {w : Text}
    (hw : d.document.render true = .ok (letters w)) : d.Presents w := by
  obtain ⟨e, hs, rfl⟩ := render_eq_ok.mp hw
  refine ⟨e, hs, (text_tidy e).symm, h.reproduced_iff hs, formatted_of_lasting hs, fun hp hformatted file => ?_⟩
  obtain ⟨houtline, hagain⟩ := h.reproduced hs hp hformatted
  rw [← text_tidy e]
  exact canonicalize_eq_ok.mpr ⟨_, _, parse_of_outline {} file houtline, hagain, rfl⟩

/-- **Which converted files are canonical.** A conversion that succeeds, from whichever format, has written
    one file for each document of the source. A document is reproduced from its file exactly when the
    parts that were copied from the source are presentable: names and values on one line, methods that a
    file may name, targets without blanks and folded, header keys of the right characters, code that is
    not closed early, bodies that no line ends and that their formatters leave alone. Then the file is
    read, and it is its own canonical form. What is written are texts, or the conversion would not succeed. -/
theorem convert_canonical {room : Nat} {tree : Tree} {source : Path} {format : Option Format}
    {output : Option Path} {paths : List Path} (h : (convert room tree source format output).result = .ok paths) :
    ∃ folder documents outputs before,
      (readForConversion room tree source format output).outcome.1 = .ok (folder, documents) ∧
      writeAll before outputs = ((convert room tree source format output).tree, .ok ()) ∧
      paths = outputs.map (·.1) ∧
      List.Forall₂ (fun d o => o.1 = outputPath folder d.name ∧ ∃ w, o.2 = letters w ∧ d.Presents w)
        documents outputs := by
  obtain ⟨folder, documents, outputs, before, hread, hrender, hwrite, hpaths⟩ := convert_eq_ok h
  have hconverted := converted_forConversion ⟨[], _, Prod.ext hread rfl⟩
  refine ⟨folder, documents, outputs, before, hread, hwrite, hpaths, ?_⟩
  have hboth := (List.forall₂_and_left documents outputs).mpr ⟨hconverted, renderAll_spec hrender⟩
  have hall := (List.forall₂_and_left outputs documents).mpr ⟨exists_text_of_writeAll hwrite, hboth.flip⟩
  refine hall.flip.imp ?_
  rintro d o ⟨⟨w, hw⟩, hd, hpath, hrendered⟩
  rw [hw] at hrendered
  exact ⟨hpath, w, hw, presents_of_render hd hrendered⟩

/-- A collection with a folder and a request with a query and a header whose value ends in a blank. -/
theorem convert_canonical_example :
    let tree : Tree :=
      { entries := [([("c.json" : Text)], .file (Utf8.encode (
          "\x7b\"item\":[\x7b\"name\":\"f\",\"description\":\"@all\",\"item\":[" ++
          "\x7b\"request\":\x7b\"method\":\"put\",\"url\":\"h?x&y\"," ++
          "\"header\":[\x7b\"key\":\"a-b\",\"value\":\"v \"\x7d]\x7d\x7d]\x7d],\"info\":\x7b\"name\":\"c\"\x7d\x7d")))]
        current := [] }
    let source : Path := .ofText "c.json"
    let w : Text := "###\n\n# Folder: f\n# - @all\n\n###\n\nPUT h\n  ?x\n  &y HTTP/1.1\nA-B: v\n"
    ((convert 400 tree source (some .postman) none).result = .ok [.ofText "c.http"] ∧
      ((convert 400 tree source (some .postman) none).tree.readText (.ofText "c.http")).toOption = some w ∧
      canonicalize {} true [] w = .ok w) ∧
      ∃ folder documents outputs before,
        (readForConversion 400 tree source (some .postman) none).outcome.1 = .ok (folder, documents) ∧
        writeAll before outputs = ((convert 400 tree source (some .postman) none).tree, .ok ()) ∧
        [.ofText "c.http"] = outputs.map (·.1) ∧
        List.Forall₂ (fun d o => o.1 = outputPath folder d.name ∧ ∃ w, o.2 = letters w ∧ d.Presents w)
          documents outputs := by
  refine ⟨?converted, convert_canonical (And.left ?converted)⟩
  decide +kernel

/-- A collection is converted with a method that no file may name, and the file is refused. -/
theorem convert_canonical_fails :
    let tree : Tree :=
      { entries := [([("c.json" : Text)], .file (Utf8.encode (
          "\x7b\"info\": \x7b\"name\": \"c\"\x7d, " ++
          "\"item\": [\x7b\"request\": \x7b\"method\": \"PROPFIND\", \"url\": \"http://h/a\"\x7d\x7d]\x7d")))]
        current := [] }
    let converted := convert 400 tree (.ofText "c.json") (some .postman) none
    let w : Text := "###\n\nPROPFIND http://h/a HTTP/1.1\n"
    converted.result = .ok [.ofText "c.http"] ∧
      (converted.tree.readText (.ofText "c.http")).toOption = some w ∧
      (canonicalize {} true [] w).toOption = none := by
  decide +kernel

end HttpFile
