import HttpFile.Proofs.Convert.Output
import HttpFile.Proofs.Source.Converted
import HttpFile.Proofs.Source.Identifiers

/-!
# `HttpFile.Proofs.Convert.Changes` — what a conversion changes

A conversion goes through four stages: it reads the source, makes the target folder, renders all documents
and writes them. Reading and rendering leave the tree alone, and making the folder adds folders only. So a
source that is refused leaves every file as it was, and what else changes are the files of documents. Where
they stand is up to the names of the documents: a name without a slash stays inside the target folder, and
the documents of a specification have no others, but a collection may call itself what it likes.

## Contents
- **Endings.** `Conversion.Ends`, `convert_ends`: a conversion by the stage in which it ends.
- **Reading.** `Read`: a source that is read, in a format that was given or told; `read_of_outcome`.
- **Failures.** `StopsAt`, `convert_failed`.
- **Changes.** `Writes`, `writes_of_writeAll`, `slash_notMem_read`; `convert_changes`.
-/

namespace HttpFile

open Text Files Source

/-! ## Endings -/

section Ends

variable (room : Nat) (tree : Tree) (source : Path) (format : Option Format) (output : Option Path)

/-- How a conversion ends, by its stages. -/
inductive Conversion.Ends (c : Conversion) : Prop
  | unread {e : SourceError}
      (hread : (readForConversion room tree source format output).outcome.1 = .error e)
      (htree : c.tree = tree) (hresult : c.result = .error (.source e))
  | noFolder {folder : Path} {documents : List NamedDocument} {e : FileError}
      (hread : (readForConversion room tree source format output).outcome.1 = .ok (folder, documents))
      (hfolder : tree.makeFolderPath folder = (c.tree, some e)) (hresult : c.result = .error (.file e))
  | unrendered {folder : Path} {documents : List NamedDocument} {e : FormatError}
      (hread : (readForConversion room tree source format output).outcome.1 = .ok (folder, documents))
      (hfolder : tree.makeFolderPath folder = (c.tree, none))
      (hrender : renderAll folder documents = .error e) (hresult : c.result = .error (.format e))
  | written {folder : Path} {documents : List NamedDocument} {outputs : List (Path × Wide)} {before : Tree}
      {r : Except WriteError Unit}
      (hread : (readForConversion room tree source format output).outcome.1 = .ok (folder, documents))
      (hfolder : tree.makeFolderPath folder = (before, none))
      (hrender : renderAll folder documents = .ok outputs)
      (hwrite : writeAll before outputs = (c.tree, r))
      (hresult : c.result = (r.map fun _ => outputs.map (·.1)).mapError .ofWrite)

theorem convert_ends : (convert room tree source format output).Ends room tree source format output := by
  unfold convert
  rcases hread : (readForConversion room tree source format output).outcome with ⟨e | ⟨folder, documents⟩, notes⟩
  · exact .unread (congrArg Prod.fst hread) rfl rfl
  · have hread := congrArg Prod.fst hread
    rcases hfolder : tree.makeFolderPath folder with ⟨before, _ | e⟩
    · simp only [hfolder]
      cases hrender : renderAll folder documents with
      | error e => exact .unrendered hread hfolder hrender rfl
      | ok outputs =>
          simp only
          rcases hwrite : writeAll before outputs with ⟨after, e | _⟩
          · exact .written hread hfolder hrender hwrite rfl
          · exact .written hread hfolder hrender hwrite rfl
    · simp only [hfolder]
      exact .noFolder hread hfolder rfl

end Ends

/-! ## Reading -/

/-- A source that is read: in the given format, or in the one that it shows. -/
def Read (room : Nat) (tree : Tree) (source : Path) (format : Option Format) (f : Format)
    (documents : List NamedDocument) : Prop :=
  (format = some f ∨ (format = none ∧ (detect room tree source).Yields f)) ∧
    (readSource room tree source f).Yields documents

theorem read_of_outcome {room : Nat} {tree : Tree} {source folder : Path} {format : Option Format}
    {output : Option Path} {documents : List NamedDocument}
    (h : (readForConversion room tree source format output).outcome.1 = .ok (folder, documents)) :
    (∃ f, Read room tree source format f documents) ∧ (targetFolder tree source output).Yields folder := by
  obtain ⟨f, hformat, hread, hfolder⟩ := yields_forConversion ⟨[], _, Prod.ext h rfl⟩
  exact ⟨⟨f, hformat, hread⟩, hfolder⟩

/-! ## Failures -/

/-- The documents that are read have bodies, the first of which that is refused stops the conversion. -/
def StopsAt (room : Nat) (tree : Tree) (source : Path) (format : Option Format) (output : Option Path)
    (f : FormatError) : Prop :=
  ∃ (folder : Path) (before : List NamedDocument) (d : NamedDocument) (after : List NamedDocument),
    (readForConversion room tree source format output).outcome.1 = .ok (folder, before ++ d :: after) ∧
    (∀ x ∈ before, ∃ text, x.document.render true = .ok text) ∧ d.document.render true = .error f

/-- **A conversion that fails writes no file**, unless writing is what fails. Whatever is wrong with the source, and
    whichever of its documents has a body that is refused, with however many that are not: folders may be new,
    and everything else is as it was. -/
theorem convert_failed {room : Nat} {tree : Tree} {source : Path} {format : Option Format}
    {output : Option Path} {e : ConvertError} (h : (convert room tree source format output).result = .error e)
    (hfile : ∀ f, e ≠ .file f) (hhalves : e ≠ .halves) :
    tree.AddsFolders (convert room tree source format output).tree ∧
      (∀ l bytes, (convert room tree source format output).tree.at? l = some (.file bytes) ↔
        tree.at? l = some (.file bytes)) ∧
      ∀ f, e = .format f → StopsAt room tree source format output f := by
  suffices hadds : tree.AddsFolders (convert room tree source format output).tree ∧
      ∀ f, e = .format f → StopsAt room tree source format output f from
    ⟨hadds.1, hadds.1.file_iff, hadds.2⟩
  -- one case for each end of a conversion, of which only the last writes files
  cases convert_ends room tree source format output with
  | unread hread htree hresult =>
      obtain rfl := Except.error.inj (hresult.symm.trans h)
      rw [htree]
      exact ⟨.refl tree, by simp⟩
  | noFolder hread hfolder hresult =>
      obtain rfl := Except.error.inj (hresult.symm.trans h)
      exact absurd rfl (hfile _)
  | unrendered hread hfolder hrender hresult =>
      obtain rfl := Except.error.inj (hresult.symm.trans h)
      refine ⟨(Tree.makes_makeFolderPath hfolder).adds, fun f hf => ?_⟩
      obtain rfl := ConvertError.format.inj hf
      obtain ⟨before, d, after, rfl, hbefore, hd⟩ := renderAll_error hrender
      exact ⟨_, before, d, after, hread, hbefore, hd⟩
  | @written _ _ _ _ r hread hfolder hrender hwrite hresult =>
      rw [hresult] at h
      cases r with
      | error f =>
          cases f with
          | file f => exact absurd (Except.error.inj h).symm (hfile f)
          | halves => exact absurd (Except.error.inj h).symm hhalves
      | ok u => exact absurd h (by simp [Except.map, Except.mapError])

/-- A body that is cut off, in a collection that is converted into a folder that is not there yet. -/
theorem convert_failed_example :
    let tree : Tree :=
      { entries := [([("c.json" : Text)], .file (Utf8.encode (
          "\x7b\"item\":[\x7b\"request\":\x7b\"method\":\"POST\",\"url\":\"u\"," ++
          "\"header\":[\x7b\"key\":\"Content-Type\",\"value\":\"application/json\"\x7d]," ++
          "\"body\":\x7b\"mode\":\"raw\",\"raw\":\"[\"\x7d\x7d\x7d]\x7d")))]
        current := [] }
    let source : Path := .ofText "c.json"
    let output : Option Path := some (.ofText "o/p")
    let e : FormatError := .json ⟨.value, 1, 1, 2⟩
    ((convert 400 tree source (some .postman) output).result = .error (.format e) ∧
      ((∀ f, ConvertError.format e ≠ .file f) ∧ ConvertError.format e ≠ .halves) ∧
      (convert 400 tree source (some .postman) output).tree.at? [("o" : Text), ("p" : Text)] = some .folder) ∧
      tree.AddsFolders (convert 400 tree source (some .postman) output).tree ∧
      (∀ l bytes, (convert 400 tree source (some .postman) output).tree.at? l = some (.file bytes) ↔
        tree.at? l = some (.file bytes)) ∧
      ∀ f, ConvertError.format e = .format f → StopsAt 400 tree source (some .postman) output f := by
  refine ⟨⟨?failed, ⟨?file, ?halves⟩, by decide +kernel⟩, convert_failed ?failed ?file ?halves⟩
  · decide +kernel
  · exact fun f => ConvertError.noConfusion
  · exact ConvertError.noConfusion

/-! ## Changes -/

/-- A file that a conversion writes: it has what can be encoded of the text of a document and stands where the
    document's path leads, which is inside the target folder if the name of the document has no slash and no link
    stands in its place. -/
structure Writes (tree after : Tree) (folder : Path) (d : NamedDocument) (l : Location) : Prop where
  text : ∃ w, d.document.render true = .ok w ∧ after.at? l = some (.file (encodedWide w))
  path : after.target? (outputPath folder d.name) = some l
  inside : '/' ∉ d.name → ∃ place, after.find folder true = .entry place .folder ∧
    (l = place ++ [outputName d.name] ∨
      ∃ target, tree.at? (place ++ [outputName d.name]) = some (.link target))

theorem mem_splitExtension {name : Text} {c : Char} (h : c ∈ (Path.splitExtension name).1) : c ∈ name := by
  unfold Path.splitExtension at h
  dsimp only at h
  split at h
  · exact h
  · exact List.mem_of_mem_take h

theorem slash_notMem_stem {source : Path} (hparts : ∀ part ∈ source.parts, '/' ∉ part) :
    '/' ∉ source.stem := by
  intro hm
  have hname := mem_splitExtension hm
  unfold Path.name at hname
  cases hlast : source.parts.getLast? with
  | none => simp [hlast] at hname
  | some part =>
      rw [hlast] at hname
      exact hparts part (List.mem_of_getLast? hlast) hname

/-- The documents of a specification have names without slashes. -/
theorem slash_notMem_read {room : Nat} {tree : Tree} {source : Path}
    (hparts : ∀ part ∈ source.parts, '/' ∉ part) {documents : List NamedDocument} (h : (OpenApi.read room tree source).Yields documents) :
    ∀ d ∈ documents, '/' ∉ d.name := by
  unfold OpenApi.read at h
  obtain ⟨text, -, h⟩ := yields_bind h
  split at h
  · exact (yields_throw h).elim
  · exact (yields_throw h).elim
  · split at h
    · obtain ⟨named, hnamed, h⟩ := yields_bind h
      rw [← yields_pure h, List.forall_mem_map]
      intro d hd
      obtain ⟨servers, -, hnames⟩ := OpenApi.names_documents hnamed
      have hmem : d.name ∈ OpenApi.allIdentifiers servers := hnames ▸ List.mem_map_of_mem hd
      simp [slash_notMem_stem hparts, OpenApi.slash_notMem_allIdentifiers hmem]
    · exact (yields_throw h).elim

/-- A location that is another one after the files were written has the file of a document. -/
theorem writes_of_writeAll {tree before after : Tree} {folder : Path} {documents : List NamedDocument}
    {outputs : List (Path × Wide)} {r : Except WriteError Unit}
    (hfolder : tree.makeFolderPath folder = (before, none))
    (hrender : renderAll folder documents = .ok outputs) (hwrite : writeAll before outputs = (after, r))
    {l : Location} (hl : after.at? l ≠ before.at? l) : ∃ d ∈ documents, Writes tree after folder d l := by
  obtain ⟨hkeeps, hwritten⟩ := writeAll_spec hwrite
  obtain ⟨o, ho, htext, htarget⟩ := hwritten l hl
  obtain ⟨d, hd, hpath, hrendered⟩ := exists_of_forall₂ (renderAll_spec hrender) ho
  rw [hpath] at htarget
  refine ⟨d, hd, ⟨_, hrendered, htext⟩, htarget, fun hslash => ?_⟩
  obtain ⟨place, hfind⟩ := (Tree.makes_makeFolderPath hfolder).found rfl
  have hplace := hkeeps.find_folder hfind
  have hname := outputName_ne_dots d.name
  rw [outputPath_eq_child folder hslash] at htarget
  refine ⟨place, hplace, (Tree.target?_child hplace hname.1 hname.2 htarget).imp_right ?_⟩
  -- a link is neither a new folder nor the file of a document, so it stood there before
  rintro ⟨target, hlink⟩
  have hbefore : before.at? (place ++ [outputName d.name]) = some (.link target) := by
    by_contra hne
    obtain ⟨_, -, hfile, -⟩ := hwritten _ (hlink ▸ Ne.symm hne)
    simp [hlink] at hfile
  rcases (Tree.makes_makeFolderPath hfolder).adds.entries (place ++ [outputName d.name]) with
    hsame | ⟨-, hmade⟩
  · exact ⟨target, hsame ▸ hbefore⟩
  · simp [hbefore] at hmade

/-- **What a conversion changes.** A location that is not as it was before has a new folder, made on the way
    to the target folder, or the file of a document. The target folder is the given one or the one that
    holds the source. A document whose name has no slash has its file inside this folder, unless a link
    stood in its place; the names of a specification's documents never have one. -/
theorem convert_changes {room : Nat} {tree : Tree} {source : Path} {format : Option Format}
    {output : Option Path} {l : Location} (hl : (convert room tree source format output).tree.at? l ≠ tree.at? l) :
    (tree.at? l = none ∧ (convert room tree source format output).tree.at? l = some .folder) ∨
      ∃ f folder documents, Read room tree source format f documents ∧
        (targetFolder tree source output).Yields folder ∧
        (f = .openApi → (∀ part ∈ source.parts, '/' ∉ part) → ∀ d ∈ documents, '/' ∉ d.name) ∧
        ∃ d ∈ documents, Writes tree (convert room tree source format output).tree folder d l := by
  cases convert_ends room tree source format output with
  | unread hread htree hresult => exact absurd (by rw [htree]) hl
  | noFolder hread hfolder hresult | unrendered hread hfolder hrender hresult =>
      exact .inl (((Tree.makes_makeFolderPath hfolder).adds.entries l).resolve_left hl)
  | @written folder documents outputs before r hread hfolder hrender hwrite hresult =>
      by_cases hsame : (convert room tree source format output).tree.at? l = before.at? l
      · have hnew := (Tree.makes_makeFolderPath hfolder).adds.entries l
        exact .inl (hsame ▸ hnew.resolve_left (hsame ▸ hl))
      · obtain ⟨⟨f, hread⟩, htarget⟩ := read_of_outcome hread
        refine .inr ⟨f, folder, documents, hread, htarget, ?_, writes_of_writeAll hfolder hrender hwrite hsame⟩
        rintro rfl hparts
        exact slash_notMem_read hparts hread.2

/-- The file of a collection, in a folder that is made for it. -/
theorem convert_changes_example :
    let tree : Tree :=
      { entries := [([("c.json" : Text)], .file (Utf8.encode
          "\x7b\"info\":\x7b\"name\":\"c\"\x7d,\"item\":[]\x7d"))]
        current := [] }
    let source : Path := .ofText "c.json"
    let output : Option Path := some (.ofText "o")
    let l : Location := [("o" : Text), ("c.http" : Text)]
    ((convert 400 tree source (some .postman) output).tree.at? l = some (.file (Utf8.encode "\n")) ∧
      (convert 400 tree source (some .postman) output).tree.at? l ≠ tree.at? l) ∧
      ((tree.at? l = none ∧ (convert 400 tree source (some .postman) output).tree.at? l = some .folder) ∨
        ∃ f folder documents, Read 400 tree source (some .postman) f documents ∧
          (targetFolder tree source output).Yields folder ∧
          (f = .openApi → (∀ part ∈ source.parts, '/' ∉ part) → ∀ d ∈ documents, '/' ∉ d.name) ∧
          ∃ d ∈ documents,
            Writes tree (convert 400 tree source (some .postman) output).tree folder d l) := by
  refine ⟨⟨by decide +kernel, ?changed⟩, convert_changes ?changed⟩
  decide +kernel

/-- A collection whose name leads out of the target folder is written beside it. -/
theorem convert_changes_fails :
    let tree : Tree :=
      { entries := [([("c.json" : Text)], .file (Utf8.encode
          "\x7b\"info\": \x7b\"name\": \"../c\"\x7d, \"item\": []\x7d"))]
        current := [] }
    let after := (convert 400 tree (.ofText "c.json") (some .postman) (some (.ofText "o"))).tree
    let l : Location := [("c.http" : Text)]
    tree.at? l = none ∧ after.at? l = some (.file (Utf8.encode "\n")) ∧
      after.find (.ofText "o") true = .entry [("o" : Text)] .folder ∧ l.dropLast ≠ [("o" : Text)] := by
  decide +kernel

end HttpFile
