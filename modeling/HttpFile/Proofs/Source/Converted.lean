import HttpFile.Convert
import HttpFile.Proofs.Document.Presentable
import HttpFile.Proofs.Source.Preorder

/-!
# `HttpFile.Proofs.Source.Converted` — what all converters have in common

Whatever a source holds, the blocks that are made from it are converted ones: no separator has a text, no
response is redirected, comments open neither a section nor metadata, scripts are trimmed code, and the
version is the default one.

## Contents
- **Comments.** `isRemark_commentLines`, `isRemark_folder`.
- **Specifications.** `OpenApi.converted_operation`, `OpenApi.converted_read`.
- **Collections.** `Postman.converted_item`, `Postman.converted_visits`, `Postman.converted_collection`.
- **Folders of request files.** `Bruno.converted_request`, `Bruno.converted_folder`,
  `Bruno.converted_documents`.
- **All sources.** `yields_forConversion`, `converted_forConversion`.
-/

namespace HttpFile

open Text Unicode Syntax

/-! ## Comments -/

/-- **Free text becomes remarks, whatever it holds.** -/
theorem isRemark_commentLines (t : Text) : ∀ c ∈ commentLines t, IsRemark c := by
  intro c hc
  obtain ⟨l, hl, rfl⟩ := List.mem_map.mp hc
  obtain ⟨hl, hne⟩ := List.mem_filter.mp hl
  obtain ⟨l, -, rfl⟩ := List.mem_map.mp hl
  obtain ⟨d, rest, hrest⟩ := List.exists_cons_of_ne_nil (of_decide_eq_true hne)
  have hsolid : isBlank d = false := head_strip (t := l) (by rw [hrest]; rfl)
  rw [hrest]
  unfold commentLine
  split
  · exact ⟨⟨_, rfl⟩, rfl⟩
  · next hplain =>
      refine ⟨⟨_, rfl⟩, ?_⟩
      -- behind the mark and the space comes the line itself, which starts with no gap
      have hdrop : (' ' :: d :: rest).dropWhile isGap = d :: rest := by
        simp [show isGap ' ' = true from rfl, isGap_of_solid hsolid]
      have hmark : commentMark? ("# " ++ (d :: rest)) = some (['#'], ' ' :: d :: rest) := rfl
      rw [metadataMark?, hmark]
      simp only
      rw [hdrop]
      split
      · next x more heq =>
          rw [heq] at hplain
          exact if_neg hplain
      · rfl

theorem isRemark_folder (path : Text) : IsRemark ("# Folder: " ++ path) := ⟨⟨_, rfl⟩, rfl⟩

/-! ## Specifications -/

namespace Source.OpenApi

theorem isRemark_commentsOf (v : Value) : ∀ c ∈ commentsOf v, IsRemark c := by
  intro c hc
  unfold commentsOf at hc
  split at hc
  · exact isRemark_commentLines _ c hc
  · simp at hc

theorem isRemark_server (s : Server) : ∀ c ∈ s.comments, IsRemark c := by
  intro c hc
  unfold Server.comments at hc
  split at hc
  · exact isRemark_commentLines _ c hc
  · simp at hc

theorem converted_operation {spec url shared operation : Value} {comments : List Text} {method : Text}
    (hc : ∀ c ∈ comments, IsRemark c) {b : Block}
    (h : (operationBlock spec comments url method shared operation).Yields b) : b.Converted := by
  unfold operationBlock at h
  obtain ⟨⟨headers, body⟩, -, h⟩ := yields_bind h
  obtain ⟨parameters, -, h⟩ := yields_bind h
  obtain ⟨headers, -, h⟩ := yields_bind h
  obtain ⟨target, -, h⟩ := yields_bind h
  obtain rfl := yields_pure h
  refine ⟨rfl, fun c hmem => ?_, ?_, by simp, by simp, by simp, rfl, by simp⟩
  · rcases List.mem_append.mp hmem with hmem | hmem
    · rcases List.mem_append.mp hmem with hmem | hmem
      · exact hc c hmem
      · exact isRemark_commentsOf _ c hmem
    · exact isRemark_commentsOf _ c hmem
  · intro m hm
    simp only [nameOf] at hm
    split at hm
    · rw [List.mem_singleton.mp hm]
      rfl
    · simp at hm

theorem converted_operations {spec url shared : Value} {comments : List Text}
    (hc : ∀ c ∈ comments, IsRemark c) {entries : List (Value × Value)} {bs : List Block}
    (h : (operationBlocks spec comments url shared entries).Yields bs) : ∀ b ∈ bs, b.Converted := by
  induction entries generalizing bs with
  | nil =>
      rw [← yields_pure h]
      simp
  | cons entry entries ih =>
      obtain ⟨key, operation⟩ := entry
      rw [operationBlocks] at h
      split at h
      · obtain ⟨block, hblock, h⟩ := yields_bind h
        obtain ⟨more, hmore, h⟩ := yields_bind h
        rw [← yields_pure h, List.forall_mem_cons]
        exact ⟨converted_operation hc hblock, ih hmore⟩
      · exact ih h

theorem converted_path {spec path item : Value} {comments : List Text} {base : Option Text}
    (hc : ∀ c ∈ comments, IsRemark c) {bs : List Block}
    (h : (pathBlocks spec comments base path item).Yields bs) : ∀ b ∈ bs, b.Converted := by
  unfold pathBlocks at h
  obtain ⟨resolved, -, h⟩ := yields_bind h
  split at h
  · obtain ⟨url, -, h⟩ := yields_bind h
    exact converted_operations hc h
  · rw [← yields_pure h]
    simp

theorem converted_paths {spec : Value} {comments : List Text} {base : Option Text}
    (hc : ∀ c ∈ comments, IsRemark c) {paths : List (Value × Value)} {bs : List Block}
    (h : (allBlocks spec comments base paths).Yields bs) : ∀ b ∈ bs, b.Converted := by
  induction paths generalizing bs with
  | nil =>
      rw [← yields_pure h]
      simp
  | cons entry paths ih =>
      obtain ⟨path, item⟩ := entry
      rw [allBlocks] at h
      obtain ⟨here, hhere, h⟩ := yields_bind h
      obtain ⟨more, hmore, h⟩ := yields_bind h
      rw [← yields_pure h, List.forall_mem_append]
      exact ⟨converted_path hc hhere, ih hmore⟩

theorem converted_servers {spec : Value} {paths : List (Value × Value)} {used : List Text} {index : Nat}
    {servers : List Value} {ds : List NamedDocument}
    (h : (serverDocuments spec paths used index servers).Yields ds) : ∀ d ∈ ds, d.document.Converted := by
  induction servers generalizing used index ds with
  | nil =>
      rw [← yields_pure h]
      simp
  | cons entry servers ih =>
      rw [serverDocuments] at h
      obtain ⟨server, -, h⟩ := yields_bind h
      obtain ⟨document, hdocument, h⟩ := yields_bind h
      obtain ⟨more, hmore, h⟩ := yields_bind h
      rw [← yields_pure h, List.forall_mem_cons]
      refine ⟨?_, ih hmore⟩
      unfold serverDocument at hdocument
      obtain ⟨declared, -, hdocument⟩ := yields_bind hdocument
      obtain ⟨blocks, hblocks, hdocument⟩ := yields_bind hdocument
      rw [← yields_pure hdocument]
      exact converted_paths (isRemark_server server) hblocks

theorem converted_modern {spec : Value} {paths : List (Value × Value)} {ds : List NamedDocument}
    (h : (modernDocuments spec paths).Yields ds) : ∀ d ∈ ds, d.document.Converted := by
  unfold modernDocuments at h
  obtain ⟨servers, -, h⟩ := yields_bind h
  split at h
  · obtain ⟨blocks, hblocks, h⟩ := yields_bind h
    rw [← yields_pure h, List.forall_mem_singleton]
    exact converted_paths (by simp) hblocks
  · exact converted_servers h

/-- **The documents of a specification are converted ones.** -/
theorem converted_read {room : Nat} {tree : Files.Tree} {path : Files.Path} {ds : List NamedDocument}
    (h : (read room tree path).Yields ds) : ∀ d ∈ ds, d.document.Converted := by
  unfold read at h
  obtain ⟨text, -, h⟩ := yields_bind h
  split at h
  · exact (yields_throw h).elim
  · exact (yields_throw h).elim
  · split at h
    · obtain ⟨named, hnamed, h⟩ := yields_bind h
      rw [← yields_pure h, List.forall_mem_map]
      unfold documents at hnamed
      obtain ⟨entries, -, hnamed⟩ := yields_bind hnamed
      split at hnamed
      · split at hnamed
        · obtain ⟨⟨modern, paths⟩, -, hnamed⟩ := yields_bind hnamed
          exact converted_modern hnamed
        · exact converted_modern hnamed
      · exact (yields_throw hnamed).elim
    · exact (yields_throw h).elim

end Source.OpenApi

/-! ## Collections -/

namespace Source.Postman

theorem converted_item {item : Value} {b : Block} (h : (itemBlock item).Yields b) : b.Converted := by
  unfold itemBlock at h
  obtain ⟨field, -, h⟩ := yields_bind h
  obtain ⟨url, -, h⟩ := yields_bind h
  split at h
  · exact (yields_throw h).elim
  · obtain ⟨entries, -, h⟩ := yields_bind h
    obtain ⟨⟨headers, body⟩, -, h⟩ := yields_bind h
    obtain rfl := yields_pure h
    refine ⟨rfl, ?_, ?_, by simp, by simp, by simp, rfl, by simp⟩
    · intro c hc
      rcases List.mem_append.mp hc with hc | hc
      · exact isRemark_commentLines _ c hc
      · exact isRemark_commentLines _ c hc
    · intro m hm
      split at hm
      · simp at hm
      · rw [List.mem_singleton.mp hm]
        rfl

theorem converted_folder (path about : Text) : ∀ b ∈ folderBlocks path about, b.Converted := by
  unfold folderBlocks
  split
  · simp
  · rw [List.forall_mem_singleton]
    refine ⟨rfl, ?_, by simp, by simp, by simp, by simp, rfl, by simp⟩
    rw [List.forall_mem_cons]
    exact ⟨isRemark_folder path, isRemark_commentLines about⟩

/-- What a traversal gives, whatever it reads of the lists. -/
theorem converted_visits {reading : List Value → List Value} {path : Text} {items : List Value}
    {bs : List Block} (h : Visits reading path items bs) : ∀ b ∈ bs, b.Converted := by
  induction h with
  | done => simp
  | folder _ _ _ _ ihInside ihMore =>
      rw [List.forall_mem_append, List.forall_mem_append]
      exact ⟨⟨converted_folder _ _, ihInside⟩, ihMore⟩
  | request _ _ hblock _ ih =>
      rw [List.forall_mem_cons]
      exact ⟨converted_item hblock, ih⟩
  | neither _ _ _ ih => exact ih
  | skipped _ _ ih => exact ih

/-- What the walk gives, through all folders. -/
theorem converted_walk {levels : Nat} {path : Text} {items : Value} {bs : List Block}
    (h : (walk levels path items).Yields bs) : ∀ b ∈ bs, b.Converted := by
  obtain ⟨elements, -, hvisits⟩ := visits_walk h
  exact converted_visits hvisits

/-- **The document of a collection is a converted one.** -/
theorem converted_collection {tree : Files.Tree} {path : Files.Path} {d : NamedDocument}
    (h : (read tree path).Yields d) : d.document.Converted := by
  unfold read at h
  obtain ⟨v, -, h⟩ := yields_bind h
  unfold document at h
  split at h
  · obtain ⟨info, -, h⟩ := yields_bind h
    obtain ⟨declared, -, h⟩ := yields_bind h
    obtain ⟨blocks, hblocks, h⟩ := yields_bind h
    rw [← yields_pure h]
    exact converted_walk hblocks
  · exact (yields_throw h).elim

end Source.Postman

/-! ## Folders of request files -/

namespace Source.Bruno

theorem isTrimmedCode_scripts (sections : List Section) (names : List Text) :
    ∀ s ∈ scriptsOf sections names, s.IsTrimmedCode := by
  intro s hs
  obtain ⟨code, hcode, rfl⟩ := List.mem_map.mp hs
  obtain ⟨name, -, rfl⟩ := List.mem_map.mp (List.mem_filter.mp hcode).1
  refine ⟨_, rfl, ?_⟩
  unfold textOf
  cases named? sections name with
  | none => rfl
  | some s => exact trimmed_strip _

theorem converted_request (sections : List Section) (method : Section) (file : Files.Path) (url : Text) :
    (requestBlock sections method file url).block.Converted := by
  dsimp only [requestBlock]
  refine ⟨rfl, ?_, ?_, isTrimmedCode_scripts _ _, ?_, isTrimmedCode_scripts _ _, rfl, ?_⟩
  · intro c hc
    rcases List.mem_append.mp hc with hc | hc
    · rcases List.mem_append.mp hc with hc | hc
      · split at hc
        · simp at hc
        · rw [List.mem_singleton.mp hc]
          exact isRemark_folder _
      · exact isRemark_commentLines _ c hc
    · exact isRemark_commentLines _ c hc
  · intro m hm
    simp only at hm
    split at hm
    · simp at hm
    · rw [List.mem_singleton.mp hm]
      rfl
  · intro r hr
    rw [← Option.some.inj hr]
  · intro hr
    exact absurd hr (Option.some_ne_none _)

theorem converted_requestBlock? {file : Files.Path} {sections : List Section} {x : OrderedBlock}
    (h : requestBlock? file sections = .ok (some x)) : x.block.Converted := by
  unfold requestBlock? at h
  split at h
  · simp at h
  · dsimp only at h
    split at h
    · simp at h
    · obtain rfl := Option.some.inj (Except.ok.inj h)
      exact converted_request _ _ _ _

theorem converted_entry {tree : Files.Tree} {root folder : Files.Path} {ignored : List Text} {name : Text}
    {contents : Contents} (h : (entryContents tree root ignored folder name).Yields contents) :
    ∀ x ∈ contents.requests, x.block.Converted := by
  unfold entryContents at h
  obtain ⟨isLink, -, h⟩ := yields_bind h
  -- links, ignored names, folders and other files add no request
  split at h
  · rw [← yields_pure h]
    simp
  split at h
  · rw [← yields_pure h]
    simp
  obtain ⟨isFolder, -, h⟩ := yields_bind h
  split at h
  · rw [← yields_pure h]
    simp
  split at h
  · obtain ⟨text, -, h⟩ := yields_bind h
    obtain ⟨sections, -, h⟩ := yields_bind h
    obtain ⟨found, hfound, h⟩ := yields_bind h
    split at h
    · next block =>
        rw [← yields_pure h, List.forall_mem_singleton]
        have hblock := yields_ofExcept hfound
        cases hr : requestBlock? ((folder.child name).relativeTo root) sections with
        | error e => rw [hr] at hblock; simp [Except.mapError] at hblock
        | ok found =>
            rw [hr] at hblock
            obtain rfl : found = some block := Except.ok.inj hblock
            exact converted_requestBlock? hr
    · obtain ⟨_, -, h⟩ := yields_bind h
      rw [← yields_pure h]
      simp
  · rw [← yields_pure h]
    simp

/-- The requests of a folder in their order, and what is inside its subfolders. -/
theorem converted_contents {tree : Files.Tree} {root folder : Files.Path} {ignored names : List Text}
    {contents : List Contents} {inner : List (List Block)}
    (hc : Logged.Yields (names.mapM (entryContents tree root ignored folder)) contents)
    (hi : ∀ bs ∈ inner, ∀ b ∈ bs, b.Converted) :
    ∀ b ∈ ((contents.flatMap (·.requests)).mergeSort OrderedBlock.le).map (·.block) ++ inner.flatten,
      b.Converted := by
  rw [List.forall_mem_append]
  constructor
  · intro b hb
    obtain ⟨x, hx, rfl⟩ := List.mem_map.mp hb
    rw [List.mem_mergeSort] at hx
    obtain ⟨c, hcc, hx⟩ := List.mem_flatMap.mp hx
    obtain ⟨name, -, hname⟩ := yields_mapM hc c hcc
    exact converted_entry hname x hx
  · intro b hb
    obtain ⟨bs, hbs, hb⟩ := List.mem_flatten.mp hb
    exact hi bs hbs b hb

/-- What a folder gives, through all its subfolders. -/
theorem converted_folder {tree : Files.Tree} {root : Files.Path} {ignored : List Text} {levels : Nat}
    {folder : Files.Path} {bs : List Block} (h : (folderBlocks tree root ignored levels folder).Yields bs) :
    ∀ b ∈ bs, b.Converted := by
  induction levels generalizing folder bs with
  | zero =>
      unfold folderBlocks at h
      obtain ⟨names, -, h⟩ := yields_bind h
      obtain ⟨contents, hcontents, h⟩ := yields_bind h
      -- at the last level there are no subfolders, or the conversion fails
      dsimp only at h
      split at h
      · obtain ⟨inner, hinner, h⟩ := yields_bind h
        rw [← yields_pure h, ← yields_pure hinner]
        exact converted_contents hcontents (by simp)
      · obtain ⟨inner, hinner, -⟩ := yields_bind h
        exact (yields_throw hinner).elim
  | succ levels ih =>
      unfold folderBlocks at h
      obtain ⟨names, -, h⟩ := yields_bind h
      obtain ⟨contents, hcontents, h⟩ := yields_bind h
      obtain ⟨inner, hinner, h⟩ := yields_bind h
      rw [← yields_pure h]
      refine converted_contents hcontents fun bs hbs => ?_
      obtain ⟨subfolder, -, hsub⟩ := yields_mapM hinner bs hbs
      exact ih hsub

/-- **The documents of a folder of request files are converted ones.** -/
theorem converted_documents {tree : Files.Tree} {folder : Files.Path} {ds : List NamedDocument}
    (h : (documents tree folder).Yields ds) : ∀ d ∈ ds, d.document.Converted := by
  unfold documents at h
  obtain ⟨isFolder, -, h⟩ := yields_bind h
  split at h
  · exact (yields_throw h).elim
  · obtain ⟨description, -, h⟩ := yields_bind h
    obtain ⟨environments, -, h⟩ := yields_bind h
    split at h
    · obtain ⟨blocks, hblocks, h⟩ := yields_bind h
      rw [← yields_pure h, List.forall_mem_singleton]
      exact converted_folder hblocks
    · intro d hd
      obtain ⟨⟨name, declared⟩, -, hd⟩ := yields_mapM h d hd
      obtain ⟨blocks, hblocks, hd⟩ := yields_bind hd
      rw [← yields_pure hd]
      exact converted_folder hblocks

end Source.Bruno

/-! ## All sources -/

theorem converted_source {room : Nat} {tree : Files.Tree} {path : Files.Path} {format : Source.Format}
    {ds : List NamedDocument} (h : (readSource room tree path format).Yields ds) :
    ∀ d ∈ ds, d.document.Converted := by
  cases format with
  | openApi => exact Source.OpenApi.converted_read h
  | postman =>
      obtain ⟨d, hd, rfl⟩ := yields_map h
      rw [List.forall_mem_singleton]
      exact Source.Postman.converted_collection hd
  | bruno => exact Source.Bruno.converted_documents h

/-- What is read for a conversion: the documents in a format that is given or told from the source, and the
    folder to write to. -/
theorem yields_forConversion {room : Nat} {tree : Files.Tree} {source folder : Files.Path}
    {format : Option Source.Format} {output : Option Files.Path} {ds : List NamedDocument}
    (h : (readForConversion room tree source format output).Yields (folder, ds)) :
    ∃ f, (format = some f ∨ (format = none ∧ (Source.detect room tree source).Yields f)) ∧
      (readSource room tree source f).Yields ds ∧ (targetFolder tree source output).Yields folder := by
  unfold readForConversion at h
  -- the format is given or told from the source; from there on all is the same
  obtain ⟨f, hf, h⟩ : ∃ f : Source.Format,
      (format = some f ∨ (format = none ∧ (Source.detect room tree source).Yields f)) ∧ Logged.Yields (do
        Logged.note .info ("Converting " ++ source.text ++ " as " ++ f.name)
        let documents ← readSource room tree source f
        return (← targetFolder tree source output, documents)) (folder, ds) := by
    cases format with
    | none =>
        obtain ⟨f, hf, h⟩ := yields_bind h
        exact ⟨f, .inr ⟨rfl, hf⟩, h⟩
    | some f =>
        obtain ⟨g, hg, h⟩ := yields_bind h
        obtain rfl := yields_pure hg
        exact ⟨f, .inl rfl, h⟩
  obtain ⟨_, -, h⟩ := yields_bind h
  obtain ⟨documents, hdocuments, h⟩ := yields_bind h
  obtain ⟨target, htarget, h⟩ := yields_bind h
  obtain ⟨rfl, rfl⟩ : target = folder ∧ documents = ds := by simpa using yields_pure h
  exact ⟨f, hf, hdocuments, htarget⟩

theorem converted_forConversion {room : Nat} {tree : Files.Tree} {source folder : Files.Path}
    {format : Option Source.Format} {output : Option Files.Path} {ds : List NamedDocument}
    (h : (readForConversion room tree source format output).Yields (folder, ds)) :
    ∀ d ∈ ds, d.document.Converted := by
  obtain ⟨f, -, hread, -⟩ := yields_forConversion h
  exact converted_source hread

end HttpFile
