import HttpFile.Proofs.Source.Fanout

/-!
# `HttpFile.Proofs.Source.Blocks` — the blocks of a specification

Of whichever version a specification is, its blocks are those of its operations: one for each operation of the
specification in the form of version 3, in order, and in every document.

## Contents
- **Versions.** `Modern`: the form of version 3 of a specification, and its paths.
- **Blocks.** `IsBlock`; `isBlock_paths`, `isBlock_servers`.
- **Main result.** `blocks_of_documents`.
-/

namespace HttpFile.Source.OpenApi

open Text

/-! ## Versions -/

/-- A specification in the form of version 3, and the entries of its paths: it is in that form already, or it is
    brought into it. -/
inductive Modern (spec : Value) : Value → List (Value × Value) → Prop
  | itself {paths : List (Value × Value)} (hversion : spec.get? "swagger" = none)
      (hpaths : (spec.get? "paths").map Value.opened = some (.dict paths)) : Modern spec spec paths
  | rewritten {entries old paths : List (Value × Value)} {modern : Value} (hspec : spec.opened = .dict entries)
      (hversion : (spec.get? "swagger").isSome = true)
      (hpaths : (spec.get? "paths").map Value.opened = some (.dict old))
      (hmodern : (modernize entries old).Yields (modern, paths)) : Modern spec modern paths

/-! ## Blocks -/

/-- A block of an operation: its call with the target and the comments of some server. -/
def IsBlock (spec : Value) (site : Site) (b : Block) : Prop :=
  ∃ c base comments, Call.Of spec site c ∧ b = c.at (target base c.path) comments

theorem isBlock_paths {spec : Value} {comments : List Text} {base : Option Text}
    {paths : List (Value × Value)} {bs : List Block} (h : (allBlocks spec comments base paths).Yields bs) :
    List.Forall₂ (IsBlock spec) (sites spec paths) bs := by
  obtain ⟨calls, hcalls, rfl⟩ := blocks_of_paths h
  rw [List.forall₂_map_right_iff]
  refine hcalls.imp ?_
  intro site c hc
  exact ⟨c, base, comments, hc, rfl⟩

theorem isBlock_servers {spec : Value} {paths : List (Value × Value)} {used : List Text} {index : Nat}
    {servers : List Value} {ds : List NamedDocument}
    (h : (serverDocuments spec paths used index servers).Yields ds) :
    ∀ d ∈ ds, List.Forall₂ (IsBlock spec) (sites spec paths) d.document.blocks := by
  induction servers generalizing used index ds with
  | nil =>
      rw [← yields_pure h]
      simp
  | cons entry servers ih =>
      rw [serverDocuments] at h
      obtain ⟨server, -, h⟩ := yields_bind h
      obtain ⟨document, hdocument, h⟩ := yields_bind h
      obtain ⟨more, hmore, h⟩ := yields_bind h
      rw [← yields_pure h, List.forall_mem_cons]
      refine ⟨?_, ih hmore⟩
      unfold serverDocument at hdocument
      obtain ⟨declared, -, hdocument⟩ := yields_bind hdocument
      obtain ⟨blocks, hblocks, hdocument⟩ := yields_bind hdocument
      rw [← yields_pure hdocument]
      exact isBlock_paths hblocks

theorem isBlock_modern {spec : Value} {paths : List (Value × Value)} {ds : List NamedDocument}
    (h : (modernDocuments spec paths).Yields ds) :
    ∀ d ∈ ds, List.Forall₂ (IsBlock spec) (sites spec paths) d.document.blocks := by
  unfold modernDocuments at h
  obtain ⟨servers, -, h⟩ := yields_bind h
  split at h
  · obtain ⟨blocks, hblocks, h⟩ := yields_bind h
    rw [← yields_pure h, List.forall_mem_singleton]
    exact isBlock_paths hblocks
  · exact isBlock_servers h

/-! ## Main result -/

/-- **The blocks of every document are those of the operations**, in the form of version 3. -/
theorem blocks_of_documents {spec : Value} {ds : List NamedDocument} (h : (documents spec).Yields ds) :
    ∃ modern paths, Modern spec modern paths ∧
      ∀ d ∈ ds, List.Forall₂ (IsBlock modern) (sites modern paths) d.document.blocks := by
  unfold documents at h
  obtain ⟨entries, hentries, h⟩ := yields_bind h
  have hspec : spec.opened = .dict entries := opened_of_fields (yields_misfit hentries)
  simp only [← get?_of_opened hspec] at h
  split at h
  · next paths hpaths =>
      split at h
      · next hversion =>
          obtain ⟨⟨modern, modernPaths⟩, hmodern, h⟩ := yields_bind h
          exact ⟨modern, modernPaths, .rewritten hspec hversion hpaths hmodern, isBlock_modern h⟩
      · next hversion =>
          have hnone : spec.get? "swagger" = none := Option.not_isSome_iff_eq_none.mp hversion
          exact ⟨spec, paths, .itself hnone hpaths, isBlock_modern h⟩
  · exact (yields_throw h).elim

end HttpFile.Source.OpenApi
