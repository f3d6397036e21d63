import HttpFile.Proofs.Source.Work
import HttpFile.Source.Postman.Convert

/-!
# `HttpFile.Proofs.Source.Preorder` — in which order the items of a collection are visited

A collection is a tree of folders and requests, written out in preorder: a folder before what is inside it,
and both before what stands behind it. What is no mapping, or a mapping that is neither a folder nor a
request, contributes nothing. The walk differs from that in one point: nothing at all among the items of a
list is taken for the end of the list.

So there are two readings of a list of items, all of it and what stands before the first nothing, and one
traversal, `Visits`, which takes the reading as a parameter. The walk follows the second reading, and it
agrees with the first one exactly if nothing is lost.

## Contents
- **Traversals.** `Visits`, with `whole` and `beforeNull` as the readings of a list.
- **First items.** `Visits.of_folder`, `Visits.of_leaf`, `Visits.of_skipped`.
- **The walk.** `visits_walkItems`, `visits_walk`.
- **Losses.** `Lossless`; `Lossless.visits_whole`, `Visits.lossless`.
- **Main result.** `blocks_preorder_iff`, an example, and a request that is lost.
-/

namespace HttpFile.Source.Postman

open Text

/-! ## Traversals -/

/-- The path of a folder inside another one. -/
def innerPath (path : Text) (entries : List (Value × Value)) : Text :=
  folderPath path (presentText (part (.dict entries) "name") [])

/-- The block of comments that a folder contributes itself, if it has a description. -/
def ownBlocks (path : Text) (entries : List (Value × Value)) : List Block :=
  folderBlocks (innerPath path entries) (description (part (.dict entries) "description"))

/-- The blocks that a list of items contributes in preorder, the lists inside folders being read in a given
    way. The text is the path of the folder that the list stands in. -/
inductive Visits (reading : List Value → List Value) : Text → List Value → List Block → Prop where
  | done {path} : Visits reading path [] []
  | folder {path entries rest items elements inside more} :
      Value.lookup entries "item" = some items → elementsIfAny items = .ok elements →
      Visits reading (innerPath path entries) (reading elements) inside →
      Visits reading path rest more →
      Visits reading path (.dict entries :: rest) (ownBlocks path entries ++ inside ++ more)
  | request {path entries rest request block more} :
      Value.lookup entries "item" = none → Value.lookup entries "request" = some request →
      (itemBlock (.dict entries)).Yields block → Visits reading path rest more →
      Visits reading path (.dict entries :: rest) (block :: more)
  | neither {path entries rest more} :
      Value.lookup entries "item" = none → Value.lookup entries "request" = none →
      Visits reading path rest more → Visits reading path (.dict entries :: rest) more
  | skipped {path item rest more} :
      (∀ entries, item ≠ .dict entries) → Visits reading path rest more →
      Visits reading path (item :: rest) more

/-- A list with all its items. -/
def whole (items : List Value) : List Value := items

/-- The items of a list before the first nothing. -/
def beforeNull : List Value → List Value
  | [] => []
  | .null :: _ => []
  | item :: rest => item :: beforeNull rest

theorem beforeNull_dict (entries : List (Value × Value)) (rest : List Value) :
    beforeNull (.dict entries :: rest) = .dict entries :: beforeNull rest := rfl

theorem beforeNull_cons {item : Value} (h : item ≠ .null) (rest : List Value) :
    beforeNull (item :: rest) = item :: beforeNull rest := by
  cases item with
  | null => exact absurd rfl h
  | _ => rfl

/-! ## First items -/

/-- What a list with a folder in front contributes. -/
theorem Visits.of_folder {reading : List Value → List Value} {path : Text} {entries : List (Value × Value)}
    {rest elements : List Value} {items : Value} {bs : List Block}
    (hitems : Value.lookup entries "item" = some items) (helements : elementsIfAny items = .ok elements)
    (h : Visits reading path (.dict entries :: rest) bs) :
    ∃ inside more, bs = ownBlocks path entries ++ inside ++ more ∧
      Visits reading (innerPath path entries) (reading elements) inside ∧ Visits reading path rest more := by
  cases h with
  | folder hitems' helements' hinside hmore =>
      obtain rfl := Option.some.inj (hitems.symm.trans hitems')
      obtain rfl := Except.ok.inj (helements.symm.trans helements')
      exact ⟨_, _, rfl, hinside, hmore⟩
  | request hnone => cases hitems.symm.trans hnone
  | neither hnone => cases hitems.symm.trans hnone
  | skipped hdict => exact absurd rfl (hdict _)

/-- What a list with a mapping in front contributes that is no folder: at most one block for it. -/
theorem Visits.of_leaf {reading : List Value → List Value} {path : Text} {entries : List (Value × Value)}
    {rest : List Value} {bs : List Block} (hnone : Value.lookup entries "item" = none)
    (h : Visits reading path (.dict entries :: rest) bs) :
    (∃ request block more, Value.lookup entries "request" = some request ∧
      (itemBlock (.dict entries)).Yields block ∧ bs = block :: more ∧ Visits reading path rest more) ∨
    (Value.lookup entries "request" = none ∧ Visits reading path rest bs) := by
  cases h with
  | folder hitems => cases hitems.symm.trans hnone
  | request _ hrequest hblock hmore => exact .inl ⟨_, _, _, hrequest, hblock, rfl, hmore⟩
  | neither _ hrequest hmore => exact .inr ⟨hrequest, hmore⟩
  | skipped hdict => exact absurd rfl (hdict _)

/-- What is no mapping contributes nothing. -/
theorem Visits.of_skipped {reading : List Value → List Value} {path : Text} {item : Value}
    {rest : List Value} {bs : List Block} (hdict : ∀ entries, item ≠ .dict entries)
    (h : Visits reading path (item :: rest) bs) : Visits reading path rest bs := by
  cases h with
  | folder => exact absurd rfl (hdict _)
  | request => exact absurd rfl (hdict _)
  | neither => exact absurd rfl (hdict _)
  | skipped _ hmore => exact hmore

/-! ## The walk -/

/-- One list of items, if the folders in it are traversed. -/
theorem visits_walkItems {enter : Text → Value → Work (List Block)}
    (henter : ∀ path items bs, (enter path items).Yields bs →
      ∃ elements, elementsIfAny items = .ok elements ∧ Visits beforeNull path (beforeNull elements) bs)
    {path : Text} {items : List Value} {bs : List Block} (h : (walkItems enter path items).Yields bs) :
    Visits beforeNull path (beforeNull items) bs := by
  fun_induction walkItems enter path items generalizing bs with
  | case1 =>
      rw [← yields_pure h]
      exact .done
  | case2 =>
      rw [← yields_pure h]
      exact .done
  | case3 entries rest item items hitems inner about =>
      -- a folder: what is inside it, then the rest
      rename_i ih
      obtain ⟨inside, hinside, h⟩ := yields_bind h
      obtain ⟨more, hmore, h⟩ := yields_bind h
      obtain ⟨elements, helements, hvisits⟩ := henter _ _ _ hinside
      rw [← yields_pure h, beforeNull_dict]
      exact .folder hitems helements hvisits (ih hmore)
  | case4 entries rest item request hrequest hitems =>
      rename_i ih
      obtain ⟨block, hblock, h⟩ := yields_bind h
      obtain ⟨more, hmore, h⟩ := yields_bind h
      rw [← yields_pure h, beforeNull_dict]
      exact .request hitems hrequest hblock (ih hmore)
  | case5 entries rest item hrequest hitems =>
      rename_i ih
      rw [beforeNull_dict]
      exact .neither hitems hrequest (ih h)
  | case6 item rest hnull hdict ih =>
      rw [beforeNull_cons hnull]
      exact .skipped hdict (ih h)

/-- **The walk is a traversal** of what stands before the first nothing in each list. -/
theorem visits_walk {levels : Nat} {path : Text} {items : Value} {bs : List Block}
    (h : (walk levels path items).Yields bs) :
    ∃ elements, elementsIfAny items = .ok elements ∧ Visits beforeNull path (beforeNull elements) bs := by
  induction levels generalizing path items bs with
  | zero =>
      rw [walk] at h
      obtain ⟨elements, helements, h⟩ := yields_bind h
      refine ⟨elements, yields_misfit helements, visits_walkItems ?_ h⟩
      -- below the last level every folder is refused
      intro inner items bs hrefused
      exact (yields_throw hrefused).elim
  | succ levels ih =>
      rw [walk] at h
      obtain ⟨elements, helements, h⟩ := yields_bind h
      refine ⟨elements, yields_misfit helements, visits_walkItems ?_ h⟩
      intro inner items bs hinner
      exact ih hinner

/-! ## Losses -/

/-- Nothing is lost when the lists of a tree are read up to the first nothing: in each list that is read, what
    stands behind it would contribute no block. -/
inductive Lossless : Text → List Value → Prop where
  | done {path} : Lossless path []
  | null {path rest} : Visits whole path rest [] → Lossless path (.null :: rest)
  | folder {path entries rest items elements} :
      Value.lookup entries "item" = some items → elementsIfAny items = .ok elements →
      Lossless (innerPath path entries) elements → Lossless path rest →
      Lossless path (.dict entries :: rest)
  | leaf {path entries rest} :
      Value.lookup entries "item" = none → Lossless path rest → Lossless path (.dict entries :: rest)
  | skipped {path item rest} :
      item ≠ .null → (∀ entries, item ≠ .dict entries) → Lossless path rest → Lossless path (item :: rest)

/-- Where nothing is lost, both readings give the same blocks. -/
theorem Lossless.visits_whole {path : Text} {items : List Value} {bs : List Block}
    (hlossless : Lossless path items) (h : Visits beforeNull path (beforeNull items) bs) :
    Visits whole path items bs := by
  induction hlossless generalizing bs with
  | done =>
      cases h
      exact .done
  | null hrest =>
      cases h
      exact .skipped (by simp) hrest
  | folder hitems helements _ _ ihInside ihRest =>
      rw [beforeNull_dict] at h
      obtain ⟨inside, more, rfl, hinside, hmore⟩ := h.of_folder hitems helements
      exact .folder hitems helements (ihInside hinside) (ihRest hmore)
  | leaf hnone _ ih =>
      rw [beforeNull_dict] at h
      rcases h.of_leaf hnone with ⟨request, block, more, hrequest, hblock, rfl, hmore⟩ | ⟨hrequest, hmore⟩
      · exact .request hnone hrequest hblock (ih hmore)
      · exact .neither hnone hrequest (ih hmore)
  | skipped hnull hdict _ ih =>
      rw [beforeNull_cons hnull] at h
      exact .skipped hdict (ih (h.of_skipped hdict))

/-- Reading less gives no more blocks, and as many only if nothing is lost. -/
theorem Visits.lossless {path : Text} {items : List Value} {all read : List Block}
    (hall : Visits whole path items all) (h : Visits beforeNull path (beforeNull items) read) :
    read.length ≤ all.length ∧ (read.length = all.length → Lossless path items) := by
  induction hall generalizing read with
  | done =>
      cases h
      exact ⟨Nat.le_refl _, fun _ => .done⟩
  | folder hitems helements _ _ ihInside ihMore =>
      rw [beforeNull_dict] at h
      obtain ⟨inside, more, rfl, hinside, hmore⟩ := h.of_folder hitems helements
      obtain ⟨hle, heq⟩ := ihInside hinside
      obtain ⟨hle', heq'⟩ := ihMore hmore
      simp only [List.length_append]
      refine ⟨by omega, ?_⟩
      intro hlength
      exact .folder hitems helements (heq (by omega)) (heq' (by omega))
  | request hnone hrequest _ _ ih =>
      rw [beforeNull_dict] at h
      rcases h.of_leaf hnone with ⟨request, block, more, -, -, rfl, hmore⟩ | ⟨hnone', -⟩
      · obtain ⟨hle, heq⟩ := ih hmore
        simp only [List.length_cons]
        exact ⟨by omega, fun hlength => .leaf hnone (heq (by omega))⟩
      · cases hrequest.symm.trans hnone'
  | neither hnone hnone' _ ih =>
      rw [beforeNull_dict] at h
      rcases h.of_leaf hnone with ⟨request, block, more, hrequest, -⟩ | ⟨-, hmore⟩
      · cases hrequest.symm.trans hnone'
      · exact ⟨(ih hmore).1, fun hlength => .leaf hnone ((ih hmore).2 hlength)⟩
  | @skipped path item rest more hdict hmore ih =>
      by_cases hnull : item = .null
      · -- the list ends here, so all that is left has to contribute nothing
        subst hnull
        cases h
        refine ⟨Nat.zero_le _, ?_⟩
        intro hlength
        rw [List.length_eq_zero_iff.mp hlength.symm] at hmore
        exact .null hmore
      · rw [beforeNull_cons hnull] at h
        obtain ⟨hle, heq⟩ := ih (h.of_skipped hdict)
        exact ⟨hle, fun hlength => .skipped hnull hdict (heq hlength)⟩

/-! ## Main result -/

/-- **In which order the items of a collection are written.** The blocks of a collection are those of a
    preorder traversal of what stands before the first nothing in each list of items. They are those of the
    traversal of all items exactly if nothing is lost: if what stands behind a nothing contributes no block. -/
theorem blocks_preorder_iff {collection : Value} {d : NamedDocument} (h : (document collection).Yields d) :
    ∃ items, collection.get? "item" = some (.list items) ∧
      Visits beforeNull [] (beforeNull items) d.document.blocks ∧
      (Visits whole [] items d.document.blocks ↔ Lossless [] items) := by
  unfold document at h
  split at h
  · next items hitems =>
      obtain ⟨info, -, h⟩ := yields_bind h
      obtain ⟨declared, -, h⟩ := yields_bind h
      obtain ⟨blocks, hblocks, h⟩ := yields_bind h
      obtain ⟨elements, helements, hvisits⟩ := visits_walk hblocks
      obtain rfl : items = elements := by
        unfold elementsIfAny at helements
        cases items with
        | nil => exact Except.ok.inj helements
        | cons item items => exact Except.ok.inj helements
      rw [← yields_pure h]
      refine ⟨items, hitems, hvisits, ?_, ?_⟩
      · intro hall
        exact (hall.lossless hvisits).2 rfl
      · intro hlossless
        exact hlossless.visits_whole hvisits
  · exact (yields_throw h).elim

/-- A folder with a description and a request in it, a number, a mapping that is neither, a request, and
    nothing at the end. -/
theorem blocks_preorder_example :
    let collection : Value := .dict [(.str "item", .list [
      .dict [(.str "name", .str "f"), (.str "description", .str "about"), (.str "item", .list [
        .dict [(.str "name", .str "g"), (.str "item", .null)],
        .dict [(.str "request", .str "http://a")]])],
      .int 1, .dict [], .dict [(.str "request", .str "http://b")], .null])]
    ∃ d, ((document collection).Yields d ∧
        d.document.blocks.map (fun b => b.request.map (·.url)) =
          [none, some ("http://a" : Text), some ("http://b" : Text)]) ∧
      ∃ items, collection.get? "item" = some (.list items) ∧
        Visits beforeNull [] (beforeNull items) d.document.blocks ∧
        (Visits whole [] items d.document.blocks ↔ Lossless [] items) := by
  exact ⟨_, ⟨⟨[], [], rfl⟩, by decide +kernel⟩, blocks_preorder_iff ⟨[], [], rfl⟩⟩

/-- The request behind a nothing is lost. -/
theorem blocks_preorder_fails :
    let items : List Value := [.null, .dict [(.str "request", .str "http://a")]]
    ∃ d, (document (.dict [(.str "item", .list items)])).Yields d ∧
      ¬ Visits whole [] items d.document.blocks := by
  refine ⟨_, ⟨[], [], rfl⟩, ?_⟩
  intro hvisits
  have hrest := hvisits.of_skipped (by simp)
  rcases hrest.of_leaf rfl with ⟨request, block, more, -, -, hblocks, -⟩ | ⟨hrequest, -⟩
  · cases hblocks
  · cases hrequest

end HttpFile.Source.Postman
