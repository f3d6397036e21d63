import HttpFile.Proofs.Files.Listing
import HttpFile.Proofs.Files.Resolve

/-!
# `HttpFile.Proofs.Files.Once` — every file once, in order

Starting points may overlap, repeat, or be links. What is collected from all of them is what is found from
each, in a row, without the paths that resolve to a location that came before.

## Contents
- **First paths.** `firsts`: the first path to each location; `IsFirsts`, `firsts_append`.
- **Collecting.** `located`: what is found at a starting point, with its locations; `result_unseen`,
  `result_collectFrom`.
- **Main result.** `SearchOf`; `collectFiles_once`, with an example; `collectFiles_once_fails`: two inputs for
  which work is refused.
-/

namespace HttpFile.Files

open Text

variable {t : Tree} {extensions : List Text}

/-! ## First paths -/

/-- The first of the paths to each location, in their order. -/
def firsts (found : List (Path × Location)) : List (Path × Location) :=
  found.eraseDupsBy fun x y => x.2 == y.2

theorem firsts_cons (x : Path × Location) (found : List (Path × Location)) :
    firsts (x :: found) = x :: firsts (found.filter fun y => y.2 ≠ x.2) := by
  unfold firsts
  rw [List.eraseDupsBy_cons]
  congr 3
  funext y
  simp [beq_eq_decide]

/-- Paths with different locations: some of those that were found, one to each location that was. -/
structure IsFirsts (found kept : List (Path × Location)) : Prop where
  sublist : kept.Sublist found
  nodup : (kept.map Prod.snd).Nodup
  complete : ∀ x ∈ found, ∃ y ∈ kept, y.2 = x.2

theorem isFirsts_firsts (found : List (Path × Location)) : IsFirsts found (firsts found) := by
  match found with
  | [] => exact ⟨.slnil, .nil, by simp⟩
  | x :: found =>
      obtain ⟨hsub, hnodup, hcomplete⟩ := isFirsts_firsts (found.filter fun y => y.2 ≠ x.2)
      rw [firsts_cons]
      refine ⟨(hsub.trans List.filter_sublist).cons_cons x, ?_, ?_⟩
      · refine List.nodup_cons.mpr ⟨fun hmem => ?_, hnodup⟩
        obtain ⟨y, hy, hsame⟩ := List.mem_map.mp hmem
        simpa [hsame] using (List.mem_filter.mp (hsub.subset hy)).2
      · intro y hy
        by_cases hsame : y.2 = x.2
        · exact ⟨x, by simp, hsame.symm⟩
        · have hy : y ∈ found := (List.mem_cons.mp hy).resolve_left fun he => hsame (he ▸ rfl)
          obtain ⟨z, hz, hz'⟩ := hcomplete y (List.mem_filter.mpr ⟨hy, by simpa using hsame⟩)
          exact ⟨z, List.mem_cons_of_mem x hz, hz'⟩
termination_by found.length
decreasing_by exact Nat.lt_succ_of_le (List.length_filter_le _ _)

/-- The first paths lead to all locations. -/
theorem mem_map_firsts {found : List (Path × Location)} {l : Location} :
    l ∈ (firsts found).map Prod.snd ↔ l ∈ found.map Prod.snd := by
  obtain ⟨hsub, -, hcomplete⟩ := isFirsts_firsts found
  refine ⟨fun h => (hsub.map Prod.snd).subset h, fun h => ?_⟩
  obtain ⟨x, hx, rfl⟩ := List.mem_map.mp h
  obtain ⟨y, hy, hsame⟩ := hcomplete x hx
  exact hsame ▸ List.mem_map_of_mem hy

/-- Paths behind others are kept if their location did not come there. -/
theorem firsts_append (found more : List (Path × Location)) : firsts (found ++ more) =
    firsts found ++ firsts (more.filter fun y => y.2 ∉ found.map Prod.snd) := by
  match found with
  | [] => simp [firsts]
  | x :: found =>
      rw [List.cons_append, firsts_cons, firsts_cons, List.filter_append, firsts_append _ (more.filter _),
        List.cons_append, List.filter_filter]
      congr 4
      funext y
      by_cases hsame : y.2 = x.2 <;> simp [hsame]
termination_by found.length
decreasing_by exact Nat.lt_succ_of_le (List.length_filter_le _ _)

/-! ## Collecting -/

/-- A path with the location that it resolves to. -/
def locate (t : Tree) (p : Path) : Except FileError (Path × Location) := (t.resolve p).map fun l => (p, l)

theorem locate_of_resolve {p : Path} {l : Location} (h : t.resolve p = .ok l) : locate t p = .ok (p, l) := by
  rw [locate, h]
  rfl

/-- What is found at a starting point, each path with its location. -/
def located (t : Tree) (extensions : List Text) (root : Path) : Except FileError (List (Path × Location)) :=
  (findFiles t extensions root).outcome.1 >>= fun found => found.mapM (locate t)

/-- The paths to locations that were not seen. -/
def newOf (seen : List Location) (found : List (Path × Location)) : List (Path × Location) :=
  firsts (found.filter fun x => x.2 ∉ seen)

theorem newOf_nil (found : List (Path × Location)) : newOf [] found = firsts found := by
  simp [newOf]

theorem newOf_cons_seen {seen : List Location} {x : Path × Location} (h : x.2 ∈ seen)
    (found : List (Path × Location)) : newOf seen (x :: found) = newOf seen found := by
  unfold newOf
  rw [List.filter_cons_of_neg (by simpa using h)]

theorem newOf_cons_new {seen : List Location} {x : Path × Location} (h : x.2 ∉ seen)
    (found : List (Path × Location)) : newOf seen (x :: found) = x :: newOf (seen ++ [x.2]) found := by
  unfold newOf
  rw [List.filter_cons_of_pos (by simpa using h), firsts_cons, List.filter_filter]
  congr 3
  funext y
  simp [and_comm]

/-- What is new among the paths behind others is what is new once those are seen. -/
theorem newOf_append (seen : List Location) (found more : List (Path × Location)) :
    newOf seen (found ++ more) =
      newOf seen found ++ newOf (seen ++ (newOf seen found).map Prod.snd) more := by
  unfold newOf
  rw [List.filter_append, firsts_append, List.filter_filter]
  congr 3
  funext y
  simp only [List.mem_append, mem_map_firsts, not_or, Bool.decide_and, Bool.and_comm]

theorem blind_findFiles (root : Path) : (findFiles t extensions root).Blind := by
  refine blind_bind (blind_ofExcept _) fun isFile => ?_
  cases isFile with
  | true => exact blind_pure _
  | false => exact blind_filesBelow _ _

theorem blind_unseen (seen : List Location) (ps : List Path) : (unseen t seen ps).Blind := by
  induction ps generalizing seen with
  | nil => exact blind_pure _
  | cons p ps ih =>
      exact blind_bind (blind_ofExcept _) fun l =>
        blind_branch (ih seen) (blind_bind (ih _) fun _ => blind_pure _) _

theorem blind_collectFrom (seen : List Location) (roots : List Path) :
    (collectFrom t extensions seen roots).Blind := by
  induction roots generalizing seen with
  | nil => exact blind_pure _
  | cons root roots ih =>
      exact blind_bind (blind_findFiles root) fun found => blind_bind (blind_unseen seen found) fun kept =>
        blind_bind (ih kept.2) fun _ => blind_pure _

/-- The paths that are kept are new, and their locations are seen from then on. -/
theorem result_unseen (seen : List Location) (ps : List Path) : (unseen t seen ps).outcome.1 =
    (ps.mapM (locate t)).map fun found =>
      ((newOf seen found).map Prod.fst, seen ++ (newOf seen found).map Prod.snd) := by
  induction ps generalizing seen with
  | nil =>
      show Except.ok ([], seen) = Except.ok ([], seen ++ [])
      rw [List.append_nil]
  | cons p ps ih =>
      unfold unseen
      rw [List.mapM_cons, result_bind, result_ofExcept]
      · cases hl : t.resolve p with
        | error e =>
            have hlocate : locate t p = .error e := by
              rw [locate, hl]
              rfl
            rw [hlocate]
            rfl
        | ok l =>
            rw [locate_of_resolve hl]
            show (Logged.outcome (if seen.contains l then _ else _)).1 = _
            by_cases hseen : l ∈ seen
            · -- a path to a location that has been seen is dropped
              rw [if_pos (by simpa using hseen), ih]
              cases ps.mapM (locate t) with
              | error e => rfl
              | ok found =>
                  show Except.ok _ = Except.ok (_, _)
                  rw [newOf_cons_seen hseen]
            · rw [if_neg (by simpa using hseen), result_bind _ fun _ => blind_pure _, ih]
              cases ps.mapM (locate t) with
              | error e => rfl
              | ok found =>
                  show Except.ok (p :: _, _) = Except.ok (_, _)
                  rw [newOf_cons_new hseen]
                  simp
      · exact fun l => blind_branch (blind_unseen seen ps) (blind_bind (blind_unseen _ ps) fun _ => blind_pure _) _

/-- What is kept from all starting points is what is new among all that is found. -/
theorem result_collectFrom (seen : List Location) (roots : List Path) :
    (collectFrom t extensions seen roots).outcome.1 =
      (roots.mapM (located t extensions)).map fun lists => (newOf seen lists.flatten).map Prod.fst := by
  induction roots generalizing seen with
  | nil => rfl
  | cons root roots ih =>
      have hkept : ∀ kept : List Path × List Location, Logged.Blind (do
          let more ← collectFrom t extensions kept.2 roots
          return kept.1 ++ more) := fun kept => blind_bind (blind_collectFrom _ roots) fun _ => blind_pure _
      unfold collectFrom
      rw [List.mapM_cons, result_bind _ fun found => blind_bind (blind_unseen seen found) hkept]
      cases hfound : (findFiles t extensions root).outcome.1 with
      | error e =>
          have hlocated : located t extensions root = .error e := by
            rw [located, hfound]
            rfl
          rw [hlocated]
          rfl
      | ok found =>
          have hlocated : located t extensions root = found.mapM (locate t) := by
            rw [located, hfound]
            rfl
          show (Logged.outcome (unseen t seen found >>= _)).1 = _
          -- what is new here is seen when the other starting points are searched
          rw [hlocated, result_bind _ hkept, result_unseen]
          cases found.mapM (locate t) with
          | error e => rfl
          | ok pairs =>
              show (Logged.outcome (collectFrom t extensions _ roots >>= _)).1 = _
              rw [result_bind _ fun _ => blind_pure _, ih]
              cases roots.mapM (located t extensions) with
              | error e => rfl
              | ok lists =>
                  show Except.ok (_ ++ _) = Except.ok ((newOf seen (pairs ++ lists.flatten)).map Prod.fst)
                  rw [newOf_append, List.map_append]

/-! ## Main result -/

/-- What is known of the search of a folder. It gives the files that are listed for the folder, or a path is too
    long; a walk with a stack finds the same; the listing is complete and in order; and if no path is too
    long, each path that is found resolves to the file that it is listed for. -/
structure SearchOf (t : Tree) (extensions : List Text) (root : Path) (folder : Location) : Prop where
  finds : Finds root (t.IsWithin (maxDepth + 1) folder) (listing t extensions (maxDepth + 1) folder)
    (findFiles t extensions root).outcome.1
  walks : ∀ found, Walks t extensions [(root, 0)] found ↔ (findFiles t extensions root).outcome.1 = .ok found
  listed : ∀ files, IsListing t extensions (maxDepth + 1) folder files ↔
    files = listing t extensions (maxDepth + 1) folder
  locates : (∀ names, t.IsWithin (maxDepth + 1) folder names → Tree.isTooLong (root.below names).text = false) →
    located t extensions root = .ok ((listing t extensions (maxDepth + 1) folder).map fun names =>
      (root.below names, folder ++ names))

/-- Paths that all resolve. -/
theorem mapM_locate {α : Type} {path : α → Path} {location : α → Location} {xs : List α}
    (h : ∀ x ∈ xs, t.resolve (path x) = .ok (location x)) :
    (xs.map path).mapM (locate t) = .ok (xs.map fun x => (path x, location x)) := by
  induction xs with
  | nil => rfl
  | cons x xs ih =>
      rw [List.map_cons, List.mapM_cons, locate_of_resolve (h x (by simp)), ih fun y hy => h y (by simp [hy])]
      rfl

theorem searchOf_findFiles (ht : t.IsProper) {root : Path} {folder : Location}
    (h : t.find root true = .entry folder .folder) : SearchOf t extensions root folder := by
  have hfolder := Tree.at?_of_find h
  have hsearch : findFiles t extensions root = filesBelow t extensions (maxDepth + 1) root := by
    unfold findFiles Tree.isFile
    rw [Tree.ask_of_find (Tree.hasNull_of_find ht h) h]
    rfl
  have hfinds : Finds root (t.IsWithin (maxDepth + 1) folder) (listing t extensions (maxDepth + 1) folder)
      (filesBelow t extensions (maxDepth + 1) root).outcome.1 := finds_filesBelow ht h
  refine ⟨hsearch ▸ hfinds, fun found => hsearch ▸ walks_iff root found, fun files => ?_, fun hshort => ?_⟩
  · have hlisting : IsListing t extensions (maxDepth + 1) folder _ := isListing_listing ht (maxDepth + 1) hfolder
    exact ⟨fun hfiles => hfiles.unique hlisting, fun he => he ▸ hlisting⟩
  · -- if no path is too long every file is found, and its path resolves to its location
    obtain ⟨hfound, -⟩ | ⟨names, hwithin, hlong, -⟩ := hfinds
    · rw [located, hsearch, hfound]
      refine mapM_locate fun names hnames => ?_
      obtain ⟨hlength, ⟨bytes, hfile⟩, -⟩ := (mem_listing ht hfolder names).mp hnames
      have hne := Tree.ne_nil_of_file hfolder hfile
      have hfind : t.find (root.below names) true = .entry (folder ++ names) (.file bytes) :=
        Tree.find_below ht h hfile hne (hshort names ⟨hne, hlength, _, hfile⟩) (by simp)
      exact Tree.resolve_of_find hfind (Tree.hasNull_of_find ht hfind) (Tree.empty_notMem_of_find ht hfind)
    · rw [hshort names hwithin] at hlong
      cases hlong

/-- A file that is named directly is found, and resolves to where it is. -/
theorem located_file (ht : t.IsProper) {root : Path} {l : Location} {bytes : List UInt8}
    (h : t.find root true = .entry l (.file bytes)) :
    (findFiles t extensions root).outcome.1 = .ok [root] ∧ located t extensions root = .ok [(root, l)] := by
  have hnull := Tree.hasNull_of_find ht h
  have hfound : (findFiles t extensions root).outcome.1 = .ok [root] := by
    unfold findFiles Tree.isFile
    rw [Tree.ask_of_find hnull h]
    rfl
  refine ⟨hfound, ?_⟩
  have hresolve : t.resolve root = .ok l := Tree.resolve_of_find h hnull (Tree.empty_notMem_of_find ht h)
  rw [located, hfound]
  show [root].mapM (locate t) = .ok [(root, l)]
  rw [List.mapM_cons, locate_of_resolve hresolve]
  rfl

/-- **Every file is found once, in order.** The search of a folder gives its listing unless a path is too
    long; a file that is named directly is found; and what is collected from several starting points is what
    is found from each, in a row, the first path to each location. -/
theorem collectFiles_once {t : Tree} (ht : t.IsProper) (extensions : List Text) :
    (∀ root folder, t.find root true = .entry folder .folder → SearchOf t extensions root folder) ∧
      (∀ root l bytes, t.find root true = .entry l (.file bytes) →
        (findFiles t extensions root).outcome.1 = .ok [root] ∧ located t extensions root = .ok [(root, l)]) ∧
      ∀ roots, (collectFiles t extensions roots).outcome.1 =
          (roots.mapM (located t extensions)).map (fun lists => (firsts lists.flatten).map Prod.fst) ∧
        ∀ lists, roots.mapM (located t extensions) = .ok lists → IsFirsts lists.flatten (firsts lists.flatten) := by
  refine ⟨fun root folder => searchOf_findFiles ht, fun root l bytes => located_file ht, fun roots => ⟨?_, ?_⟩⟩
  · unfold collectFiles
    rw [result_collectFrom]
    simp only [newOf_nil]
  · exact fun lists _ => isFirsts_firsts lists.flatten

/-- A folder with a link back to the folder above it, a link to that folder, and a link to a file. -/
def cyclicTree : Tree where
  entries := [
    (["again"], .link "sub"),
    (["b.HTTP"], .file []),
    (["c.http"], .link "b.HTTP"),
    (["notes.txt"], .file []),
    (["sub"], .folder),
    (["sub", "a.rest"], .file []),
    (["sub", "up"], .link "..")]
  current := []

theorem listing_cyclicTree_sub (levels : Nat) :
    listing cyclicTree requestExtensions (levels + 1) ["sub"] = [["a.rest".toList]] := by
  have hnames : cyclicTree.namesAt ["sub"] = (["a.rest", "up"] : List Text) := List.mergeSort_of_pairwise (by decide)
  rw [listing, hnames]
  rfl

theorem listing_cyclicTree (levels : Nat) :
    listing cyclicTree requestExtensions (levels + 2) [] = [["b.HTTP".toList], ["sub".toList, "a.rest".toList]] := by
  have hnames : cyclicTree.namesAt [] = (["again", "b.HTTP", "c.http", "notes.txt", "sub"] : List Text) :=
    List.mergeSort_of_pairwise (by decide)
  rw [listing, hnames]
  show [["b.HTTP".toList]] ++
    ((listing cyclicTree requestExtensions (levels + 1) ["sub"]).map ("sub".toList :: ·) ++ []) = _
  rw [listing_cyclicTree_sub]
  rfl

/-- No path below a folder is too long if none to the entries of the tree is. -/
theorem isTooLong_below {folder : Location} {root : Path}
    (h : ∀ x ∈ t.entries, Tree.isTooLong (root.below (x.1.drop folder.length)).text = false)
    {levels : Nat} (names : List Text) (hwithin : t.IsWithin levels folder names) :
    Tree.isTooLong (root.below names).text = false := by
  obtain ⟨hne, -, e, he⟩ := hwithin
  have hx := h _ (Tree.mem_entries_of_at? (by simp [hne]) he)
  rwa [List.drop_left] at hx

/-- From a link to a folder, the folder that holds both, and a link to a file: no link is followed on the way,
    and each file is collected once. -/
theorem collectFiles_once_example :
    cyclicTree.IsProper ∧ cyclicTree.find .here true = .entry [] .folder ∧
      (findFiles cyclicTree requestExtensions .here).outcome.1 = .ok [.ofText "b.HTTP", .ofText "sub/a.rest"] ∧
      (collectFiles cyclicTree requestExtensions [.ofText "again", .here, .ofText "c.http"]).outcome.1 =
        .ok [.ofText "again/a.rest", .ofText "b.HTTP"] := by
  have hproper : cyclicTree.IsProper := by decide
  obtain ⟨hfolder, hfile, hcollect⟩ := collectFiles_once hproper requestExtensions
  have hhere := hfolder .here [] (by decide)
  have hagain := hfolder (.ofText "again") ["sub"] (by decide)
  have hlink := hfile (.ofText "c.http") ["b.HTTP"] [] (by decide)
  have hhereFiles : listing cyclicTree requestExtensions (maxDepth + 1) [] = _ := listing_cyclicTree 63
  have hagainFiles : listing cyclicTree requestExtensions (maxDepth + 1) ["sub"] = _ := listing_cyclicTree_sub 64
  refine ⟨hproper, by decide, ?_, ?_⟩
  · obtain ⟨hfound, -⟩ | ⟨names, hwithin, hlong, -⟩ := hhere.finds
    · rw [hfound, hhereFiles]
      rfl
    · rw [isTooLong_below (by decide) names hwithin] at hlong
      cases hlong
  · have hhereLocated := hhere.locates (isTooLong_below (by decide))
    have hagainLocated := hagain.locates (isTooLong_below (by decide))
    rw [hhereFiles] at hhereLocated
    rw [hagainFiles] at hagainLocated
    rw [(hcollect _).1, List.mapM_cons, List.mapM_cons, List.mapM_cons, hhereLocated, hagainLocated, hlink.2]
    rfl

/-- A path to the folder `d` that goes there and back again many times. -/
def windingPath : Path := .ofText ((List.replicate 817 "d/../".toList).flatten ++ "d".toList)

/-- A folder with a request file. -/
def plainTree : Tree where
  entries := [(["d"], .folder), (["d", "request.http"], .file [])]
  current := []

/-- A link to itself. -/
def loopTree : Tree where
  entries := [(["a.http"], .link "a.http")]
  current := []

/-- Not every file is found, and not everything found is collected. A folder may have a path that is short
    enough, and its file one that is too long; and a link that leads nowhere but to itself is found if it is
    named directly, but it does not resolve. -/
theorem collectFiles_once_fails :
    (plainTree.IsProper ∧ plainTree.find windingPath true = .entry ["d"] .folder ∧
      (findFiles plainTree requestExtensions windingPath).outcome.1 =
        .error (.refused .nameTooLong (windingPath.child "request.http"))) ∧
      (loopTree.IsProper ∧
        (findFiles loopTree requestExtensions (.ofText "a.http")).outcome.1 = .ok [.ofText "a.http"] ∧
        (collectFiles loopTree requestExtensions [.ofText "a.http"]).outcome.1 = .error .linkLoop) := by
  have hproper : plainTree.IsProper := by decide
  have hfind : plainTree.find windingPath true = .entry ["d"] .folder := by decide +kernel
  have hlong : Tree.isTooLong (windingPath.below ["request.http"]).text = true := by decide +kernel
  refine ⟨⟨hproper, hfind, ?_⟩, by decide, rfl, rfl⟩
  have hthere : plainTree.IsWithin (maxDepth + 1) ["d"] ["request.http"] := ⟨by decide, by decide, .file [], rfl⟩
  obtain ⟨-, hshort⟩ | ⟨names, hwithin, -, hrefused⟩ := (searchOf_findFiles hproper hfind).finds
  · rw [hshort _ hthere] at hlong
    cases hlong
  · -- there is one entry only
    obtain ⟨hne, -, e, he⟩ := hwithin
    rcases List.mem_cons.mp (Tree.mem_entries_of_at? (by simp) he) with hfolder | hfile
    · exact absurd (List.cons.inj (Prod.mk.inj hfolder).1).2 hne
    · obtain rfl := (List.cons.inj (Prod.mk.inj (List.mem_singleton.mp hfile)).1).2
      rw [hrefused]
      rfl

end HttpFile.Files
