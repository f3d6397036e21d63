import HttpFile.Files.Walk
import HttpFile.Proofs.Files.Below
import HttpFile.Proofs.Log
import Mathlib.Data.List.Lex

/-!
# `HttpFile.Proofs.Files.Listing` — the files of a folder, complete and in order

The search asks the disk about one path after the other. What it finds is described on the tree alone,
where nothing is asked and nothing can be refused: the names of a folder in their order, each with the file
or the folder that it stands for. Only a path that is too long comes between the two. A loop with a stack of
paths and their depths finds the same.

## Contents
- **Steps.** `entryWork`; `result_filesBelow_zero`, `result_filesBelow_succ`: the search without its notes.
- **Listing.** `listing`, on locations, from `entryListing`; `IsListing`, which fits one list only:
  `isListing_listing`, `IsListing.unique`.
- **Searching.** `Tree.IsWithin`, `Finds`: the files, or a path that is too long; `finds_filesBelow`.
- **Walking.** `Walks`: the loop; `walks_iff`.
-/

namespace HttpFile.Files

open Text

variable {t : Tree} {extensions : List Text}

/-! ## Steps -/

/-- The search of an entry of a folder: nothing is found at a link. -/
def entryWork (t : Tree) (extensions : List Text) (levels : Nat) (entry : Path) : FileWork (List Path) := do
  if ← Logged.ofExcept (t.isLink entry) then return []
  else filesBelow t extensions levels entry

/-- What is found at a path that is no folder. -/
def itself (extensions : List Text) (p : Path) : List Path := if hasExtension extensions p then [p] else []

theorem filesBelow_succ (levels : Nat) (p : Path) : filesBelow t extensions (levels + 1) p = (do
    if ← Logged.ofExcept (t.isFolder p) then
      let names ← Logged.ofExcept (t.names p)
      let found ← names.mapM fun name => entryWork t extensions levels (p.child name)
      return found.flatten
    else return itself extensions p) := rfl

theorem blind_entryWork {levels : Nat} {entry : Path} (h : (filesBelow t extensions levels entry).Blind) :
    (entryWork t extensions levels entry).Blind := by
  refine blind_bind (blind_ofExcept _) fun isLink => ?_
  cases isLink with
  | true => exact blind_pure _
  | false => exact h

/-- Work that is blind whichever way it goes on. -/
theorem blind_branch {α : Type} {yes no : FileWork α} (hyes : yes.Blind) (hno : no.Blind) (b : Bool) :
    Logged.Blind (if b then yes else no) := by
  cases b with
  | true => exact hyes
  | false => exact hno

theorem blind_filesBelow (levels : Nat) (p : Path) : (filesBelow t extensions levels p).Blind := by
  induction levels generalizing p with
  | zero =>
      refine blind_bind (blind_ofExcept _) (blind_branch ?_ (blind_pure _))
      exact blind_bind (blind_warn _) fun _ => blind_pure _
  | succ levels ih =>
      rw [filesBelow_succ]
      refine blind_bind (blind_ofExcept _) (blind_branch ?_ (blind_pure _))
      exact blind_bind (blind_ofExcept _) fun names =>
        blind_bind (blind_mapM (fun name => blind_entryWork (ih (p.child name))) names) fun _ => blind_pure _

/-- Below the last level a folder is left out. -/
theorem result_filesBelow_zero (p : Path) : (filesBelow t extensions 0 p).outcome.1 =
    t.isFolder p >>= fun isFolder => .ok (if isFolder then [] else itself extensions p) := by
  unfold filesBelow
  rw [result_bind _ (blind_branch (blind_bind (blind_warn _) fun _ => blind_pure _) (blind_pure _)),
    result_ofExcept]
  congr 1
  funext isFolder
  cases isFolder <;> rfl

/-- Else its entries are searched one after the other. -/
theorem result_filesBelow_succ (levels : Nat) (p : Path) : (filesBelow t extensions (levels + 1) p).outcome.1 =
    t.isFolder p >>= fun isFolder =>
      if isFolder then t.names p >>= fun names =>
        (names.mapM fun name => (entryWork t extensions levels (p.child name)).outcome.1).map List.flatten
      else .ok (itself extensions p) := by
  have hentry : ∀ name, (entryWork t extensions levels (p.child name)).Blind := fun name =>
    blind_entryWork (blind_filesBelow levels (p.child name))
  have hentries : ∀ names : List Text, Logged.Blind (do
      let found ← names.mapM fun name => entryWork t extensions levels (p.child name)
      return found.flatten) := fun names => blind_bind (blind_mapM hentry names) fun _ => blind_pure _
  rw [filesBelow_succ, result_bind _ (blind_branch (blind_bind (blind_ofExcept _) hentries) (blind_pure _)),
    result_ofExcept]
  congr 1
  funext isFolder
  cases isFolder with
  | false => rfl
  | true =>
      rw [if_pos rfl, if_pos rfl, result_bind _ hentries, result_ofExcept]
      congr 1
      funext names
      rw [result_bind _ fun _ => blind_pure _, result_mapM hentry]
      cases names.mapM fun name => (entryWork t extensions levels (p.child name)).outcome.1 <;> rfl

/-- What is no folder gives itself, on any level. -/
theorem result_filesBelow_of_file {levels : Nat} {p : Path} (h : t.isFolder p = .ok false) :
    (filesBelow t extensions levels p).outcome.1 = .ok (itself extensions p) := by
  cases levels with
  | zero =>
      rw [result_filesBelow_zero, h]
      rfl
  | succ levels =>
      rw [result_filesBelow_succ, h]
      rfl

theorem result_entryWork_of_link {levels : Nat} {p : Path} (h : t.isLink p = .ok true) :
    (entryWork t extensions levels p).outcome.1 = .ok [] := by
  unfold entryWork
  rw [h]
  rfl

theorem result_entryWork_of_not_link {levels : Nat} {p : Path} (h : t.isLink p = .ok false) :
    (entryWork t extensions levels p).outcome.1 = (filesBelow t extensions levels p).outcome.1 := by
  unfold entryWork
  rw [h]
  rfl

/-! ## Listing -/

/-- What is listed for a name in a folder, where `inner` is listed for the folder that the name may stand for. Links
    are left out. -/
def entryListing (t : Tree) (extensions : List Text) (folder : Location) (name : Text)
    (inner : List (List Text)) : List (List Text) :=
  match t.at? (folder ++ [name]) with
  | some (.file _) => if hasExtension extensions (Path.here.child name) then [[name]] else []
  | some .folder => inner.map (name :: ·)
  | _ => []

/-- The files of a folder and of the folders in it, through the given number of levels: the names that lead
    to each of them. Names are taken in their order. -/
def listing (t : Tree) (extensions : List Text) : Nat → Location → List (List Text)
  | 0, _ => []
  | levels + 1, folder => (t.namesAt folder).flatMap fun name =>
    entryListing t extensions folder name (listing t extensions levels (folder ++ [name]))

/-- The files of a folder, described without a search: those that fit, at most so many levels below, each
    once, in the order of the names that lead to them. -/
structure IsListing (t : Tree) (extensions : List Text) (levels : Nat) (folder : Location)
    (files : List (List Text)) : Prop where
  mem : ∀ names, names ∈ files ↔ names.length ≤ levels ∧ (∃ bytes, t.at? (folder ++ names) = some (.file bytes)) ∧
    hasExtension extensions (Path.here.below names) = true
  ordered : files.Pairwise (List.Lex ComesBefore)

/-- What a path's last part is does not depend on where the path starts. -/
theorem hasExtension_below (p : Path) {names : List Text} (h : names ≠ []) :
    hasExtension extensions (p.below names) = hasExtension extensions (Path.here.below names) := by
  have hname : (p.below names).name = (Path.here.below names).name := by
    unfold Path.name Path.below
    rw [List.getLast?_append_of_ne_nil _ h]
    rfl
  unfold hasExtension Path.extension
  rw [hname]

theorem mem_listing (ht : t.IsProper) {levels : Nat} {folder : Location} (hfolder : t.at? folder = some .folder)
    (names : List Text) : names ∈ listing t extensions levels folder ↔
      names.length ≤ levels ∧ (∃ bytes, t.at? (folder ++ names) = some (.file bytes)) ∧
        hasExtension extensions (Path.here.below names) = true := by
  induction levels generalizing folder names with
  | zero =>
      rw [listing]
      refine ⟨fun h => by simp at h, fun ⟨hlength, ⟨bytes, hfile⟩, _⟩ => ?_⟩
      exact absurd (List.length_eq_zero_iff.mp (Nat.le_zero.mp hlength)) (Tree.ne_nil_of_file hfolder hfile)
  | succ levels ih =>
      rw [listing, List.mem_flatMap]
      constructor
      · -- what an entry adds is the file itself, or what is listed in the folder, behind its name
        rintro ⟨name, -, h⟩
        unfold entryListing at h
        split at h
        · next bytes hfile =>
            split at h
            · next hext =>
                obtain rfl : names = [name] := by simpa using h
                exact ⟨by simp, ⟨bytes, hfile⟩, hext⟩
            · simp at h
        · next hinner =>
            obtain ⟨rest, hrest, rfl⟩ := List.mem_map.mp h
            obtain ⟨hlength, ⟨bytes, hfile⟩, hext⟩ := (ih hinner rest).mp hrest
            refine ⟨by simpa using hlength, ⟨bytes, by rwa [List.append_cons]⟩, ?_⟩
            rwa [← Path.below_child, hasExtension_below _ (Tree.ne_nil_of_file hinner hfile)]
        · simp at h
      · rintro ⟨hlength, ⟨bytes, hfile⟩, hext⟩
        -- the first name is that of the file, or of a folder on the way to it
        obtain ⟨name, rest, rfl⟩ := List.exists_cons_of_ne_nil (Tree.ne_nil_of_file hfolder hfile)
        rw [List.append_cons] at hfile
        by_cases hrest : rest = []
        · subst hrest
          rw [List.append_nil] at hfile
          refine ⟨name, Tree.mem_namesAt.mpr ⟨_, hfile⟩, ?_⟩
          have hext : hasExtension extensions (Path.here.child name) = true := hext
          rw [entryListing, hfile]
          dsimp only
          rw [if_pos hext]
          exact List.mem_singleton_self _
        · have hinner := ht.above hrest hfile
          refine ⟨name, Tree.mem_namesAt.mpr ⟨_, hinner⟩, ?_⟩
          rw [entryListing, hinner]
          refine List.mem_map.mpr ⟨rest, (ih hinner rest).mpr ⟨by simpa using hlength, ⟨bytes, hfile⟩, ?_⟩, rfl⟩
          rwa [← Path.below_child, hasExtension_below _ hrest] at hext

theorem head_entryListing {folder : Location} {name : Text} {inner : List (List Text)} {names : List Text}
    (h : names ∈ entryListing t extensions folder name inner) : ∃ rest, names = name :: rest := by
  unfold entryListing at h
  split at h
  · split at h
    · exact ⟨[], by simpa using h⟩
    · simp at h
  · obtain ⟨rest, -, rfl⟩ := List.mem_map.mp h
    exact ⟨rest, rfl⟩
  · simp at h

theorem pairwise_listing (ht : t.IsProper) (levels : Nat) (folder : Location) :
    (listing t extensions levels folder).Pairwise (List.Lex ComesBefore) := by
  induction levels generalizing folder with
  | zero => exact .nil
  | succ levels ih =>
      rw [listing, List.pairwise_flatMap]
      constructor
      · intro name _
        unfold entryListing
        split
        · split <;> simp
        · exact (ih _).map _ fun _ _ h => .cons h
        · exact .nil
      · -- what is listed for a name starts with it, so the order of the names decides
        refine (Tree.pairwise_namesAt ht.distinct folder).imp fun hbefore x hx y hy => ?_
        obtain ⟨rest, rfl⟩ := head_entryListing hx
        obtain ⟨rest', rfl⟩ := head_entryListing hy
        exact .rel hbefore

/-- **The listing is complete and in order.** -/
theorem isListing_listing (ht : t.IsProper) (levels : Nat) {folder : Location}
    (hfolder : t.at? folder = some .folder) :
    IsListing t extensions levels folder (listing t extensions levels folder) :=
  ⟨mem_listing ht hfolder, pairwise_listing ht levels folder⟩

/-- Only one list is. -/
theorem IsListing.unique {levels : Nat} {folder : Location} {files files' : List (List Text)}
    (h : IsListing t extensions levels folder files) (h' : IsListing t extensions levels folder files') :
    files = files' := by
  have := Std.Asymm.antisymm (List.Lex ComesBefore)
  exact h.ordered.eq_of_mem_iff h'.ordered fun names => (h.mem names).trans (h'.mem names).symm

/-! ## Searching -/

/-- The names that lead to an entry at most so many levels below a folder. -/
structure Tree.IsWithin (t : Tree) (levels : Nat) (folder : Location) (names : List Text) : Prop where
  ne_nil : names ≠ []
  length : names.length ≤ levels
  there : ∃ e, t.at? (folder ++ names) = some e

/-- What a search below a folder gives, among entries that it comes to. All of them have paths that are
    short enough, and it gives the files; or one of the paths is too long, and it is refused for that. -/
def Finds (folder : Path) (within : List Text → Prop) (files : List (List Text))
    (result : Except FileError (List Path)) : Prop :=
  (result = .ok (files.map folder.below) ∧ ∀ names, within names → Tree.isTooLong (folder.below names).text = false) ∨
    ∃ names, within names ∧ Tree.isTooLong (folder.below names).text = true ∧
      result = .error (.refused .nameTooLong (folder.below names))

/-- Entries that are searched one after the other. -/
theorem finds_mapM {folder : Path} {names : List Text} {within : Text → List Text → Prop}
    {files : Text → List (List Text)} {search : Text → Except FileError (List Path)}
    (h : ∀ name ∈ names, Finds folder (within name) (files name) (search name)) :
    Finds folder (fun below => ∃ name ∈ names, within name below) (names.flatMap files)
      ((names.mapM search).map List.flatten) := by
  induction names with
  | nil => exact .inl ⟨rfl, by simp⟩
  | cons name names ih =>
      have hrest := ih fun other hother => h other (by simp [hother])
      rw [List.mapM_cons]
      rcases h name (by simp) with ⟨hfirst, hshort⟩ | ⟨below, hwithin, hlong, hfirst⟩
      · rw [hfirst]
        rcases hrest with ⟨hrest, hshorts⟩ | ⟨below, ⟨other, hother, hwithin⟩, hlong, hrest⟩
        · refine .inl ⟨?_, ?_⟩
          · obtain ⟨found, hfound, hflat⟩ := map_eq_ok hrest
            rw [hfound]
            show Except.ok ((files name).map folder.below ++ found.flatten) = _
            rw [hflat, List.flatMap_cons, List.map_append]
          · rintro below ⟨other, hother, hwithin⟩
            rcases List.mem_cons.mp hother with rfl | hother
            · exact hshort below hwithin
            · exact hshorts below ⟨other, hother, hwithin⟩
        · refine .inr ⟨below, ⟨other, by simp [hother], hwithin⟩, hlong, ?_⟩
          -- a later name fails, and with it the whole search
          cases hmap : names.mapM search with
          | error e =>
              rw [hmap] at hrest
              exact hrest
          | ok found =>
              rw [hmap] at hrest
              simp [Except.map] at hrest
      · rw [hfirst]
        exact .inr ⟨below, ⟨name, by simp, hwithin⟩, hlong, rfl⟩

/-- What is found below an entry is found below its folder. -/
theorem Finds.child {folder : Path} {name : Text} {within : List Text → Prop} {files : List (List Text)}
    {result : Except FileError (List Path)} (h : Finds (folder.child name) within files result)
    (hshort : Tree.isTooLong (folder.child name).text = false) :
    Finds folder (fun names => ∃ rest, names = name :: rest ∧ (rest = [] ∨ within rest)) (files.map (name :: ·))
      result := by
  rcases h with ⟨hresult, hshorts⟩ | ⟨rest, hwithin, hlong, hresult⟩
  · refine .inl ⟨?_, ?_⟩
    · rw [hresult, List.map_map]
      congr 1
      exact List.map_congr_left fun rest _ => Path.below_child folder name rest
    · rintro _ ⟨rest, rfl, rfl | hwithin⟩
      · exact hshort
      · rw [← Path.below_child]
        exact hshorts rest hwithin
  · rw [Path.below_child] at hlong hresult
    exact .inr ⟨name :: rest, ⟨rest, rfl, .inr hwithin⟩, hlong, hresult⟩

theorem Finds.congr {folder : Path} {within within' : List Text → Prop} {files : List (List Text)}
    {result : Except FileError (List Path)} (h : Finds folder within files result)
    (hsame : ∀ names, within names ↔ within' names) : Finds folder within' files result := by
  obtain rfl : within = within' := funext fun names => propext (hsame names)
  exact h

/-- The names below a folder start with a name in it. -/
theorem isWithin_succ (ht : t.IsProper) {levels : Nat} {folder : Location} (names : List Text) :
    t.IsWithin (levels + 1) folder names ↔ ∃ name ∈ t.namesAt folder, ∃ rest, names = name :: rest ∧
      (rest = [] ∨ t.IsWithin levels (folder ++ [name]) rest) := by
  constructor
  · rintro ⟨hne, hlength, e, he⟩
    obtain ⟨name, rest, rfl⟩ := List.exists_cons_of_ne_nil hne
    rw [List.append_cons] at he
    by_cases hrest : rest = []
    · subst hrest
      exact ⟨name, Tree.mem_namesAt.mpr ⟨e, by simpa using he⟩, [], rfl, .inl rfl⟩
    · exact ⟨name, Tree.mem_namesAt.mpr ⟨_, ht.above hrest he⟩, rest, rfl, .inr ⟨hrest, by simpa using hlength, e, he⟩⟩
  · rintro ⟨name, hname, rest, rfl, rfl | ⟨-, hlength, e, he⟩⟩
    · exact ⟨by simp, by simp, Tree.mem_namesAt.mp hname⟩
    · exact ⟨by simp, by simpa using hlength, e, by rwa [List.append_cons]⟩

/-- Nothing is within what is no folder. -/
theorem not_isWithin (ht : t.IsProper) {levels : Nat} {place : Location} {e : Entry} (h : t.at? place = some e)
    (he : e ≠ .folder) (names : List Text) : ¬t.IsWithin levels place names := by
  rintro ⟨hne, -, _, hinner⟩
  rw [ht.above hne hinner] at h
  exact he (Option.some.inj h).symm

/-- One entry: a link, a file, or a folder that is searched. -/
theorem finds_entryWork (ht : t.IsProper) {levels : Nat} {p : Path} {folder : Location} {name : Text}
    (h : t.find p true = .entry folder .folder) (hname : name ∈ t.namesAt folder)
    (ih : ∀ {p folder}, t.find p true = .entry folder .folder →
      Finds p (t.IsWithin levels folder) (listing t extensions levels folder)
        (filesBelow t extensions levels p).outcome.1) :
    Finds p (fun names => ∃ rest, names = name :: rest ∧ (rest = [] ∨ t.IsWithin levels (folder ++ [name]) rest))
      (entryListing t extensions folder name (listing t extensions levels (folder ++ [name])))
      (entryWork t extensions levels (p.child name)).outcome.1 := by
  obtain ⟨e, he⟩ := Tree.mem_namesAt.mp hname
  have hnull : Tree.hasNull (p.child name) = false := by
    have hp := Tree.hasNull_of_find ht h
    have hname : IsEntryName name := ht.name he (by simp)
    unfold Tree.hasNull at hp ⊢
    rw [Path.child, List.any_append, hp]
    simp [hname.null]
  by_cases hlong : Tree.isTooLong (p.child name).text = true
  · -- asking what such a path leads to fails already
    refine .inr ⟨[name], ⟨[], rfl, .inl rfl⟩, hlong, ?_⟩
    unfold entryWork Tree.isLink
    rw [Tree.ask_of_isTooLong _ hnull hlong]
    rfl
  have hshort : Tree.isTooLong (p.child name).text = false := Bool.eq_false_iff.mpr hlong
  have hfind : t.find (p.child name) false = .entry (folder ++ [name]) e :=
    Tree.find_below ht h he (by simp) hshort (by simp)
  have hasked := Tree.ask_of_find hnull hfind
  rw [entryListing, he]
  cases e with
  | link target =>
      rw [result_entryWork_of_link (by rw [Tree.isLink, hasked]; rfl)]
      refine .inl ⟨rfl, ?_⟩
      rintro _ ⟨rest, rfl, rfl | hrest⟩
      · exact hshort
      · exact absurd hrest (not_isWithin ht he (by simp) rest)
  | file bytes =>
      have hthere : t.find (p.child name) true = .entry (folder ++ [name]) (.file bytes) :=
        Tree.find_below ht h he (by simp) hshort (by simp)
      rw [result_entryWork_of_not_link (by rw [Tree.isLink, hasked]; rfl),
        result_filesBelow_of_file (by rw [Tree.isFolder, Tree.ask_of_find hnull hthere]; rfl)]
      refine .inl ⟨?_, ?_⟩
      · have hext : hasExtension extensions (p.child name) = hasExtension extensions (Path.here.child name) :=
          hasExtension_below p (by simp)
        unfold itself
        rw [hext]
        dsimp only
        split <;> rfl
      · rintro _ ⟨rest, rfl, rfl | hrest⟩
        · exact hshort
        · exact absurd hrest (not_isWithin ht he (by simp) rest)
  | folder =>
      rw [result_entryWork_of_not_link (by rw [Tree.isLink, hasked]; rfl)]
      exact (ih (Tree.find_below ht h he (by simp) hshort (by simp))).child hshort

/-- **The search gives the listing, or a path is too long.** -/
theorem finds_filesBelow (ht : t.IsProper) {levels : Nat} {p : Path} {folder : Location}
    (h : t.find p true = .entry folder .folder) :
    Finds p (t.IsWithin levels folder) (listing t extensions levels folder)
      (filesBelow t extensions levels p).outcome.1 := by
  induction levels generalizing p folder with
  | zero =>
      rw [result_filesBelow_zero, Tree.isFolder_of_find ht h]
      exact .inl ⟨rfl, fun names hwithin =>
        absurd (List.length_eq_zero_iff.mp (Nat.le_zero.mp hwithin.length)) hwithin.ne_nil⟩
  | succ levels ih =>
      have hall := (finds_mapM fun name hname => finds_entryWork ht h hname ih).congr fun names =>
        (isWithin_succ ht names).symm
      rw [result_filesBelow_succ, Tree.isFolder_of_find ht h, listing]
      show Finds p _ _ (t.names p >>= _)
      rw [Tree.names_of_find h]
      exact hall

/-! ## Walking -/

/-- What is found by walking the paths on a stack, each with its depth. The first of them is taken off: if it is
    a link, it is left out unless it is where the walk started; if it is a folder, its entries are put in
    front of the others, one level deeper, unless it is too deep; and else it is found if its extension
    fits. -/
inductive Walks (t : Tree) (extensions : List Text) : List (Path × Nat) → List Path → Prop
  | done : Walks t extensions [] []
  | link {p : Path} {depth : Nat} {stack : List (Path × Nat)} {found : List Path} (hdepth : depth ≠ 0)
      (hlink : t.isLink p = .ok true) (more : Walks t extensions stack found) :
      Walks t extensions ((p, depth) :: stack) found
  | deep {p : Path} {depth : Nat} {stack : List (Path × Nat)} {found : List Path}
      (hlink : depth ≠ 0 → t.isLink p = .ok false) (hfolder : t.isFolder p = .ok true)
      (hdepth : maxDepth < depth) (more : Walks t extensions stack found) :
      Walks t extensions ((p, depth) :: stack) found
  | folder {p : Path} {depth : Nat} {stack : List (Path × Nat)} {names : List Text} {found : List Path}
      (hlink : depth ≠ 0 → t.isLink p = .ok false) (hfolder : t.isFolder p = .ok true)
      (hdepth : depth ≤ maxDepth) (hnames : t.names p = .ok names)
      (more : Walks t extensions (names.map (fun name => (p.child name, depth + 1)) ++ stack) found) :
      Walks t extensions ((p, depth) :: stack) found
  | file {p : Path} {depth : Nat} {stack : List (Path × Nat)} {found : List Path}
      (hlink : depth ≠ 0 → t.isLink p = .ok false) (hfolder : t.isFolder p = .ok false)
      (more : Walks t extensions stack found) :
      Walks t extensions ((p, depth) :: stack) (itself extensions p ++ found)

/-- A path on a stack is walked as it is searched, and then the rest is. -/
def WalksAs (t : Tree) (extensions : List Text) (x : Path × Nat) (result : Except FileError (List Path)) : Prop :=
  ∀ stack found, Walks t extensions (x :: stack) found ↔
    ∃ files, result = .ok files ∧ ∃ more, Walks t extensions stack more ∧ found = files ++ more

/-- Paths in front of a stack are walked one after the other. -/
theorem walks_append {α : Type} {xs : List α} {entry : α → Path × Nat}
    {search : α → Except FileError (List Path)} (h : ∀ x ∈ xs, WalksAs t extensions (entry x) (search x))
    (stack : List (Path × Nat)) (found : List Path) :
    Walks t extensions (xs.map entry ++ stack) found ↔
      ∃ files, (xs.mapM search).map List.flatten = .ok files ∧
        ∃ more, Walks t extensions stack more ∧ found = files ++ more := by
  induction xs generalizing found with
  | nil => simp [Except.map, pure, Except.pure]
  | cons x xs ih =>
      have ih := ih fun y hy => h y (by simp [hy])
      rw [List.map_cons, List.cons_append, h x (by simp), List.mapM_cons]
      constructor
      · rintro ⟨files, hfiles, rest, hrest, rfl⟩
        obtain ⟨inner, hinner, more, hmore, rfl⟩ := (ih rest).mp hrest
        obtain ⟨lists, hlists, rfl⟩ := map_eq_ok hinner
        rw [hfiles, hlists]
        exact ⟨files ++ lists.flatten, rfl, more, hmore, by rw [List.append_assoc]⟩
      · rintro ⟨files, hfiles, more, hmore, rfl⟩
        obtain ⟨lists, hlists, rfl⟩ := map_eq_ok hfiles
        obtain ⟨first, hfirst, hlists⟩ := ok_of_bind hlists
        obtain ⟨others, hothers, hlists⟩ := ok_of_bind hlists
        obtain rfl : first :: others = lists := Except.ok.inj hlists
        refine ⟨first, hfirst, others.flatten ++ more, (ih _).mpr ⟨others.flatten, ?_, more, hmore, rfl⟩, ?_⟩
        · rw [hothers]
          rfl
        · rw [List.flatten_cons, List.append_assoc]

/-- An entry of a folder is walked as it is searched. -/
theorem walksAs_entryWork {depth levels : Nat} (hdepth : depth ≠ 0) {p : Path}
    (h : t.isLink p = .ok false → WalksAs t extensions (p, depth) (filesBelow t extensions levels p).outcome.1) :
    WalksAs t extensions (p, depth) (entryWork t extensions levels p).outcome.1 := by
  cases hlink : t.isLink p with
  | error e =>
      have hresult : (entryWork t extensions levels p).outcome.1 = .error e := by
        unfold entryWork
        rw [hlink]
        rfl
      intro stack found
      rw [hresult]
      refine ⟨fun hwalks => ?_, by simp⟩
      -- whatever is done with the path, it is no link or it is one
      cases hwalks with
      | link _ hyes => simp [hlink] at hyes
      | deep hno | folder hno | file hno => exact absurd (hlink.symm.trans (hno hdepth)) (by simp)
  | ok isLink =>
      cases isLink with
      | false =>
          rw [result_entryWork_of_not_link hlink]
          exact h hlink
      | true =>
          intro stack found
          rw [result_entryWork_of_link hlink]
          constructor
          · intro hwalks
            cases hwalks with
            | link _ _ more => exact ⟨[], rfl, found, more, rfl⟩
            | deep hno | folder hno | file hno => exact absurd (hlink.symm.trans (hno hdepth)) (by simp)
          · rintro ⟨files, hfiles, more, hmore, rfl⟩
            obtain rfl : [] = files := Except.ok.inj hfiles
            exact .link hdepth hlink hmore

/-- What is done with the first path of a stack if it is no link. -/
theorem walks_cons_iff {p : Path} {depth : Nat} (hlink : depth ≠ 0 → t.isLink p = .ok false)
    (stack : List (Path × Nat)) (found : List Path) :
    Walks t extensions ((p, depth) :: stack) found ↔
      (t.isFolder p = .ok false ∧ ∃ more, Walks t extensions stack more ∧ found = itself extensions p ++ more) ∨
        t.isFolder p = .ok true ∧ (maxDepth < depth ∧ Walks t extensions stack found ∨
          depth ≤ maxDepth ∧ ∃ names, t.names p = .ok names ∧
            Walks t extensions (names.map (fun name => (p.child name, depth + 1)) ++ stack) found) := by
  constructor
  · intro hwalks
    cases hwalks with
    | link hdepth hyes => simp [hlink hdepth] at hyes
    | deep _ hfolder hdepth more => exact .inr ⟨hfolder, .inl ⟨hdepth, more⟩⟩
    | folder _ hfolder hdepth hnames more => exact .inr ⟨hfolder, .inr ⟨hdepth, _, hnames, more⟩⟩
    | file _ hfolder more => exact .inl ⟨hfolder, _, more, rfl⟩
  · rintro (⟨hfolder, more, hmore, rfl⟩ | ⟨hfolder, ⟨hdepth, hmore⟩ | ⟨hdepth, names, hnames, hmore⟩⟩)
    · exact .file hlink hfolder hmore
    · exact .deep hlink hfolder hdepth hmore
    · exact .folder hlink hfolder hdepth hnames hmore

/-- **A path is walked as it is searched**: through the levels that are left at its depth, unless it is a
    link. -/
theorem walksAs_filesBelow {depth levels : Nat} (hlevels : depth + levels = maxDepth + 1) {p : Path}
    (hlink : depth ≠ 0 → t.isLink p = .ok false) :
    WalksAs t extensions (p, depth) (filesBelow t extensions levels p).outcome.1 := by
  induction levels generalizing depth p with
  | zero =>
      intro stack found
      rw [walks_cons_iff hlink, result_filesBelow_zero]
      -- no level is left, so the path is deeper than folders are searched
      have hdeep : maxDepth < depth := by omega
      rcases t.isFolder p with e | (_ | _)
      · simp [bind, Except.bind]
      · simp [bind, Except.bind]
      · simp [bind, Except.bind, hdeep]
  | succ levels ih =>
      intro stack found
      rw [walks_cons_iff hlink, result_filesBelow_succ]
      have hdepth : depth ≤ maxDepth := by omega
      rcases t.isFolder p with e | (_ | _)
      · simp [bind, Except.bind]
      · simp [bind, Except.bind]
      · cases hnames : t.names p with
        | error e => simp [bind, Except.bind, Nat.not_lt.mpr hdepth]
        | ok names =>
            have hentries : ∀ name ∈ names, WalksAs t extensions (p.child name, depth + 1)
                (entryWork t extensions levels (p.child name)).outcome.1 := fun name _ =>
              walksAs_entryWork (by simp) fun hno => ih (by omega) fun _ => hno
            simp [bind, Except.bind, hdepth, Nat.not_lt.mpr hdepth, walks_append hentries]

/-- The loop finds what the search finds, and stops where it is refused. -/
theorem walks_iff (root : Path) (found : List Path) : Walks t extensions [(root, 0)] found ↔
    (filesBelow t extensions (maxDepth + 1) root).outcome.1 = .ok found := by
  rw [walksAs_filesBelow (Nat.zero_add _) (fun h => absurd rfl h)]
  constructor
  · rintro ⟨files, hfiles, _, ⟨⟩, rfl⟩
    rwa [List.append_nil]
  · intro h
    exact ⟨found, h, [], .done, (List.append_nil found).symm⟩

end HttpFile.Files
