import HttpFile.Proofs.Files.Names
import HttpFile.Proofs.Source.Place
import HttpFile.Proofs.Source.Work
import HttpFile.Proofs.Text.Newlines
import HttpFile.Proofs.Text.Utf8
import HttpFile.Source.Bruno.Convert

/-!
# `HttpFile.Proofs.Source.Folders` — the requests of nested folders, complete and in order

A collection is a folder of request files, and of folders of such. What is collected is described without
the walk: the files of a folder that hold a request, sorted by their place and then by their name, and
behind them what is listed for each of its subfolders, in the order of their names. Sorting leaves no
choice where all names differ, so the description fits one list of blocks only. It is the list that comes
from keeping the folders to come on a stack, too.

## Contents
- **Entries.** `IsEntry`, `IsSubfolder`, `IsRequest`; `Adds`: what an entry adds.
- **Order.** `OrderedBlock.Before`; `pairwise_before`.
- **One folder.** `Holding`: its requests and its subfolders, in order; `Holding.unique`.
- **All folders.** `folder_induction`; `Listing`, `Walks`; `listing_iff`, `listsFirst_of_yields`.
- **Files.** `Holds`, `Covers`: each file with a request, once; `covers_of_yields`.
- **Main result.** `listing_collectBlocks`, with an example, and a place with too many digits.
-/

namespace HttpFile.Source.Bruno

open Text Files

variable {tree : Tree} {root : Path} {ignored : List Text}

/-! ## Entries -/

/-- A name that a folder holds, of no link and not ignored. -/
structure IsEntry (tree : Tree) (ignored : List Text) (folder : Path) (name : Text) : Prop where
  listed : ∃ names, tree.names folder = .ok names ∧ name ∈ names
  link : tree.isLink (folder.child name) = .ok false
  kept : name ∉ ignored

/-- The name of a folder inside of a folder. -/
structure IsSubfolder (tree : Tree) (ignored : List Text) (folder : Path) (name : Text) : Prop
    extends IsEntry tree ignored folder name where
  folder : tree.isFolder (folder.child name) = .ok true

/-- The place that the sections of a file name: the integer of the description, or a last one if there is none or if it
    has more digits than are converted. -/
def placeOf (sections : List Section) : Int :=
  let named := (named? sections "meta").bind fun s => s.pairs.reverse.lookup "seq".toList
  (named.bind integer?).getD lastPlace

/-- The request of a file in a folder, with the place that the file names and the name of the file. -/
structure IsRequest (tree : Tree) (root : Path) (ignored : List Text) (folder : Path) (x : OrderedBlock) : Prop
    extends IsEntry tree ignored folder x.file where
  file : tree.isFolder (folder.child x.file) = .ok false
  extension : (folder.child x.file).extension = ".bru"
  read : ∃ text sections method, tree.readText (folder.child x.file) = .ok text ∧
    readSections text = .ok sections ∧
    sections.find? (fun s => methods.contains s.name) = some method ∧
    x.place = placeOf sections ∧
    x.block = (requestBlock sections method ((folder.child x.file).relativeTo root)
      (valueOf method.pairs "url")).block

/-- A file holds one request. -/
theorem IsRequest.unique {folder : Path} {x y : OrderedBlock} (hx : IsRequest tree root ignored folder x)
    (hy : IsRequest tree root ignored folder y) (h : x.file = y.file) : x = y := by
  obtain ⟨-, -, -, text, sections, method, htext, hsections, hmethod, hplace, hblock⟩ := hx
  obtain ⟨-, -, -, text', sections', method', htext', hsections', hmethod', hplace', hblock'⟩ := hy
  obtain ⟨place, file, block⟩ := x
  obtain ⟨place', file', block'⟩ := y
  obtain rfl : file = file' := h
  obtain rfl : text = text' := Except.ok.inj (htext.symm.trans htext')
  obtain rfl : sections = sections' := Except.ok.inj (hsections.symm.trans hsections')
  obtain rfl : method = method' := Option.some.inj (hmethod.symm.trans hmethod')
  rw [OrderedBlock.mk.injEq]
  exact ⟨hplace.trans hplace'.symm, rfl, hblock.trans hblock'.symm⟩

/-- What a name in a folder adds: nothing, the request of a file, or a subfolder. -/
inductive Adds (tree : Tree) (root : Path) (ignored : List Text) (folder : Path) (name : Text) : Contents → Prop
  | nothing (hrequest : ∀ x, x.file = name → ¬IsRequest tree root ignored folder x)
      (hfolder : ¬IsSubfolder tree ignored folder name) : Adds tree root ignored folder name {}
  | request {x : OrderedBlock} (hfile : x.file = name) (hrequest : IsRequest tree root ignored folder x)
      (hfolder : ¬IsSubfolder tree ignored folder name) :
      Adds tree root ignored folder name { requests := [x] }
  | subfolder (hrequest : ∀ x, x.file = name → ¬IsRequest tree root ignored folder x)
      (hfolder : IsSubfolder tree ignored folder name) :
      Adds tree root ignored folder name { subfolders := [folder.child name] }

theorem adds_nothing {folder : Path} {name : Text} (h : ¬IsEntry tree ignored folder name) :
    Adds tree root ignored folder name {} :=
  .nothing (fun _ hx hrequest => h (hx ▸ hrequest.toIsEntry)) fun hfolder => h hfolder.toIsEntry

/-- A folder is no request, and what is no folder is no subfolder. -/
theorem not_isRequest_of_isFolder {folder : Path} {name : Text}
    (h : tree.isFolder (folder.child name) = .ok true) {x : OrderedBlock} (hx : x.file = name) :
    ¬IsRequest tree root ignored folder x := by
  intro hrequest
  subst hx
  rw [hrequest.file] at h
  cases h

theorem not_isSubfolder_of_isFolder {folder : Path} {name : Text}
    (h : tree.isFolder (folder.child name) = .ok false) : ¬IsSubfolder tree ignored folder name := by
  intro hfolder
  rw [hfolder.folder] at h
  cases h

/-- A file without a section that names a method holds no request. -/
theorem not_isRequest_of_read {folder : Path} {name text : Text} {sections : List Section}
    (htext : tree.readText (folder.child name) = .ok text) (hsections : readSections text = .ok sections)
    (hnone : sections.find? (fun s => methods.contains s.name) = none) {x : OrderedBlock}
    (hx : x.file = name) : ¬IsRequest tree root ignored folder x := by
  intro hrequest
  subst hx
  obtain ⟨text', sections', method, htext', hsections', hmethod, -⟩ := hrequest.read
  obtain rfl : text = text' := Except.ok.inj (htext.symm.trans htext')
  obtain rfl : sections = sections' := Except.ok.inj (hsections.symm.trans hsections')
  rw [hmethod] at hnone
  cases hnone

/-- The block of a file whose sections name a method, with what orders it. -/
theorem requestBlock?_eq {path : Path} {sections : List Section} {found : Option OrderedBlock}
    (h : requestBlock? path sections = .ok found) :
    (found = none ∧ sections.find? (fun s => methods.contains s.name) = none) ∨
      ∃ method, sections.find? (fun s => methods.contains s.name) = some method ∧
        found = some ⟨placeOf sections, path.name,
          (requestBlock sections method path (valueOf method.pairs "url")).block⟩ := by
  unfold requestBlock? at h
  cases hmethod : sections.find? fun s => methods.contains s.name with
  | none =>
      rw [hmethod] at h
      exact .inl ⟨(Except.ok.inj h).symm, rfl⟩
  | some method =>
      rw [hmethod] at h
      dsimp only at h
      split at h
      · simp at h
      · have hplace : placeOf sections = sequence (((named? sections "meta").map Section.pairs).getD []) := by
          unfold placeOf sequence
          cases named? sections "meta" <;> rfl
        rw [hplace]
        exact .inr ⟨method, rfl, (Except.ok.inj h).symm⟩

/-- A name in a folder below the root, seen from the root, is still the name. -/
theorem name_relativeTo {folder : Path} (h : root.parts.length ≤ folder.parts.length) (name : Text) :
    ((folder.child name).relativeTo root).name = name := by
  show (((folder.parts ++ [name]).drop root.parts.length).getLast?).getD [] = name
  rw [List.drop_append_of_le_length h, List.getLast?_concat]
  rfl

/-- **An entry adds what it stands for.** -/
theorem adds_of_yields {folder : Path} (hroot : root.parts.length ≤ folder.parts.length) {names : List Text}
    (hnames : tree.names folder = .ok names) {name : Text} (hname : name ∈ names) {contents : Contents}
    (h : (entryContents tree root ignored folder name).Yields contents) :
    Adds tree root ignored folder name contents := by
  unfold entryContents at h
  obtain ⟨isLink, hlink, h⟩ := yields_bind h
  have hlink : tree.isLink (folder.child name) = .ok isLink := yields_mapError hlink
  -- links and ignored names are no entries
  split at h
  · next htrue =>
      obtain rfl := yields_pure h
      refine adds_nothing fun hentry => ?_
      rw [hentry.link] at hlink
      rw [← Except.ok.inj hlink] at htrue
      cases htrue
  rename_i hnotLink
  split at h
  · next hignored =>
      obtain rfl := yields_pure h
      exact adds_nothing fun hentry => hentry.kept (by simpa using hignored)
  rename_i hkept
  have hentry : IsEntry tree ignored folder name := by
    refine ⟨⟨names, hnames, hname⟩, ?_, by simpa using hkept⟩
    rw [hlink, Bool.eq_false_iff.mpr hnotLink]
  obtain ⟨isFolder, hisFolder, h⟩ := yields_bind h
  have hisFolder : tree.isFolder (folder.child name) = .ok isFolder := yields_mapError hisFolder
  cases isFolder with
  | true =>
      obtain rfl := yields_pure h
      exact .subfolder (fun x hx => not_isRequest_of_isFolder hisFolder hx) ⟨hentry, hisFolder⟩
  | false =>
      have hfolder : ¬IsSubfolder tree ignored folder name := not_isSubfolder_of_isFolder hisFolder
      simp only [Bool.false_eq_true, if_false] at h
      split at h
      · next hextension =>
          obtain ⟨text, htext, h⟩ := yields_bind h
          have htext : tree.readText (folder.child name) = .ok text := yields_mapError htext
          obtain ⟨sections, hsections, h⟩ := yields_bind h
          have hsections : readSections text = .ok sections := yields_mapError hsections
          obtain ⟨found, hfound, h⟩ := yields_bind h
          -- what was read is all that a request of the file could come from
          rcases requestBlock?_eq (yields_mapError hfound) with ⟨rfl, hnone⟩ | ⟨method, hmethod, rfl⟩
          · obtain ⟨-, -, h⟩ := yields_bind h
            obtain rfl := yields_pure h
            exact .nothing (fun x hx => not_isRequest_of_read htext hsections hnone hx) hfolder
          · obtain rfl := yields_pure h
            rw [name_relativeTo hroot]
            exact .request rfl ⟨hentry, hisFolder, hextension,
              text, sections, method, htext, hsections, hmethod, rfl, rfl⟩ hfolder
      · next hextension =>
          obtain rfl := yields_pure h
          refine .nothing (fun x hx hrequest => ?_) hfolder
          subst hx
          exact hextension hrequest.extension

/-! ## Order -/

/-- A request comes before one at a greater place, and at the same place before one in a file with a name
    that comes later. -/
def OrderedBlock.Before (x y : OrderedBlock) : Prop :=
  x.place < y.place ∨ (x.place = y.place ∧ ComesBefore x.file y.file)

theorem OrderedBlock.Before.asymm {x y : OrderedBlock} (h : x.Before y) : ¬y.Before x := by
  rintro (hlt | ⟨heq, hfile⟩)
  · rcases h with hlt' | ⟨heq', -⟩ <;> omega
  · rcases h with hlt' | ⟨-, hfile'⟩
    · omega
    · exact hfile.asymm hfile'

instance : Std.Irrefl OrderedBlock.Before := ⟨fun _ h => h.asymm h⟩

instance : Std.Antisymm OrderedBlock.Before := ⟨fun _ _ h h' => absurd h' h.asymm⟩

theorem OrderedBlock.le_iff {x y : OrderedBlock} :
    x.le y = true ↔ x.place < y.place ∨ (x.place = y.place ∧ precedes x.file y.file = true) := by
  simp [OrderedBlock.le]

theorem OrderedBlock.le_total (x y : OrderedBlock) : (x.le y || y.le x) = true := by
  rw [Bool.or_eq_true, le_iff, le_iff]
  rcases Int.lt_trichotomy x.place y.place with h | h | h
  · exact .inl (.inl h)
  · exact (precedes_total x.file y.file).imp (fun hp => .inr ⟨h, hp⟩) fun hp => .inr ⟨h.symm, hp⟩
  · exact .inr (.inl h)

theorem OrderedBlock.le_trans (x y z : OrderedBlock) (hxy : x.le y = true) (hyz : y.le z = true) :
    x.le z = true := by
  rw [le_iff] at hxy hyz ⊢
  rcases hxy with hxy | ⟨hxy, hp⟩
  · rcases hyz with hyz | ⟨hyz, -⟩
    · exact .inl (hxy.trans hyz)
    · exact .inl (hyz ▸ hxy)
  · rcases hyz with hyz | ⟨hyz, hq⟩
    · exact .inl (hxy ▸ hyz)
    · exact .inr ⟨hxy.trans hyz, precedes_trans hp hq⟩

/-- Requests of different files that were sorted each come before those behind them. -/
theorem pairwise_before {xs : List OrderedBlock} (h : (xs.map (·.file)).Nodup) :
    (xs.mergeSort OrderedBlock.le).Pairwise OrderedBlock.Before := by
  have hsorted := List.pairwise_mergeSort OrderedBlock.le_trans OrderedBlock.le_total xs
  have hfiles : (xs.mergeSort OrderedBlock.le).Pairwise fun x y => x.file ≠ y.file :=
    List.pairwise_map.mp (((List.mergeSort_perm xs OrderedBlock.le).map OrderedBlock.file).nodup_iff.mpr h)
  refine (hsorted.and hfiles).imp fun {x y} hxy => ?_
  obtain ⟨hle, hne⟩ := hxy
  exact (OrderedBlock.le_iff.mp hle).imp id fun hsame => ⟨hsame.1, hsame.2, hne⟩

/-! ## One folder -/

/-- The requests of a folder's own files and the names of its subfolders, all of them and in order. -/
structure Holding (tree : Tree) (root : Path) (ignored : List Text) (folder : Path)
    (requests : List OrderedBlock) (subfolders : List Text) : Prop where
  ordered : requests.Pairwise OrderedBlock.Before
  request : ∀ x, x ∈ requests ↔ IsRequest tree root ignored folder x
  named : subfolders.Pairwise ComesBefore
  subfolder : ∀ name, name ∈ subfolders ↔ IsSubfolder tree ignored folder name

/-- A folder holds what it holds. -/
theorem Holding.unique {folder : Path} {requests requests' : List OrderedBlock} {subfolders subfolders' : List Text}
    (h : Holding tree root ignored folder requests subfolders)
    (h' : Holding tree root ignored folder requests' subfolders') :
    requests = requests' ∧ subfolders = subfolders' :=
  ⟨h.ordered.eq_of_mem_iff h'.ordered fun x => (h.request x).trans (h'.request x).symm,
    h.named.eq_of_mem_iff h'.named fun name => (h.subfolder name).trans (h'.subfolder name).symm⟩

/-- The files of a folder hold different requests, so they have different names. -/
theorem Holding.nodup_files {folder : Path} {requests : List OrderedBlock} {subfolders : List Text}
    (h : Holding tree root ignored folder requests subfolders) : (requests.map (·.file)).Nodup := by
  refine List.pairwise_map.mpr (h.ordered.imp_of_mem fun {x y} hx hy hbefore heq => ?_)
  obtain rfl : x = y := ((h.request x).mp hx).unique ((h.request y).mp hy) heq
  exact hbefore.asymm hbefore

/-- The requests that the entries of a folder add. -/
theorem requests_of_adds {folder : Path} {names : List Text} {contents : List Contents}
    (h : List.Forall₂ (Adds tree root ignored folder) names contents) :
    ((contents.flatMap (·.requests)).map (·.file)).Sublist names ∧
      ∀ x, x ∈ contents.flatMap (·.requests) ↔ x.file ∈ names ∧ IsRequest tree root ignored folder x := by
  induction h with
  | nil => simp
  | @cons name _ names _ hadds _ ih =>
      obtain ⟨hsub, hmem⟩ := ih
      -- a file adds nothing to those behind it unless it holds a request
      have hnone : (∀ x, x.file = name → ¬IsRequest tree root ignored folder x) → ∀ x,
          (x.file ∈ names ∧ IsRequest tree root ignored folder x) ↔
            x.file ∈ name :: names ∧ IsRequest tree root ignored folder x := by
        intro hno x
        refine and_congr_left fun hx => ?_
        rw [List.mem_cons]
        exact ⟨.inr, fun hfile => hfile.resolve_left fun he => hno x he hx⟩
      cases hadds with
      | nothing hno _ => exact ⟨hsub.cons name, fun x => (hmem x).trans (hnone hno x)⟩
      | subfolder hno _ => exact ⟨hsub.cons name, fun x => (hmem x).trans (hnone hno x)⟩
      | @request y hfile hy _ =>
          subst hfile
          refine ⟨hsub.cons_cons y.file, fun x => ?_⟩
          rw [List.flatMap_cons, List.singleton_append, List.mem_cons, List.mem_cons, hmem]
          constructor
          · rintro (rfl | ⟨hx, hrequest⟩)
            · exact ⟨.inl rfl, hy⟩
            · exact ⟨.inr hx, hrequest⟩
          · rintro ⟨hx | hx, hrequest⟩
            · exact .inl (hrequest.unique hy hx)
            · exact .inr ⟨hx, hrequest⟩

/-- The subfolders that the entries of a folder add. -/
theorem subfolders_of_adds {folder : Path} {names : List Text} {contents : List Contents}
    (h : List.Forall₂ (Adds tree root ignored folder) names contents) :
    ∃ subfolders : List Text, contents.flatMap (·.subfolders) = subfolders.map folder.child ∧
      subfolders.Sublist names ∧
      ∀ name, name ∈ subfolders ↔ name ∈ names ∧ IsSubfolder tree ignored folder name := by
  induction h with
  | nil => exact ⟨[], rfl, .slnil, by simp⟩
  | @cons name _ names _ hadds _ ih =>
      obtain ⟨subfolders, hchildren, hsub, hmem⟩ := ih
      -- an entry that is no subfolder leaves them as they are
      have hnone : ¬IsSubfolder tree ignored folder name → ∀ other,
          (other ∈ subfolders ↔ other ∈ name :: names ∧ IsSubfolder tree ignored folder other) := by
        intro hno other
        rw [hmem, List.mem_cons]
        refine and_congr_left fun hother => ⟨.inr, fun hname => hname.resolve_left ?_⟩
        rintro rfl
        exact hno hother
      cases hadds with
      | nothing _ hno => exact ⟨subfolders, hchildren, hsub.cons name, hnone hno⟩
      | request _ _ hno => exact ⟨subfolders, hchildren, hsub.cons name, hnone hno⟩
      | subfolder _ hfolder =>
          refine ⟨name :: subfolders, ?_, hsub.cons_cons name, fun other => ?_⟩
          · rw [List.flatMap_cons, hchildren]
            rfl
          · rw [List.mem_cons, List.mem_cons, hmem]
            constructor
            · rintro (rfl | ⟨hother, hnested⟩)
              · exact ⟨.inl rfl, hfolder⟩
              · exact ⟨.inr hother, hnested⟩
            · rintro ⟨rfl | hother, hnested⟩
              · exact .inl rfl
              · exact .inr ⟨hother, hnested⟩

/-- **What a folder gives**: its requests, and what its subfolders give. -/
theorem holding_of_yields (ht : tree.IsDistinct) {levels : Nat} {folder : Path}
    (hroot : root.parts.length ≤ folder.parts.length) {bs : List Block}
    (h : (folderBlocks tree root ignored levels folder).Yields bs) :
    ∃ requests subfolders inner, Holding tree root ignored folder requests subfolders ∧
      bs = requests.map (·.block) ++ inner.flatten ∧
      List.Forall₂ (fun folder bs => ∃ fewer, levels = fewer + 1 ∧
        (folderBlocks tree root ignored fewer folder).Yields bs) (subfolders.map folder.child) inner := by
  unfold folderBlocks at h
  obtain ⟨names, hnames, h⟩ := yields_bind h
  have hnames : tree.names folder = .ok names := yields_mapError hnames
  obtain ⟨contents, hcontents, h⟩ := yields_bind h
  have hordered := Tree.pairwise_names ht hnames
  have hnodup : names.Nodup := hordered.imp fun hname => hname.2
  have hlisted : ∀ {name}, IsEntry tree ignored folder name → name ∈ names := by
    intro name hentry
    obtain ⟨names', hnames', hname⟩ := hentry.listed
    rwa [Except.ok.inj (hnames.symm.trans hnames')]
  have hadds : List.Forall₂ (Adds tree root ignored folder) names contents := by
    have hboth := (List.forall₂_and_left names contents).mpr
      ⟨fun _ hname => hname, forall₂_of_yields hcontents⟩
    exact hboth.imp fun _ _ hentry => adds_of_yields hroot hnames hentry.1 hentry.2
  obtain ⟨hfiles, hrequests⟩ := requests_of_adds hadds
  obtain ⟨subfolders, hchildren, hsub, hsubfolders⟩ := subfolders_of_adds hadds
  have hholding : Holding tree root ignored folder
      ((contents.flatMap (·.requests)).mergeSort OrderedBlock.le) subfolders := by
    refine ⟨pairwise_before (hnodup.sublist hfiles), fun x => ?_, hordered.sublist hsub, fun name => ?_⟩
    · rw [List.mem_mergeSort, hrequests]
      exact ⟨fun hx => hx.2, fun hx => ⟨hlisted hx.toIsEntry, hx⟩⟩
    · rw [hsubfolders]
      exact ⟨fun hx => hx.2, fun hx => ⟨hlisted hx.toIsEntry, hx⟩⟩
  dsimp only at h
  rw [hchildren] at h
  refine ⟨(contents.flatMap (·.requests)).mergeSort OrderedBlock.le, subfolders, ?_⟩
  cases levels with
  | zero =>
      dsimp only at h
      split at h
      · next hempty =>
          -- at the last level there are no subfolders, or the conversion fails
          obtain rfl : subfolders = [] := by simpa using hempty
          exact ⟨[], hholding, (yields_pure h).symm, .nil⟩
      · obtain ⟨inner, hinner, -⟩ := yields_bind h
        exact (yields_throw hinner).elim
  | succ levels =>
      obtain ⟨inner, hinner, h⟩ := yields_bind h
      refine ⟨inner, hholding, (yields_pure h).symm, ?_⟩
      exact (forall₂_of_yields hinner).imp fun _ _ hyields => ⟨levels, rfl, hyields⟩

/-! ## All folders -/

/-- What holds of a folder if it holds of its subfolders holds of every folder that is collected. -/
theorem folder_induction {motive : Path → List Block → Prop} (ht : tree.IsDistinct)
    (step : ∀ folder requests subfolders inner, Holding tree root ignored folder requests subfolders →
      List.Forall₂ motive (subfolders.map folder.child) inner →
      motive folder (requests.map (·.block) ++ inner.flatten))
    {levels : Nat} {folder : Path} (hroot : root.parts.length ≤ folder.parts.length) {bs : List Block}
    (h : (folderBlocks tree root ignored levels folder).Yields bs) : motive folder bs := by
  induction levels generalizing folder bs with
  | zero =>
      obtain ⟨requests, subfolders, inner, hholding, rfl, hinner⟩ := holding_of_yields ht hroot h
      refine step folder requests subfolders inner hholding (hinner.imp ?_)
      -- at the last level there is nothing below
      rintro below bs ⟨fewer, hfewer, -⟩
      simp at hfewer
  | succ levels ih =>
      obtain ⟨requests, subfolders, inner, hholding, rfl, hinner⟩ := holding_of_yields ht hroot h
      refine step folder requests subfolders inner hholding ?_
      rw [List.forall₂_map_left_iff] at hinner ⊢
      refine hinner.imp ?_
      rintro name bs ⟨fewer, hfewer, hyields⟩
      obtain rfl : levels = fewer := Nat.succ.inj hfewer
      refine ih ?_ hyields
      show root.parts.length ≤ (folder.parts ++ [name]).length
      rw [List.length_append]
      omega

/-- What is listed for a folder: its requests in order, then what is listed for its subfolders in order. -/
inductive Listing (tree : Tree) (root : Path) (ignored : List Text) : Path → List Block → Prop
  | holding {folder : Path} {requests : List OrderedBlock} {subfolders : List Text} {inner : List (List Block)}
      (h : Holding tree root ignored folder requests subfolders)
      (below : List.Forall₂ (Listing tree root ignored) (subfolders.map folder.child) inner) :
      Listing tree root ignored folder (requests.map (·.block) ++ inner.flatten)

/-- What is listed for the folders on a stack: the first of them is taken off, its requests are listed, and
    its subfolders are put in front of the others. -/
inductive Walks (tree : Tree) (root : Path) (ignored : List Text) : List Path → List Block → Prop
  | done : Walks tree root ignored [] []
  | visit {folder : Path} {stack : List Path} {requests : List OrderedBlock} {subfolders : List Text}
      {bs : List Block} (holding : Holding tree root ignored folder requests subfolders)
      (more : Walks tree root ignored (subfolders.map folder.child ++ stack) bs) :
      Walks tree root ignored (folder :: stack) (requests.map (·.block) ++ bs)

/-- Things that stand for one thing each do so together. -/
theorem forall₂_iff_eq {α β : Type} {R : α → β → Prop} {xs : List α} {ys : List β}
    (h : List.Forall₂ (fun x y => ∀ y', R x y' ↔ y' = y) xs ys) (ys' : List β) :
    List.Forall₂ R xs ys' ↔ ys' = ys := by
  induction h generalizing ys' with
  | nil => exact List.forall₂_nil_left_iff
  | cons hxy _ ih =>
      rw [List.forall₂_cons_left_iff]
      constructor
      · rintro ⟨y', more, hy, hmore, rfl⟩
        rw [(hxy y').mp hy, (ih more).mp hmore]
      · rintro rfl
        exact ⟨_, _, (hxy _).mpr rfl, (ih _).mpr rfl, rfl⟩

/-- **What is listed for a folder is what is collected.** -/
theorem listing_iff (ht : tree.IsDistinct) {levels : Nat} {folder : Path}
    (hroot : root.parts.length ≤ folder.parts.length) {bs : List Block}
    (h : (folderBlocks tree root ignored levels folder).Yields bs) (bs' : List Block) :
    Listing tree root ignored folder bs' ↔ bs' = bs := by
  revert bs'
  refine folder_induction (motive := fun folder bs => ∀ bs', Listing tree root ignored folder bs' ↔ bs' = bs)
    ht ?_ hroot h
  intro folder requests subfolders inner hholding hinner bs'
  constructor
  · intro hlisting
    cases hlisting with
    | holding hholding' hbelow =>
        obtain ⟨rfl, rfl⟩ := hholding'.unique hholding
        rw [(forall₂_iff_eq hinner _).mp hbelow]
  · rintro rfl
    exact .holding hholding ((forall₂_iff_eq hinner inner).mpr rfl)

/-- What walking the first folder of a stack lists in front of the rest. -/
def ListsFirst (tree : Tree) (root : Path) (ignored : List Text) (folder : Path) (bs : List Block) : Prop :=
  ∀ stack bs', Walks tree root ignored (folder :: stack) bs' ↔
    ∃ more, Walks tree root ignored stack more ∧ bs' = bs ++ more

/-- Folders in front of a stack are walked one after the other. -/
theorem walks_append {folders : List Path} {inner : List (List Block)}
    (h : List.Forall₂ (ListsFirst tree root ignored) folders inner) (stack : List Path) (bs : List Block) :
    Walks tree root ignored (folders ++ stack) bs ↔
      ∃ more, Walks tree root ignored stack more ∧ bs = inner.flatten ++ more := by
  induction h generalizing bs with
  | nil => simp
  | @cons _ _ _ inner hfirst _ ih =>
      rw [List.cons_append, hfirst]
      constructor
      · rintro ⟨rest, hrest, rfl⟩
        obtain ⟨more, hmore, rfl⟩ := (ih rest).mp hrest
        exact ⟨more, hmore, by simp⟩
      · rintro ⟨more, hmore, rfl⟩
        exact ⟨inner.flatten ++ more, (ih _).mpr ⟨more, hmore, rfl⟩, by simp⟩

/-- **Walking a folder from a stack lists what is collected for it**, and then the rest. -/
theorem listsFirst_of_yields (ht : tree.IsDistinct) {levels : Nat} {folder : Path}
    (hroot : root.parts.length ≤ folder.parts.length) {bs : List Block}
    (h : (folderBlocks tree root ignored levels folder).Yields bs) :
    ListsFirst tree root ignored folder bs := by
  refine folder_induction ht ?_ hroot h
  intro folder requests subfolders inner hholding hinner stack bs'
  constructor
  · intro hwalks
    cases hwalks with
    | visit hholding' hrest =>
        obtain ⟨rfl, rfl⟩ := hholding'.unique hholding
        obtain ⟨more, hmore, rfl⟩ := (walks_append hinner stack _).mp hrest
        exact ⟨more, hmore, by simp⟩
  · rintro ⟨more, hmore, rfl⟩
    rw [List.append_assoc]
    exact .visit hholding ((walks_append hinner stack _).mpr ⟨more, hmore, rfl⟩)

theorem walks_nil {bs : List Block} (h : Walks tree root ignored [] bs) : bs = [] := by
  cases h
  rfl

/-! ## Files -/

/-- A file in a folder or in one of its subfolders, and its request. -/
inductive Holds (tree : Tree) (root : Path) (ignored : List Text) : Path → Path → OrderedBlock → Prop
  | own {folder : Path} {x : OrderedBlock} (h : IsRequest tree root ignored folder x) :
      Holds tree root ignored folder (folder.child x.file) x
  | inner {folder file : Path} {name : Text} {x : OrderedBlock} (h : IsSubfolder tree ignored folder name)
      (below : Holds tree root ignored (folder.child name) file x) : Holds tree root ignored folder file x

/-- A file is one of a folder's own, or in one of its subfolders. -/
theorem holds_iff (folder file : Path) (x : OrderedBlock) : Holds tree root ignored folder file x ↔
    (IsRequest tree root ignored folder x ∧ file = folder.child x.file) ∨
      ∃ name, IsSubfolder tree ignored folder name ∧ Holds tree root ignored (folder.child name) file x := by
  constructor
  · rintro (h | ⟨h, hbelow⟩)
    · exact .inl ⟨h, rfl⟩
    · exact .inr ⟨_, h, hbelow⟩
  · rintro (⟨h, rfl⟩ | ⟨name, h, hbelow⟩)
    · exact .own h
    · exact .inner h hbelow

/-- The path of a file leads through the folder that holds it. -/
theorem Holds.parts {folder file : Path} {x : OrderedBlock} (h : Holds tree root ignored folder file x) :
    ∃ name rest, file = ⟨folder.anchor, folder.parts ++ name :: rest⟩ := by
  induction h with
  | @own folder x _ => exact ⟨x.file, [], rfl⟩
  | @inner folder file name x _ _ ih =>
      obtain ⟨next, rest, rfl⟩ := ih
      exact ⟨name, next :: rest, by simp [Path.child]⟩

/-- A file is in one subfolder only. -/
theorem Holds.name_unique {folder file : Path} {name name' : Text} {x x' : OrderedBlock}
    (h : Holds tree root ignored (folder.child name) file x)
    (h' : Holds tree root ignored (folder.child name') file x') : name = name' := by
  obtain ⟨next, rest, rfl⟩ := h.parts
  obtain ⟨next', rest', hsame⟩ := h'.parts
  have hparts := congrArg Path.parts hsame
  simp only [Path.child, List.append_assoc] at hparts
  exact (List.cons.inj (List.append_cancel_left hparts)).1

/-- A file in a subfolder is none of the folder's own. -/
theorem Holds.ne_child {folder file : Path} {name : Text} {x : OrderedBlock}
    (h : Holds tree root ignored (folder.child name) file x) (other : Text) : file ≠ folder.child other := by
  obtain ⟨next, rest, rfl⟩ := h.parts
  intro hsame
  simp [Path.child] at hsame

/-- The files that blocks come from: all that hold a request in some place, each once, one for each block. -/
structure Covers (holds : Path → OrderedBlock → Prop) (files : List Path) (bs : List Block) : Prop where
  nodup : files.Nodup
  file : ∀ file, file ∈ files ↔ ∃ x, holds file x
  block : List.Forall₂ (fun file b => ∃ x, holds file x ∧ x.block = b) files bs

/-- Files of two places that share none. -/
theorem Covers.append {holds holds' : Path → OrderedBlock → Prop} {files files' : List Path}
    {bs bs' : List Block} (h : Covers holds files bs) (h' : Covers holds' files' bs')
    (hapart : ∀ file x x', holds file x → ¬holds' file x') :
    Covers (fun file x => holds file x ∨ holds' file x) (files ++ files') (bs ++ bs') := by
  refine ⟨?_, fun file => ?_, ?_⟩
  · refine List.nodup_append.mpr ⟨h.nodup, h'.nodup, ?_⟩
    rintro file hfile file' hfile' rfl
    obtain ⟨x, hx⟩ := (h.file file).mp hfile
    obtain ⟨x', hx'⟩ := (h'.file file).mp hfile'
    exact hapart file x x' hx hx'
  · rw [List.mem_append, h.file, h'.file, ← exists_or]
  · refine List.rel_append ?_ ?_
    · exact h.block.imp fun _ _ ⟨x, hx, hblock⟩ => ⟨x, .inl hx, hblock⟩
    · exact h'.block.imp fun _ _ ⟨x, hx, hblock⟩ => ⟨x, .inr hx, hblock⟩

theorem covers_own {folder : Path} {requests : List OrderedBlock} {subfolders : List Text}
    (h : Holding tree root ignored folder requests subfolders) :
    Covers (fun file x => IsRequest tree root ignored folder x ∧ file = folder.child x.file)
      (requests.map fun x => folder.child x.file) (requests.map (·.block)) := by
  refine ⟨?_, fun file => ?_, ?_⟩
  · have hchild : Function.Injective folder.child := fun name name' hsame => by
      simpa [Path.child] using hsame
    have hnodup := h.nodup_files.map hchild
    rwa [List.map_map] at hnodup
  · simp only [List.mem_map, h.request]
    exact ⟨fun ⟨x, hx, hfile⟩ => ⟨x, hx, hfile.symm⟩, fun ⟨x, hx, hfile⟩ => ⟨x, hx, hfile.symm⟩⟩
  · rw [List.forall₂_map_left_iff, List.forall₂_map_right_iff, List.forall₂_same]
    exact fun x hx => ⟨x, ⟨(h.request x).mp hx, rfl⟩, rfl⟩

theorem covers_inner {folder : Path} {subfolders : List Text} {inner : List (List Block)}
    (hnodup : subfolders.Nodup)
    (h : List.Forall₂ (fun below bs => ∃ files, Covers (Holds tree root ignored below) files bs)
      (subfolders.map folder.child) inner) :
    ∃ files, Covers (fun file x => ∃ name ∈ subfolders, Holds tree root ignored (folder.child name) file x)
      files inner.flatten := by
  rw [List.forall₂_map_left_iff] at h
  induction h with
  | nil => exact ⟨[], .nil, by simp, .nil⟩
  | @cons name _ subfolders _ hfirst _ ih =>
      obtain ⟨hnot, hnodup⟩ := List.nodup_cons.mp hnodup
      obtain ⟨files, hfiles⟩ := hfirst
      obtain ⟨more, hmore⟩ := ih hnodup
      have hall := hfiles.append hmore fun file x x' hx ⟨name', hname', hx'⟩ =>
        hnot (hx.name_unique hx' ▸ hname')
      refine ⟨files ++ more, ?_⟩
      simpa [or_and_right, exists_or] using hall

/-- **Each file that holds a request gives one block**, and no block comes from anything else. -/
theorem covers_of_yields (ht : tree.IsDistinct) {levels : Nat} {folder : Path}
    (hroot : root.parts.length ≤ folder.parts.length) {bs : List Block}
    (h : (folderBlocks tree root ignored levels folder).Yields bs) :
    ∃ files, Covers (Holds tree root ignored folder) files bs := by
  refine folder_induction (motive := fun folder bs =>
    ∃ files, Covers (Holds tree root ignored folder) files bs) ht ?_ hroot h
  intro folder requests subfolders inner hholding hinner
  obtain ⟨files, hfiles⟩ := covers_inner (hholding.named.imp fun hname => hname.2) hinner
  have hall := (covers_own hholding).append hfiles fun file x x' hx ⟨name, _, hx'⟩ =>
    hx'.ne_child x.file hx.2
  have hholds : (fun file x => (IsRequest tree root ignored folder x ∧ file = folder.child x.file) ∨
      ∃ name ∈ subfolders, Holds tree root ignored (folder.child name) file x) =
      Holds tree root ignored folder := by
    funext file x
    simp only [hholding.subfolder]
    exact propext (holds_iff folder file x).symm
  rw [hholds] at hall
  exact ⟨_, hall⟩

/-! ## Main result -/

/-- **The walk is complete and ordered.** If the collection in a folder of a tree without repeated locations is
    read, its blocks are those that are listed for the folder, and no others are; they are those that a walk
    with a stack lists; and they come from the files of the folder and its subfolders that hold a request,
    from each of them one block. -/
theorem listing_collectBlocks {tree : Tree} (ht : tree.IsDistinct) {folder : Path} {d : Description}
    {bs : List Block} (h : (collectBlocks tree folder d).Yields bs) :
    (∀ bs', Listing tree folder (environmentsFolder :: d.ignored) folder bs' ↔ bs' = bs) ∧
      (∀ bs', Walks tree folder (environmentsFolder :: d.ignored) [folder] bs' ↔ bs' = bs) ∧
      ∃ files, Covers (Holds tree folder (environmentsFolder :: d.ignored) folder) files bs := by
  refine ⟨listing_iff ht le_rfl h, fun bs' => ?_, covers_of_yields ht le_rfl h⟩
  rw [listsFirst_of_yields ht le_rfl h]
  constructor
  · rintro ⟨more, hmore, rfl⟩
    rw [walks_nil hmore, List.append_nil]
  · rintro rfl
    exact ⟨[], .done, (List.append_nil _).symm⟩

/-- A request file: a method section, and a place if there is one. -/
def requestFile (place : Option Text) (url : Text) : Entry :=
  let description : Text := match place with
    | some place => "meta \x7b\n  seq: " ++ place ++ "\n\x7d\n"
    | none => []
  .file (Utf8.encode (description ++ "get \x7b\n  url: " ++ url ++ "\n\x7d\n"))

/-- A folder with two requests, a link to one of them, a file without a method, an ignored folder, a folder
    of environments, and a folder with a request. -/
def nestedTree : Tree where
  entries := [
    (["a.bru"], requestFile none "a"),
    (["b.bru"], requestFile (some "2") "b"),
    (["c.bru"], .link "a.bru"),
    (["environments"], .folder),
    (["environments", "e.bru"], requestFile (some "1") "e"),
    (["old"], .folder),
    (["old", "o.bru"], requestFile (some "1") "o"),
    (["sub"], .folder),
    (["sub", "folder.bru"], .file (Utf8.encode "meta \x7b\n  name: sub\n\x7d\n")),
    (["sub", "x.bru"], requestFile (some "1") "x")]
  current := []

/-- The block of a request file in the folder, and in a folder below it. -/
def plainBlock (comments : List Text) (url : Text) : Block :=
  { comments := comments, request := some { method := "GET", url := url } }

/-- The request that names no place. -/
def lastRequest : OrderedBlock := ⟨lastPlace, "a.bru", plainBlock [] "a"⟩

/-- The request that names a place, so it comes first. -/
def firstRequest : OrderedBlock := ⟨2, "b.bru", plainBlock [] "b"⟩

/-- The request in the folder below. -/
def innerRequest : OrderedBlock := ⟨1, "x.bru", plainBlock ["# Folder: sub"] "x"⟩

/-- What is collected from the folder. -/
def nestedBlocks : List Block := [firstRequest.block, lastRequest.block, innerRequest.block]

/-- A folder is collected step by step: its entries, then its subfolders. -/
theorem run_folderBlocks {levels : Nat} {folder : Path} {names : List Text} {contents : List Contents}
    {inner : List (List Block)} {before between after : List Note} (hnames : tree.names folder = .ok names)
    (hcontents : names.mapM (entryContents tree root ignored folder) before = (.ok contents, between))
    (hinner : (contents.flatMap (·.subfolders)).mapM (folderBlocks tree root ignored levels) between =
      (.ok inner, after)) :
    folderBlocks tree root ignored (levels + 1) folder before =
      (.ok (((contents.flatMap (·.requests)).mergeSort OrderedBlock.le).map (·.block) ++ inner.flatten),
        after) := by
  unfold folderBlocks
  rw [hnames]
  exact (run_bind hcontents).trans (run_bind hinner)

/-- The note about the file without a method. -/
def skipped : Note := ⟨.debug, "Skipping sub/folder.bru: no request section"⟩

/-- The folder is collected, with one note. -/
theorem run_nestedTree : collectBlocks nestedTree .here { ignored := ["old"] } [] =
    (.ok nestedBlocks, [skipped]) := by
  have hinner : [Path.here.child "sub"].mapM (folderBlocks nestedTree .here ["environments", "old"] 63) [] =
      (.ok [([innerRequest].mergeSort OrderedBlock.le).map (·.block) ++ List.flatten []], [skipped]) := by
    have hnames : nestedTree.names (Path.here.child "sub") = .ok ["folder.bru", "x.bru"] :=
      congrArg Except.ok (List.mergeSort_of_pairwise (by decide))
    have hcontents : ["folder.bru".toList, "x.bru".toList].mapM
        (entryContents nestedTree .here ["environments", "old"] (Path.here.child "sub")) [] =
        (.ok [{}, { requests := [innerRequest] }], [skipped]) := rfl
    have hrun : folderBlocks nestedTree .here ["environments", "old"] 63 (Path.here.child "sub") [] = _ :=
      run_folderBlocks hnames hcontents rfl
    rw [List.mapM_cons, run_bind hrun]
    rfl
  have hnames : nestedTree.names .here =
      .ok ["a.bru", "b.bru", "c.bru", "environments", "old", "sub"] :=
    congrArg Except.ok (List.mergeSort_of_pairwise (by decide))
  have hcontents : ["a.bru".toList, "b.bru", "c.bru", "environments", "old", "sub"].mapM
      (entryContents nestedTree .here ["environments", "old"] .here) [] =
      (.ok [{ requests := [lastRequest] }, { requests := [firstRequest] }, {}, {}, {},
        { subfolders := [Path.here.child "sub"] }], []) := rfl
  have hsorted : [lastRequest, firstRequest].mergeSort OrderedBlock.le = [firstRequest, lastRequest] := by
    have hlater : lastRequest.le firstRequest = false := by decide
    simp [List.mergeSort, hlater]
  have hrun := run_folderBlocks hnames hcontents hinner
  rw [List.mergeSort_singleton] at hrun
  show folderBlocks nestedTree .here ["environments", "old"] 64 .here [] = _
  refine hrun.trans ?_
  show (Except.ok (([lastRequest, firstRequest].mergeSort OrderedBlock.le).map (·.block) ++
    [innerRequest.block]), [skipped]) = _
  rw [hsorted]
  rfl

/-- A folder with files, links and folders, in another order than its names. -/
theorem listing_collectBlocks_example :
    nestedTree.IsDistinct ∧ (collectBlocks nestedTree .here { ignored := ["old"] }).Yields nestedBlocks ∧
      (∀ bs', Listing nestedTree .here ["environments", "old"] .here bs' ↔ bs' = nestedBlocks) ∧
      (∀ bs', Walks nestedTree .here ["environments", "old"] [.here] bs' ↔ bs' = nestedBlocks) ∧
      ∃ files, Covers (Holds nestedTree .here ["environments", "old"] .here) files nestedBlocks := by
  have hdistinct : nestedTree.IsDistinct := by decide
  have hyields : (collectBlocks nestedTree .here { ignored := ["old"] }).Yields nestedBlocks :=
    ⟨[], _, run_nestedTree⟩
  exact ⟨hdistinct, hyields, listing_collectBlocks hdistinct hyields⟩

/-- A folder with a request whose place is a numeral, and a request without a place. -/
def numberedTree (numeral : Text) : Tree where
  entries := [(["a.bru"], .file (Utf8.encode (numberedText numeral))), (["b.bru"], requestFile none "b")]
  current := []

/-- The request with a place. -/
def numberedRequest (place : Int) : OrderedBlock := ⟨place, "a.bru", plainBlock [] "a"⟩

/-- The request without a place. -/
def unnumberedRequest : OrderedBlock := ⟨lastPlace, "b.bru", plainBlock [] "b"⟩

theorem readText_numberedTree {numeral : Text} (h : Solid numeral) :
    (numberedTree numeral).readText (Path.here.child "a.bru") = .ok (numberedText numeral) := by
  have hcarriage : '\r' ∉ numberedText numeral := by
    have hnumeral : '\r' ∉ numeral := fun hmem => absurd (h _ hmem) (by decide)
    unfold numberedText
    rw [List.mem_append, List.mem_append, not_or, not_or]
    exact ⟨by decide, hnumeral, by decide⟩
  have hbytes : (numberedTree numeral).readBytes (Path.here.child "a.bru") =
      .ok (Utf8.encode (numberedText numeral)) := rfl
  unfold Tree.readText
  rw [hbytes]
  dsimp only
  rw [Utf8.decode_encode]
  dsimp only
  rw [unifyNewlines_eq_self hcarriage]

theorem entryContents_numberedTree {numeral : Text} (h : Solid numeral) (hne : numeral ≠ [])
    (hquote : '"' ∉ numeral) :
    entryContents (numberedTree numeral) .here [environmentsFolder] .here "a.bru" [] =
      (.ok { requests := [numberedRequest ((integer? numeral).getD lastPlace)] }, []) := by
  have hmeta : ((named? [(placeSection numeral).content, targetSection.content] "meta").map Section.pairs).getD [] =
      [("seq".toList, numeral)] := pairs_placeSection h hne hquote
  have hblock : requestBlock? ((Path.here.child "a.bru").relativeTo .here)
      [(placeSection numeral).content, targetSection.content] =
      .ok (some (numberedRequest ((integer? numeral).getD lastPlace))) := by
    show Except.ok (some (requestBlock _ targetSection.content _ "a")) = _
    unfold requestBlock
    rw [hmeta]
    rfl
  have htext : (liftM ((numberedTree numeral).readText (Path.here.child "a.bru")) : Work Text) [] =
      (.ok (numberedText numeral), []) := by
    rw [readText_numberedTree h]
    rfl
  have hsections : (liftM (readSections (numberedText numeral)) : Work (List Section)) [] =
      (.ok [(placeSection numeral).content, targetSection.content], []) := by
    rw [readSections_numberedText h hne]
    rfl
  have hfound : (liftM (requestBlock? ((Path.here.child "a.bru").relativeTo .here)
      [(placeSection numeral).content, targetSection.content]) : Work (Option OrderedBlock)) [] =
      (.ok (some (numberedRequest ((integer? numeral).getD lastPlace))), []) := by
    rw [hblock]
    rfl
  have hlink : (liftM ((numberedTree numeral).isLink (Path.here.child "a.bru")) : Work Bool) [] = (.ok false, []) := rfl
  have hfolder : (liftM ((numberedTree numeral).isFolder (Path.here.child "a.bru")) : Work Bool) [] =
      (.ok false, []) := rfl
  unfold entryContents
  refine (run_bind hlink).trans ?_
  refine (run_bind hfolder).trans ?_
  refine (run_bind htext).trans ?_
  refine (run_bind hsections).trans ?_
  refine (run_bind hfound).trans ?_
  rfl

/-- **A numeral orders its request** if it is converted, and else the request is one without a place. -/
theorem collectBlocks_numberedTree {numeral : Text} (h : Solid numeral) (hne : numeral ≠ [])
    (hquote : '"' ∉ numeral) :
    collectBlocks (numberedTree numeral) .here {} [] =
      (.ok (([numberedRequest ((integer? numeral).getD lastPlace), unnumberedRequest].mergeSort OrderedBlock.le).map
        (·.block)), []) := by
  have hordered : ["a.bru".toList, "b.bru"].Pairwise fun a b => precedes a b = true := by decide
  have hnames : (numberedTree numeral).names .here = .ok ["a.bru", "b.bru"] :=
    congrArg Except.ok (List.mergeSort_of_pairwise hordered)
  have hsecond : entryContents (numberedTree numeral) .here [environmentsFolder] .here "b.bru" [] =
      (.ok { requests := [unnumberedRequest] }, []) := rfl
  have hcontents : ["a.bru".toList, "b.bru"].mapM
      (entryContents (numberedTree numeral) .here [environmentsFolder] .here) [] =
      (.ok [{ requests := [numberedRequest ((integer? numeral).getD lastPlace)] },
        { requests := [unnumberedRequest] }], []) := by
    rw [List.mapM_cons, run_bind (entryContents_numberedTree h hne hquote), List.mapM_cons]
    rfl
  have hrun : folderBlocks (numberedTree numeral) .here [environmentsFolder] 64 .here [] = _ :=
    run_folderBlocks hnames hcontents rfl
  refine hrun.trans ?_
  show (Except.ok (_ ++ []), []) = _
  rw [List.append_nil]
  rfl

/-- The place of the first request is written with too many digits. Its number is far behind the last place, but it is
    not converted, so the name of its file puts it first. -/
theorem listing_collectBlocks_fails :
    (numberedTree (ones 4301)).IsDistinct ∧
      (collectBlocks (numberedTree (ones 4301)) .here {}).Yields [plainBlock [] "a", plainBlock [] "b"] ∧
      ∃ number : Nat, natural? (ones 4301) = some number ∧ unnumberedRequest.Before (numberedRequest number) := by
  have hnone : integer? (ones 4301) = none := integer?_ones (by decide)
  have hsorted : [numberedRequest lastPlace, unnumberedRequest].mergeSort OrderedBlock.le =
      [numberedRequest lastPlace, unnumberedRequest] := List.mergeSort_of_pairwise (by decide)
  have hrun := collectBlocks_numberedTree (solid_ones 4301) (List.cons_ne_nil _ _)
    (fun hquote => absurd (mem_ones hquote) (by decide))
  rw [hnone, Option.getD_none, hsorted] at hrun
  obtain ⟨number, hnumber, hle⟩ := natural?_ones 4300
  have hgreat : 10 ^ 10 ≤ number := (Nat.pow_le_pow_right (by decide) (by decide)).trans hle
  refine ⟨by decide, ⟨[], [], hrun⟩, number, hnumber, .inl ?_⟩
  show (2147483648 : Int) < number
  omega

end HttpFile.Source.Bruno
