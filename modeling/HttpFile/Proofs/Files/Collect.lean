import HttpFile.Files.Walk
import HttpFile.Proofs.Files.Resolve
import HttpFile.Proofs.Files.Rewrite
import HttpFile.Proofs.Log

/-!
# `HttpFile.Proofs.Files.Collect` — no file is collected twice

Files are collected under whatever path they are found, and left out if the path resolves to a location
that was seen before. Since a path that leads to a file resolves to its location, no two of the collected
paths lead to the same file, through links or otherwise.

## Contents
- **Names.** `named_filesBelow`: the paths that are found have no empty parts.
- **Keys.** `Keyed`: collected paths with different locations; `keyed_unseen`, `keyed_collectFrom`.
- **Targets.** `targets_collectFiles`.
- **One file.** `outcome_collectFiles_file`.
-/

namespace HttpFile.Files

open Text

/-! ## Names -/

/-- A tree in which no name is empty. -/
def Tree.Named (t : Tree) : Prop := ∀ x ∈ t.entries, [] ∉ x.1

instance (t : Tree) : Decidable t.Named := inferInstanceAs (Decidable (∀ x ∈ t.entries, _))

theorem ne_nil_of_mem_names {t : Tree} (ht : t.Named) {p : Path} {names : List Text}
    (h : t.names p = .ok names) : [] ∉ names := by
  unfold Tree.names at h
  split at h
  · next l hf =>
      obtain rfl : t.namesAt l = names := by simpa using h
      intro hmem
      unfold Tree.namesAt at hmem
      rw [List.mem_mergeSort, List.mem_filterMap] at hmem
      obtain ⟨⟨k, e⟩, hk, hlast⟩ := hmem
      obtain ⟨-, hlast⟩ : k.dropLast = l ∧ k.getLast? = some [] := by simpa using hlast
      exact ht _ hk (List.mem_of_getLast? hlast)
  all_goals simp at h

theorem named_itself {extensions : List Text} {p : Path} (hp : [] ∉ p.parts) :
    ∀ q ∈ (if hasExtension extensions p then [p] else []), [] ∉ q.parts := by
  intro q hq
  split at hq
  · rwa [List.mem_singleton.mp hq]
  · simp at hq

/-- The paths that are found have no empty parts if the starting point has none. -/
theorem named_filesBelow {t : Tree} (ht : t.Named) {extensions : List Text} {levels : Nat} {p : Path}
    (hp : [] ∉ p.parts) {found : List Path} (h : (filesBelow t extensions levels p).Yields found) :
    ∀ q ∈ found, [] ∉ q.parts := by
  induction levels generalizing p found with
  | zero =>
      unfold filesBelow at h
      obtain ⟨isFolder, -, h⟩ := yields_bind h
      cases isFolder with
      | true =>
          obtain ⟨_, -, h⟩ := yields_bind h
          rw [← yields_pure h]
          simp
      | false =>
          rw [← yields_pure h]
          exact named_itself hp
  | succ levels ih =>
      unfold filesBelow at h
      obtain ⟨isFolder, -, h⟩ := yields_bind h
      cases isFolder with
      | true =>
          obtain ⟨names, hnames, h⟩ := yields_bind h
          obtain ⟨parts, hparts, h⟩ := yields_bind h
          rw [← yields_pure h]
          intro q hq
          obtain ⟨part, hpart, hq⟩ := List.mem_flatten.mp hq
          obtain ⟨name, hname, hyield⟩ := yields_mapM hparts part hpart
          obtain ⟨isLink, -, hyield⟩ := yields_bind hyield
          -- links are not followed
          cases isLink with
          | true =>
              rw [← yields_pure hyield] at hq
              simp at hq
          | false =>
              have hchild : [] ∉ (p.child name).parts := by
                have hne := ne_nil_of_mem_names ht (yields_ofExcept hnames)
                simp only [Path.child, List.mem_append, List.mem_singleton]
                rintro (hm | rfl)
                · exact hp hm
                · exact hne hname
              exact ih hchild hyield q hq
      | false =>
          rw [← yields_pure h]
          exact named_itself hp

theorem named_findFiles {t : Tree} (ht : t.Named) {extensions : List Text} {p : Path}
    (hp : [] ∉ p.parts) {found : List Path} (h : (findFiles t extensions p).Yields found) :
    ∀ q ∈ found, [] ∉ q.parts := by
  unfold findFiles at h
  obtain ⟨isFile, -, h⟩ := yields_bind h
  cases isFile with
  | true =>
      rw [← yields_pure h]
      intro q hq
      rwa [List.mem_singleton.mp hq]
  | false => exact named_filesBelow ht hp h

/-! ## Keys -/

/-- Paths with the locations they resolve to, in the same order. -/
def Keyed (t : Tree) (files : List Path) (keys : List Location) : Prop :=
  List.Forall₂ (fun p l => t.resolve p = .ok l ∧ [] ∉ p.parts) files keys

theorem Keyed.exists_key {t : Tree} {files : List Path} {keys : List Location} (h : Keyed t files keys)
    {p : Path} (hp : p ∈ files) : ∃ k ∈ keys, t.resolve p = .ok k ∧ [] ∉ p.parts := by
  induction h with
  | nil => simp at hp
  | @cons q k files keys hq hrest ih =>
      rcases List.mem_cons.mp hp with rfl | hp
      · exact ⟨k, by simp, hq⟩
      · obtain ⟨k', hk', hres⟩ := ih hp
        exact ⟨k', by simp [hk'], hres⟩

/-- The paths that are kept have locations that were not seen, and different ones. -/
theorem keyed_unseen {t : Tree} {seen : List Location} (hseen : seen.Nodup) {ps : List Path}
    (hps : ∀ p ∈ ps, [] ∉ p.parts) {files : List Path} {seen' : List Location}
    (h : (unseen t seen ps).Yields (files, seen')) :
    seen'.Nodup ∧ ∃ keys, Keyed t files keys ∧ seen' = seen ++ keys := by
  induction ps generalizing seen files with
  | nil =>
      obtain ⟨rfl, rfl⟩ : [] = files ∧ seen = seen' := by simpa using yields_pure h
      exact ⟨hseen, [], .nil, by simp⟩
  | cons p ps ih =>
      unfold unseen at h
      obtain ⟨l, hl, h⟩ := yields_bind h
      have hrest : ∀ q ∈ ps, [] ∉ q.parts := fun q hq => hps q (by simp [hq])
      split at h
      · exact ih hseen hrest h
      · next hnew =>
          have hfresh : l ∉ seen := by simpa using hnew
          obtain ⟨⟨files', seen''⟩, hmore, h⟩ := yields_bind h
          obtain ⟨rfl, rfl⟩ : p :: files' = files ∧ seen'' = seen' := by simpa using yields_pure h
          -- a new location differs from those that were seen
          have hnodup : (seen ++ [l]).Nodup := by
            rw [List.nodup_append]
            refine ⟨hseen, by simp, ?_⟩
            rintro a ha b hb rfl
            rw [List.mem_singleton.mp hb] at ha
            exact hfresh ha
          obtain ⟨hall, keys, hkeys, rfl⟩ := ih hnodup hrest hmore
          exact ⟨hall, l :: keys, .cons ⟨yields_ofExcept hl, hps p (by simp)⟩ hkeys, by simp⟩

/-- The same from all starting points. -/
theorem keyed_collectFrom {t : Tree} (ht : t.Named) {extensions : List Text} {seen : List Location}
    (hseen : seen.Nodup) {roots : List Path} (hroots : ∀ p ∈ roots, [] ∉ p.parts) {files : List Path}
    (h : (collectFrom t extensions seen roots).Yields files) :
    ∃ keys, Keyed t files keys ∧ (seen ++ keys).Nodup := by
  induction roots generalizing seen files with
  | nil =>
      obtain rfl : [] = files := yields_pure h
      exact ⟨[], .nil, by simpa using hseen⟩
  | cons p roots ih =>
      unfold collectFrom at h
      obtain ⟨found, hfound, h⟩ := yields_bind h
      obtain ⟨⟨files₁, seen₁⟩, hunseen, h⟩ := yields_bind h
      obtain ⟨files₂, hmore, h⟩ := yields_bind h
      obtain rfl : files₁ ++ files₂ = files := yields_pure h
      have hnamed := named_findFiles ht (hroots p (by simp)) hfound
      obtain ⟨hnodup, keys₁, hkeys₁, rfl⟩ := keyed_unseen hseen hnamed hunseen
      obtain ⟨keys₂, hkeys₂, hall⟩ := ih hnodup (fun q hq => hroots q (by simp [hq])) hmore
      exact ⟨keys₁ ++ keys₂, List.rel_append hkeys₁ hkeys₂, by rwa [← List.append_assoc]⟩

/-! ## Targets -/

/-- A key is the location of the file that the path leads to, if it leads to one. -/
theorem target?_of_resolve {t : Tree} {p : Path} {k l : Location} (h : t.resolve p = .ok k)
    (hp : [] ∉ p.parts) (hl : t.target? p = some l) : k = l := by
  have hnull : Tree.hasNull p = false := by
    by_contra hn
    unfold Tree.resolve at h
    rw [if_pos (by simpa using hn)] at h
    simp at h
  obtain ⟨bytes, hf⟩ := Tree.target?_eq_some.mp hl
  rw [Tree.resolve_of_find hf hnull hp] at h
  simpa using h.symm

/-- **No file is collected twice**, whatever the paths that lead to it. -/
theorem targets_collectFiles {t : Tree} (ht : t.Named) {extensions : List Text} {roots : List Path}
    (hroots : ∀ p ∈ roots, [] ∉ p.parts) {files : List Path}
    (h : (collectFiles t extensions roots).Yields files) :
    files.Pairwise fun p q => ∀ l, t.target? p = some l → t.target? q ≠ some l := by
  obtain ⟨keys, hkeys, hnodup⟩ := keyed_collectFrom ht List.nodup_nil hroots h
  rw [List.nil_append] at hnodup
  clear h
  induction hkeys with
  | nil => exact .nil
  | @cons p k files keys hp hrest ih =>
      obtain ⟨hk, hnodup⟩ := List.nodup_cons.mp hnodup
      refine List.pairwise_cons.mpr ⟨?_, ih hnodup⟩
      intro q hq l hpl hql
      obtain ⟨k', hk', hq', hnamed⟩ := Keyed.exists_key hrest hq
      rw [target?_of_resolve hp.1 hp.2 hpl, ← target?_of_resolve hq' hnamed hql] at hk
      exact hk hk'

/-! ## One file -/

/-- A path that leads to a file is collected as it is, without a word. -/
theorem outcome_collectFiles_file {t : Tree} (extensions : List Text) {p : Path} {l : Location}
    (hp : [] ∉ p.parts) (hnull : Tree.hasNull p = false) (hl : t.target? p = some l) :
    (collectFiles t extensions [p]).outcome = (.ok [p], []) := by
  obtain ⟨bytes, hf⟩ := Tree.target?_eq_some.mp hl
  have hfile : t.isFile p = .ok true := by
    unfold Tree.isFile Tree.ask
    rw [if_neg (by simp [hnull]), hf]
    rfl
  have hfind : findFiles t extensions p = pure [p] := by
    unfold findFiles
    rw [hfile]
    rfl
  have hunseen : unseen t [] [p] = pure ([p], [l]) := by
    unfold unseen
    rw [Tree.resolve_of_find hf hnull hp]
    rfl
  unfold collectFiles collectFrom
  rw [hfind, pure_bind, hunseen, pure_bind]
  rfl

end HttpFile.Files
