import HttpFile.Proofs.Files.Child
import HttpFile.Proofs.Files.Names
import Mathlib.Data.List.Induction

/-!
# `HttpFile.Proofs.Files.Below` — the entries below a folder

In a tree as a disk holds it, every entry stands in a folder and has a proper name. So a path that leads to
a folder leads on to each entry below it, by the names on the way, as long as the whole path is short
enough. No link stands between the folder and such an entry.

## Contents
- **Trees.** `IsEntryName`, `Tree.IsProper`; `IsProper.name`, `IsProper.above`, `mem_namesAt`.
- **Paths.** `Path.below`; `find_below`; `hasNull_of_find`, `empty_notMem_of_find`.
- **Questions.** `ask_of_find`, `ask_of_isTooLong`: about a path that leads to an entry, and one that is too
  long.
-/

namespace HttpFile.Files

open Text

/-! ## Trees -/

/-- A name that an entry can have. -/
structure IsEntryName (name : Text) : Prop where
  ne_nil : name ≠ []
  ne_dot : name ≠ ['.']
  ne_up : name ≠ ['.', '.']
  null : '\x00' ∉ name
  short : (Utf8.encode name).length ≤ Tree.maxNameBytes

instance (name : Text) : Decidable (IsEntryName name) :=
  decidable_of_iff (name ≠ [] ∧ name ≠ ['.'] ∧ name ≠ ['.', '.'] ∧ '\x00' ∉ name ∧
      (Utf8.encode name).length ≤ Tree.maxNameBytes)
    ⟨fun ⟨h₁, h₂, h₃, h₄, h₅⟩ => ⟨h₁, h₂, h₃, h₄, h₅⟩, fun ⟨h₁, h₂, h₃, h₄, h₅⟩ => ⟨h₁, h₂, h₃, h₄, h₅⟩⟩

namespace Tree

/-- A tree as a disk holds it: one entry at a location, with a proper name, in a folder. Links may lead
    anywhere. -/
structure IsProper (t : Tree) : Prop where
  distinct : t.IsDistinct
  named : ∀ x ∈ t.entries, ∀ name ∈ x.1, IsEntryName name
  parent : ∀ x ∈ t.entries, t.at? x.1.dropLast = some .folder

instance (t : Tree) : Decidable t.IsProper :=
  decidable_of_iff (t.IsDistinct ∧ (∀ x ∈ t.entries, ∀ name ∈ x.1, IsEntryName name) ∧
      ∀ x ∈ t.entries, t.at? x.1.dropLast = some .folder)
    ⟨fun ⟨h₁, h₂, h₃⟩ => ⟨h₁, h₂, h₃⟩, fun ⟨h₁, h₂, h₃⟩ => ⟨h₁, h₂, h₃⟩⟩

variable {t : Tree} {l : Location}

theorem mem_entries_of_at? {e : Entry} (hl : l ≠ []) (h : t.at? l = some e) : (l, e) ∈ t.entries := by
  unfold at? at h
  rw [if_neg (by simpa using hl)] at h
  obtain ⟨before, after, hentries, -⟩ := List.lookup_eq_some_iff.mp h
  rw [hentries]
  simp

theorem IsProper.name (ht : t.IsProper) {e : Entry} (h : t.at? l = some e) {name : Text} (hname : name ∈ l) :
    IsEntryName name :=
  ht.named _ (mem_entries_of_at? (List.ne_nil_of_mem hname) h) name hname

/-- What is above an entry is a folder. -/
theorem IsProper.above (ht : t.IsProper) {names : List Text} (hne : names ≠ []) {e : Entry}
    (h : t.at? (l ++ names) = some e) : t.at? l = some .folder := by
  induction names using List.reverseRecOn generalizing e with
  | nil => exact absurd rfl hne
  | append_singleton names name ih =>
      have hfolder := ht.parent _ (mem_entries_of_at? (by simp) h)
      rw [← List.append_assoc, List.dropLast_concat] at hfolder
      by_cases hnames : names = []
      · simpa [hnames] using hfolder
      · exact ih hnames hfolder

/-- A file below a folder is not the folder itself. -/
theorem ne_nil_of_file {names : List Text} {bytes : List UInt8} (hl : t.at? l = some .folder)
    (hfile : t.at? (l ++ names) = some (.file bytes)) : names ≠ [] := by
  rintro rfl
  rw [List.append_nil, hl] at hfile
  simp at hfile

/-- A folder has the names of the entries in it. -/
theorem mem_namesAt {name : Text} : name ∈ t.namesAt l ↔ ∃ e, t.at? (l ++ [name]) = some e := by
  unfold namesAt at?
  rw [List.mem_mergeSort, List.mem_filterMap, if_neg (by simp)]
  constructor
  · rintro ⟨⟨k, e⟩, hk, hname⟩
    obtain ⟨rfl, hlast⟩ : k.dropLast = l ∧ k.getLast? = some name := by simpa using hname
    rw [List.dropLast_append_getLast? name hlast, ← Option.isSome_iff_exists,
      ← Option.ne_none_iff_isSome, Ne, List.lookup_eq_none_iff]
    intro hnone
    simpa using hnone _ hk
  · rintro ⟨e, he⟩
    obtain ⟨before, after, hentries, -⟩ := List.lookup_eq_some_iff.mp he
    exact ⟨(l ++ [name], e), by simp [hentries], by simp⟩

end Tree

/-! ## Paths -/

/-- The path to an entry some names below a folder. -/
def Path.below (folder : Path) (names : List Text) : Path := ⟨folder.anchor, folder.parts ++ names⟩

theorem Path.below_child (folder : Path) (name : Text) (names : List Text) :
    (folder.child name).below names = folder.below (name :: names) := by
  simp [below, child]

namespace Tree

variable {t : Tree} {l : Location}

/-- Names are followed to the entry that they lead to. -/
theorem advance_below (ht : t.IsProper) {followLast : Bool} {names : List Text} {e : Entry}
    (hl : t.at? l = some .folder) (he : t.at? (l ++ names) = some e)
    (hlink : followLast = true → ∀ target, e ≠ .link target) :
    advance t followLast l names = .done (.entry (l ++ names) e) := by
  induction names generalizing l with
  | nil =>
      rw [List.append_nil] at he ⊢
      rw [advance, he]
  | cons name names ih =>
      have hname : IsEntryName name := ht.name he (by simp)
      have hshort : ¬maxNameBytes < (Utf8.encode name).length := Nat.not_lt.mpr hname.short
      rw [List.append_cons] at he ⊢
      by_cases hnames : names = []
      · subst hnames
        rw [List.append_nil] at he ⊢
        cases e with
        | folder => rw [advance_folder hname.ne_dot hname.ne_up hshort he, advance, he]
        | file bytes =>
            rw [advance_file hname.ne_dot hname.ne_up hshort he]
            rfl
        | link target =>
            obtain rfl : followLast = false := by
              by_contra hfollow
              exact hlink (by simpa using hfollow) target rfl
            rw [advance_link hname.ne_dot hname.ne_up hshort he]
            rfl
      · have hfolder := ht.above hnames he
        rw [advance_folder hname.ne_dot hname.ne_up hshort hfolder]
        exact ih hfolder he

/-- **A path to a folder leads on to each entry below**, whether or not a link at the end is followed, if it
    is none. -/
theorem find_below (ht : t.IsProper) {p : Path} {followLast : Bool} {names : List Text} {e : Entry}
    (h : t.find p true = .entry l .folder) (he : t.at? (l ++ names) = some e) (hne : names ≠ [])
    (hshort : isTooLong (p.below names).text = false)
    (hlink : followLast = true → ∀ target, e ≠ .link target) :
    t.find (p.below names) followLast = .entry (l ++ names) e := by
  have hl := at?_of_find h
  unfold find at h ⊢
  rw [if_neg (by simp [hshort])]
  split at h
  · cases h
  · obtain ⟨left, hleft⟩ := exists_follow_append h (.inr hne)
    refine hleft.trans ?_
    rw [follow, advance_below ht hl he hlink]

/-- The parts of a path that leads to an entry are dots and names of entries. -/
theorem part_of_advance (ht : t.IsProper) {followLast : Bool} {parts : List Text} :
    (∀ k e, advance t followLast l parts = .done (.entry k e) →
      ∀ part ∈ parts, part = ['.'] ∨ part = ['.', '.'] ∨ IsEntryName part) ∧
    ∀ f target rest, advance t followLast l parts = .jump f target rest →
      ∀ part ∈ parts, part ∈ rest ∨ part = ['.'] ∨ part = ['.', '.'] ∨ IsEntryName part := by
  fun_induction advance t followLast l parts with
  | case1 folder => simp
  | case2 folder rest ih =>
      simp only [List.mem_cons, forall_eq_or_imp]
      exact ⟨fun k e h => ⟨.inl trivial, ih.1 k e h⟩, fun f target rest h => ⟨.inr (.inl trivial), ih.2 f target rest h⟩⟩
  | case3 folder rest hdot ih =>
      simp only [List.mem_cons, forall_eq_or_imp]
      exact ⟨fun k e h => ⟨.inr (.inl trivial), ih.1 k e h⟩,
        fun f target rest h => ⟨.inr (.inr (.inl trivial)), ih.2 f target rest h⟩⟩
  | case4 folder part rest => simp
  | case5 folder part rest =>
      refine ⟨fun k e h => ?_, by simp⟩
      split at h <;> simp at h
  | case6 folder part rest hdot hup hlong ha ih =>
      have hname : IsEntryName part := ht.name ha (by simp)
      simp only [List.mem_cons, forall_eq_or_imp]
      exact ⟨fun k e h => ⟨.inr (.inr hname), ih.1 k e h⟩,
        fun f target rest h => ⟨.inr (.inr (.inr hname)), ih.2 f target rest h⟩⟩
  | case7 folder part rest hdot hup hlong bytes ha =>
      have hname : IsEntryName part := ht.name ha (by simp)
      refine ⟨fun k e h => ?_, by simp⟩
      split at h
      · next hend => simp [List.isEmpty_iff.mp hend, hname]
      · simp at h
  | case8 folder part rest hdot hup hlong target ha hlast =>
      have hname : IsEntryName part := ht.name ha (by simp)
      obtain ⟨rfl, -⟩ : rest = [] ∧ _ := by simpa using hlast
      simp [hname]
  | case9 folder part rest hdot hup hlong target ha hlast =>
      have hname : IsEntryName part := ht.name ha (by simp)
      refine ⟨by simp, fun f target' rest' h => ?_⟩
      -- the parts behind the link are left to be followed
      obtain ⟨-, -, rfl⟩ : folder = f ∧ target = target' ∧ rest = rest' := by simpa using h
      simp only [List.mem_cons, forall_eq_or_imp]
      exact ⟨.inr (.inr (.inr hname)), fun part hpart => .inl hpart⟩

theorem part_of_follow (ht : t.IsProper) {followLast : Bool} {links : Nat} {folder : Location}
    {parts : List Text} {e : Entry} (h : follow t followLast links folder parts = .entry l e) :
    ∀ part ∈ parts, part = ['.'] ∨ part = ['.', '.'] ∨ IsEntryName part := by
  induction links generalizing folder parts with
  | zero =>
      rw [follow] at h
      split at h
      · next ha => exact (part_of_advance ht).1 l e (h ▸ ha)
      · simp at h
  | succ links ih =>
      rw [follow] at h
      split at h
      · next ha => exact (part_of_advance ht).1 l e (h ▸ ha)
      · next f target rest ha =>
          intro part hpart
          rcases (part_of_advance ht).2 f target rest ha part hpart with hrest | hgood
          · exact ih h part (List.mem_append_right _ hrest)
          · exact hgood

theorem part_of_find (ht : t.IsProper) {p : Path} {followLast : Bool} {e : Entry}
    (h : t.find p followLast = .entry l e) :
    ∀ part ∈ p.parts, part = ['.'] ∨ part = ['.', '.'] ∨ IsEntryName part := by
  unfold find at h
  split at h
  · cases h
  · exact part_of_follow ht h

/-- A path that leads to an entry holds no null character. -/
theorem hasNull_of_find (ht : t.IsProper) {p : Path} {followLast : Bool} {e : Entry}
    (h : t.find p followLast = .entry l e) : hasNull p = false := by
  unfold hasNull
  rw [List.any_eq_false]
  intro part hpart
  rcases part_of_find ht h part hpart with rfl | rfl | hname
  · decide
  · decide
  · simpa using hname.null

/-- A path that leads to an entry has no empty parts. -/
theorem empty_notMem_of_find (ht : t.IsProper) {p : Path} {followLast : Bool} {e : Entry}
    (h : t.find p followLast = .entry l e) : [] ∉ p.parts := by
  intro hmem
  rcases part_of_find ht h [] hmem with hdot | hup | hname
  · simp at hdot
  · simp at hup
  · exact hname.ne_nil rfl

/-! ## Questions -/

theorem ask_of_find {p : Path} {followLast : Bool} {e : Entry} (hnull : hasNull p = false)
    (h : t.find p followLast = .entry l e) : t.ask p followLast = .ok (some e) := by
  unfold ask
  rw [if_neg (by simp [hnull]), h]

theorem isFolder_of_find (ht : t.IsProper) {p : Path} (h : t.find p true = .entry l .folder) :
    t.isFolder p = .ok true := by
  unfold isFolder
  rw [ask_of_find (hasNull_of_find ht h) h]
  rfl

theorem names_of_find {p : Path} (h : t.find p true = .entry l .folder) : t.names p = .ok (t.namesAt l) := by
  unfold names
  rw [h]

/-- Nothing can be said about a path that is too long. -/
theorem ask_of_isTooLong {p : Path} (followLast : Bool) (hnull : hasNull p = false)
    (h : isTooLong p.text = true) : t.ask p followLast = .error (.refused .nameTooLong p) := by
  unfold ask find
  rw [if_neg (by simp [hnull]), if_pos h]

end Tree

end HttpFile.Files
