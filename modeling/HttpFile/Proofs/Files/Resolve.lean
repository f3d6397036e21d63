import HttpFile.Files.Tree
import Mathlib.Data.List.Perm.Subperm

/-!
# `HttpFile.Proofs.Files.Resolve` — a path that leads to a file resolves to it

A file is reached through links in a flat manner: the target of a link takes its place in front of the
parts that are left, and at most so many links are followed. A path is resolved in a nested manner: the
target of a link is resolved first, and a link that is being followed already leads nowhere. The two
agree on every path that leads to a file. Both come down to one relation, which counts the links. Since
the count of a link is more than that of any link inside of it, no link on the way is met again while
it is followed.

## Contents
- **Ways.** `Leads`: the parts of a path lead from a folder to a location through so many links;
  `Leads.split`, `Leads.unique`.
- **Following.** `leads_of_follow`: what is found by following links has a way.
- **Resolving.** `resolveParts_of_leads`, `resolveLinks_of_leads`: a way is found by resolving.
- **Paths.** `resolve_of_find`.
-/

namespace HttpFile.Files.Tree

open Text

/-! ## Ways -/

/-- A part of a path that is a name. -/
def IsName (part : Text) : Prop := part ≠ ['.'] ∧ part ≠ ['.', '.']

/-- The folder from which the target of a link in a folder is followed. -/
def origin (folder : Location) (target : Text) : Location :=
  if ['/'].isPrefixOf target then [] else folder

/-- The parts of a path lead from a folder to a location, through the given number of links. -/
inductive Leads (t : Tree) : Nat → Location → List Text → Location → Prop
  | nil (folder : Location) : Leads t 0 folder [] folder
  | dot {n : Nat} {folder l : Location} {rest : List Text} (h : Leads t n folder rest l) :
      Leads t n folder (['.'] :: rest) l
  | up {n : Nat} {folder l : Location} {rest : List Text} (h : Leads t n folder.dropLast rest l) :
      Leads t n folder (['.', '.'] :: rest) l
  | folder {n : Nat} {folder l : Location} {part : Text} {rest : List Text} (hp : IsName part)
      (ha : t.at? (folder ++ [part]) = some .folder) (h : Leads t n (folder ++ [part]) rest l) :
      Leads t n folder (part :: rest) l
  | file {folder : Location} {part : Text} {bytes : List UInt8} (hp : IsName part)
      (ha : t.at? (folder ++ [part]) = some (.file bytes)) :
      Leads t 0 folder [part] (folder ++ [part])
  | link {m n : Nat} {folder l l' : Location} {part target : Text} {rest : List Text} (hp : IsName part)
      (ha : t.at? (folder ++ [part]) = some (.link target))
      (hi : Leads t m (origin folder target) (partsToFollow target) l') (h : Leads t n l' rest l) :
      Leads t (m + n + 1) folder (part :: rest) l

/-- A way along some parts and then others has a place in between. -/
theorem Leads.split {t : Tree} {n : Nat} {folder l : Location} {ps qs : List Text}
    (h : Leads t n folder (ps ++ qs) l) :
    ∃ i j l', Leads t i folder ps l' ∧ Leads t j l' qs l ∧ n = i + j := by
  induction ps generalizing n folder with
  | nil => exact ⟨0, n, folder, .nil folder, h, by omega⟩
  | cons p ps ih =>
      rw [List.cons_append] at h
      generalize hrest : ps ++ qs = rest at h
      cases h with
      | dot h =>
          obtain ⟨i, j, l', h₁, h₂, hn⟩ := ih (hrest ▸ h)
          exact ⟨i, j, l', .dot h₁, h₂, hn⟩
      | up h =>
          obtain ⟨i, j, l', h₁, h₂, hn⟩ := ih (hrest ▸ h)
          exact ⟨i, j, l', .up h₁, h₂, hn⟩
      | folder hp ha h =>
          obtain ⟨i, j, l', h₁, h₂, hn⟩ := ih (hrest ▸ h)
          exact ⟨i, j, l', .folder hp ha h₁, h₂, hn⟩
      | file hp ha =>
          obtain ⟨rfl, rfl⟩ := List.append_eq_nil_iff.mp hrest
          exact ⟨0, 0, _, .file hp ha, .nil _, rfl⟩
      | @link m n _ _ _ _ _ _ hp ha hi h =>
          obtain ⟨i, j, l', h₁, h₂, hn⟩ := ih (hrest ▸ h)
          exact ⟨m + i + 1, j, l', .link hp ha hi h₁, h₂, by omega⟩

/-- There is one way at most. -/
theorem Leads.unique {t : Tree} {n n' : Nat} {folder l l' : Location} {parts : List Text}
    (h : Leads t n folder parts l) (h' : Leads t n' folder parts l') : n = n' ∧ l = l' := by
  induction h generalizing n' l' with
  | nil folder =>
      cases h'
      exact ⟨rfl, rfl⟩
  | dot h ih =>
      cases h' with
      | dot h' => exact ih h'
      | folder hp | file hp | link hp => exact absurd rfl hp.1
  | up h ih =>
      cases h' with
      | up h' => exact ih h'
      | folder hp | file hp | link hp => exact absurd rfl hp.2
  -- what stands at the location of a name says which step is taken
  | folder hp ha h ih =>
      cases h' with
      | dot => exact absurd rfl hp.1
      | up => exact absurd rfl hp.2
      | folder hp' ha' h' => exact ih h'
      | file hp' ha' | link hp' ha' =>
          rw [ha] at ha'
          simp at ha'
  | file hp ha =>
      cases h' with
      | dot => exact absurd rfl hp.1
      | up => exact absurd rfl hp.2
      | file => exact ⟨rfl, rfl⟩
      | folder hp' ha' | link hp' ha' =>
          rw [ha] at ha'
          simp at ha'
  | link hp ha hi h ihi ih =>
      cases h' with
      | dot => exact absurd rfl hp.1
      | up => exact absurd rfl hp.2
      | folder hp' ha' | file hp' ha' =>
          rw [ha] at ha'
          simp at ha'
      | link hp' ha' hi' h' =>
          rw [ha] at ha'
          obtain rfl : _ = _ := by simpa using ha'
          obtain ⟨rfl, rfl⟩ := ihi hi'
          obtain ⟨rfl, rfl⟩ := ih h'
          exact ⟨rfl, rfl⟩

/-! ## Following -/

/-- Parts that are followed to an end or to a link lead there. -/
theorem leads_of_advance {t : Tree} {folder : Location} {parts : List Text} :
    (∀ l bytes, advance t true folder parts = .done (.entry l (.file bytes)) →
      Leads t 0 folder parts l) ∧
    ∀ at' target rest, advance t true folder parts = .jump at' target rest →
      ∀ n l, Leads t n (origin at' target) (partsToFollow target ++ rest) l →
        Leads t (n + 1) folder parts l := by
  fun_induction advance t true folder parts with
  | case1 folder =>
      refine ⟨fun l bytes h => ?_, by simp⟩
      split at h
      · obtain ⟨rfl, -⟩ : folder = l ∧ _ := by simpa using h
        exact .nil folder
      · simp at h
  | case2 folder rest ih =>
      exact ⟨fun l bytes h => .dot (ih.1 l bytes h), fun f target rest h n l hl => .dot (ih.2 f target rest h n l hl)⟩
  | case3 folder rest hdot ih =>
      exact ⟨fun l bytes h => .up (ih.1 l bytes h), fun f target rest h n l hl => .up (ih.2 f target rest h n l hl)⟩
  | case4 folder part rest => simp
  | case5 folder part rest =>
      refine ⟨fun l bytes h => ?_, by simp⟩
      split at h <;> simp at h
  | case6 folder part rest hdot hup hlong ha ih =>
      exact ⟨fun l bytes h => .folder ⟨hdot, hup⟩ ha (ih.1 l bytes h),
        fun f target rest h n l hl => .folder ⟨hdot, hup⟩ ha (ih.2 f target rest h n l hl)⟩
  | case7 folder part rest hdot hup hlong bytes' ha =>
      refine ⟨fun l bytes h => ?_, by simp⟩
      split at h
      · next hend =>
          obtain rfl : rest = [] := by simpa using hend
          obtain ⟨rfl, -⟩ : folder ++ [part] = l ∧ _ := by simpa using h
          exact .file ⟨hdot, hup⟩ ha
      · simp at h
  | case8 folder part rest hdot hup hlong target ha hlast => simp at hlast
  | case9 folder part rest hdot hup hlong target ha hlast =>
      refine ⟨by simp, fun f target' rest' h n l hl => ?_⟩
      obtain ⟨rfl, rfl, rfl⟩ : folder = f ∧ target = target' ∧ rest = rest' := by simpa using h
      -- the way behind a link is split where the target of the link ends
      obtain ⟨i, j, l', h₁, h₂, rfl⟩ := hl.split
      exact .link ⟨hdot, hup⟩ ha h₁ h₂

/-- **What is found by following links has a way.** -/
theorem leads_of_follow {t : Tree} {links : Nat} {folder l : Location} {parts : List Text}
    {bytes : List UInt8} (h : follow t true links folder parts = .entry l (.file bytes)) :
    ∃ n, Leads t n folder parts l := by
  induction links generalizing folder parts with
  | zero =>
      unfold follow at h
      split at h
      · next found ha => exact ⟨0, leads_of_advance.1 l bytes (h ▸ ha)⟩
      · simp at h
  | succ links ih =>
      unfold follow at h
      split at h
      · next found ha => exact ⟨0, leads_of_advance.1 l bytes (h ▸ ha)⟩
      · next f target rest ha =>
          obtain ⟨n, hn⟩ := ih h
          exact ⟨n + 1, leads_of_advance.2 f target rest ha n l hn⟩

/-! ## Resolving -/

/-- Empty parts, and a dot at the end, mean nothing where all links lead somewhere. -/
theorem resolveParts_of_filter {t : Tree} {enter : Location → Location → Text → Location × Bool}
    {folder l : Location} {parts dots : List Text} (hd : dots = [] ∨ dots = [['.']])
    (h : resolveParts t enter folder (parts.filter (· ≠ []) ++ dots) = (l, true)) :
    resolveParts t enter folder parts = (l, true) := by
  induction parts generalizing folder with
  | nil =>
      rcases hd with rfl | rfl
      · exact h
      · simpa [resolveParts] using h
  | cons part parts ih =>
      by_cases hempty : part = []
      · subst hempty
        rw [resolveParts, if_pos (by simp)]
        exact ih (by simpa using h)
      · rw [List.filter_cons_of_pos (by simpa using hempty), List.cons_append] at h
        rw [resolveParts] at h ⊢
        split at h
        · next hc => rw [if_pos hc]; exact ih h
        · next hc =>
            rw [if_neg hc]
            split at h
            · next hup => rw [if_pos hup]; exact ih h
            · next hup =>
                rw [if_neg hup]
                split at h
                · next target ha =>
                    split at h
                    · exact ih h
                    · simp at h
                · exact ih h

/-- A way is found if every link on it, which has a shorter way, leads where it should. -/
theorem resolveParts_of_leads {t : Tree} {enter : Location → Location → Text → Location × Bool} {bound : Nat}
    (henter : ∀ folder part target m l, IsName part → t.at? (folder ++ [part]) = some (.link target) →
      Leads t m (origin folder target) (partsToFollow target) l → m < bound →
      enter folder (folder ++ [part]) target = (l, true))
    {n : Nat} {folder l : Location} {parts : List Text} (h : Leads t n folder parts l) (hn : n ≤ bound)
    (hparts : [] ∉ parts) : resolveParts t enter folder parts = (l, true) := by
  induction h with
  | nil folder => rfl
  | dot h ih =>
      rw [resolveParts, if_pos (by simp)]
      exact ih hn fun hm => hparts (by simp [hm])
  | up h ih =>
      rw [resolveParts, if_neg (by simp), if_pos rfl]
      exact ih hn fun hm => hparts (by simp [hm])
  | @folder _ folder _ part rest hp ha h ih =>
      have hne : part ≠ [] := fun he => hparts (by simp [he])
      rw [resolveParts, if_neg (by simp [hne, hp.1]), if_neg hp.2, ha]
      exact ih hn fun hm => hparts (by simp [hm])
  | @file folder part bytes hp ha =>
      have hne : part ≠ [] := fun he => hparts (by simp [he])
      rw [resolveParts, if_neg (by simp [hne, hp.1]), if_neg hp.2, ha]
      rfl
  | @link m n folder _ l' part target rest hp ha hi h ihi ih =>
      have hne : part ≠ [] := fun he => hparts (by simp [he])
      have hlink := henter folder part target m l' hp ha hi (by omega)
      rw [resolveParts, if_neg (by simp [hne, hp.1]), if_neg hp.2, ha]
      simp only [hlink]
      exact ih (by omega) fun hm => hparts (by simp [hm])

/-- What is no folder has an entry. -/
theorem mem_of_at? {t : Tree} {l : Location} {e : Entry} (h : t.at? l = some e) (he : e ≠ .folder) :
    l ∈ t.entries.map Prod.fst := by
  unfold at? at h
  split at h
  · exact absurd (Option.some.inj h).symm he
  · obtain ⟨before, after, hentries, -⟩ := List.lookup_eq_some_iff.mp h
    rw [hentries]
    simp

theorem empty_notMem_partsToFollow (target : Text) : [] ∉ partsToFollow target := by
  unfold partsToFollow
  rw [List.mem_append]
  rintro (h | h)
  · simp at h
  · split at h <;> simp at h

/-- The links that are being followed: different ones, each with a way that is at least as long as what
    is left of it. -/
structure Pending (t : Tree) (n : Nat) (following : List Location) : Prop where
  nodup : following.Nodup
  longer : ∀ x ∈ following, ∃ folder part target k l, x = folder ++ [part] ∧
    t.at? (folder ++ [part]) = some (.link target) ∧
    Leads t k (origin folder target) (partsToFollow target) l ∧ n ≤ k

/-- A link with a shorter way is not among them. -/
theorem Pending.fresh {t : Tree} {n m : Nat} {following : List Location} (h : Pending t n following)
    {folder l : Location} {part target : Text} (ha : t.at? (folder ++ [part]) = some (.link target))
    (hl : Leads t m (origin folder target) (partsToFollow target) l) (hm : m < n) :
    folder ++ [part] ∉ following := by
  intro hmem
  obtain ⟨folder', part', target', k, l', he, ha', hl', hk⟩ := h.longer _ hmem
  obtain ⟨rfl, hpart⟩ := List.append_inj' he rfl
  obtain rfl := List.singleton_inj.mp hpart
  rw [ha] at ha'
  obtain rfl : target = target' := by simpa using ha'
  have hsame := (hl.unique hl').1
  omega

theorem Pending.cons {t : Tree} {n m : Nat} {following : List Location} (h : Pending t n following)
    {folder l : Location} {part target : Text} (ha : t.at? (folder ++ [part]) = some (.link target))
    (hl : Leads t m (origin folder target) (partsToFollow target) l) (hm : m < n) :
    Pending t m ((folder ++ [part]) :: following) where
  nodup := List.nodup_cons.mpr ⟨h.fresh ha hl hm, h.nodup⟩
  longer := by
    intro x hx
    rcases List.mem_cons.mp hx with rfl | hx
    · exact ⟨folder, part, target, m, l, rfl, ha, hl, Nat.le_refl m⟩
    · obtain ⟨folder', part', target', k, l', he, ha', hl', hk⟩ := h.longer x hx
      exact ⟨folder', part', target', k, l', he, ha', hl', by omega⟩

/-- There are no more of them than entries. -/
theorem Pending.length_le {t : Tree} {n : Nat} {following : List Location} (h : Pending t n following) :
    following.length ≤ t.entries.length := by
  have hsub : following ⊆ t.entries.map Prod.fst := by
    intro x hx
    obtain ⟨folder, part, target, k, l, rfl, ha, -, -⟩ := h.longer x hx
    exact mem_of_at? ha (by simp)
  simpa using (List.subperm_of_subset h.nodup hsub).length_le

/-- **A way is found by resolving**, however many of its links are being followed. -/
theorem resolveLinks_of_leads {t : Tree} {bound n : Nat} {following : List Location} {folder l : Location}
    {parts : List Text} (hbound : following.length + bound = t.entries.length)
    (hp : Pending t n following) (h : Leads t n folder parts l) (hparts : [] ∉ parts) :
    resolveLinks t bound following folder parts = (l, true) := by
  induction bound generalizing n following folder l parts with
  | zero =>
      -- one more link would make more links than entries
      refine resolveParts_of_leads (fun folder part target m l _ ha hl hm => ?_) h (Nat.le_refl n) hparts
      have hlen := (hp.cons ha hl hm).length_le
      rw [List.length_cons] at hlen
      omega
  | succ bound ih =>
      refine resolveParts_of_leads (fun folder part target m l _ ha hl hm => ?_) h (Nat.le_refl n) hparts
      have hfresh := hp.fresh ha hl hm
      have hcount : ((folder ++ [part]) :: following).length + bound = t.entries.length := by
        rw [List.length_cons]
        omega
      have hinside := ih hcount (hp.cons ha hl hm) hl (empty_notMem_partsToFollow target)
      rw [if_neg (by simpa using hfresh)]
      have hdots : (if endsWith target ['/'] then [['.']] else []) = [] ∨
          (if endsWith target ['/'] then [['.']] else []) = [(['.'] : Text)] := by
        split
        · exact .inr rfl
        · exact .inl rfl
      cases bound with
      | zero => exact resolveParts_of_filter hdots hinside
      | succ bound => exact resolveParts_of_filter hdots hinside

/-! ## Paths -/

/-- **A path that leads to a file resolves to its location.** -/
theorem resolve_of_find {t : Tree} {p : Path} {l : Location} {bytes : List UInt8}
    (h : t.find p true = .entry l (.file bytes)) (hnull : hasNull p = false) (hparts : [] ∉ p.parts) :
    t.resolve p = .ok l := by
  have hfollow : follow t true maxLinks (t.start p) p.parts = .entry l (.file bytes) := by
    unfold find at h
    split at h
    · simp at h
    · exact h
  obtain ⟨n, hn⟩ := leads_of_follow hfollow
  have hpending : Pending t n [] := ⟨List.nodup_nil, by simp⟩
  have hlinks := resolveLinks_of_leads (Nat.zero_add t.entries.length) hpending hn hparts
  unfold resolve
  rw [if_neg (by simp [hnull]), hlinks]

end HttpFile.Files.Tree
