import HttpFile.Proofs.Files.Rewrite
import HttpFile.Proofs.Text.Newlines
import HttpFile.Proofs.Text.Utf8

/-!
# `HttpFile.Proofs.Files.Kept` — what stays while files and folders are made

Making a folder and writing a file put one entry into the tree: where nothing stood, or in the place of a
file. All else stays, so a path that led to an entry leads there still, and a path that led to nothing
leads to what was put there.

## Contents
- **Entries.** `at?_put_of_ne_nil`; `Entry.Like`, `Tree.Keeps`: a tree that has all that another has.
- **Paths.** `Tree.Keeps.find` for paths that lead to an entry, `Tree.Keeps.find_absent` for those that lead
  to a name that is not there.
- **Writing.** `writeBytes_eq_ok`; `readText_writeText`: what is written is read back.
- **Folders.** `Tree.AddsFolders`, `Tree.Makes`; `makes_makeFolder` for one folder, `makes_makeFolderPath` for
  one with those above it.
-/

namespace HttpFile.Files

open Text

/-! ## Entries -/

/-- An entry that may stand in the place of another: a file for a file, else the same entry. -/
def Entry.Like : Entry → Entry → Prop
  | .file _, .file _ => True
  | a, b => a = b

theorem Entry.Like.refl (e : Entry) : e.Like e := by
  cases e <;> trivial

theorem Entry.Like.trans {a b c : Entry} (h : a.Like b) (h' : b.Like c) : a.Like c := by
  cases a <;> cases b <;> cases c <;> simp_all [Entry.Like]

namespace Tree

/-- Putting an entry below the root changes what stands there and nothing else. -/
theorem at?_put_of_ne_nil {t : Tree} {l : Location} (hl : l ≠ []) (e : Entry) (k : Location) :
    (t.put l e).at? k = if k = l then some e else t.at? k := by
  by_cases hroot : k = []
  · subst hroot
    rw [if_neg (Ne.symm hl)]
    rfl
  · have hlook : ∀ t : Tree, t.at? k = t.entries.lookup k := fun t => if_neg (by simpa using hroot)
    rw [hlook, hlook]
    unfold put
    split
    · next hthere =>
        rw [lookup_replace]
        by_cases hk : k = l
        · subst hk
          rw [if_pos rfl, if_pos rfl]
          obtain ⟨old, hold⟩ := Option.isSome_iff_exists.mp hthere
          rw [hold]
          rfl
        · rw [if_neg hk, if_neg hk]
    · next hnew =>
        rw [List.lookup_append]
        by_cases hk : k = l
        · subst hk
          rw [if_pos rfl, Option.not_isSome_iff_eq_none.mp hnew]
          simp
        · rw [if_neg hk, List.lookup_cons, beq_false_of_ne hk]
          simp

/-- A tree that has all that another has, though maybe with other bytes in the files. -/
structure Keeps (t t' : Tree) : Prop where
  current : t'.current = t.current
  entries : ∀ l e, t.at? l = some e → ∃ e', t'.at? l = some e' ∧ e.Like e'

theorem Keeps.refl (t : Tree) : t.Keeps t := ⟨rfl, fun _ e h => ⟨e, h, .refl e⟩⟩

theorem Keeps.trans {a b c : Tree} (h : a.Keeps b) (h' : b.Keeps c) : a.Keeps c where
  current := h'.current.trans h.current
  entries l e hl := by
    obtain ⟨e₁, hl₁, hlike₁⟩ := h.entries l e hl
    obtain ⟨e₂, hl₂, hlike₂⟩ := h'.entries l e₁ hl₁
    exact ⟨e₂, hl₂, hlike₁.trans hlike₂⟩

theorem Keeps.folder {t t' : Tree} (h : t.Keeps t') {l : Location} (hl : t.at? l = some .folder) :
    t'.at? l = some .folder := by
  obtain ⟨e', hl', hlike⟩ := h.entries l _ hl
  rw [hl', ← (hlike : Entry.folder = e')]

theorem Keeps.link {t t' : Tree} (h : t.Keeps t') {l : Location} {target : Text}
    (hl : t.at? l = some (.link target)) : t'.at? l = some (.link target) := by
  obtain ⟨e', hl', hlike⟩ := h.entries l _ hl
  rw [hl', ← (hlike : Entry.link target = e')]

theorem Keeps.file {t t' : Tree} (h : t.Keeps t') {l : Location} {bytes : List UInt8}
    (hl : t.at? l = some (.file bytes)) : ∃ bytes', t'.at? l = some (.file bytes') := by
  obtain ⟨e', hl', hlike⟩ := h.entries l _ hl
  cases e' with
  | file bytes' => exact ⟨bytes', hl'⟩
  | link | folder => simp [Entry.Like] at hlike

theorem keeps_put_new {t : Tree} {l : Location} (hl : l ≠ []) (hnew : t.at? l = none) (e : Entry) :
    t.Keeps (t.put l e) where
  current := current_put t l e
  entries k old hk := by
    have hkl : k ≠ l := by
      rintro rfl
      rw [hnew] at hk
      simp at hk
    exact ⟨old, by rw [at?_put_of_ne_nil hl, if_neg hkl, hk], .refl old⟩

theorem keeps_put_file {t : Tree} {l : Location} {old : List UInt8} (hl : t.at? l = some (.file old))
    (bytes : List UInt8) : t.Keeps (t.put l (.file bytes)) where
  current := current_put t l _
  entries k e hk := by
    rw [at?_put hl]
    by_cases hkl : k = l
    · subst hkl
      obtain rfl : Entry.file old = e := by rw [hl] at hk; exact Option.some.inj hk
      exact ⟨.file bytes, by rw [if_pos rfl], trivial⟩
    · exact ⟨e, by rw [if_neg hkl, hk], .refl e⟩

/-! ## Paths -/

section Steps

variable {t : Tree} {followLast : Bool} {folder : Location} {part : Text} {rest : List Text}
  (hdot : ¬ part = ['.']) (hup : ¬ part = ['.', '.'])
  (hlong : ¬ maxNameBytes < (Utf8.encode part).length)

include hdot hup hlong

theorem advance_missing (ha : t.at? (folder ++ [part]) = none) :
    advance t followLast folder (part :: rest) =
      .done (if rest.isEmpty then .absent folder part else .refused .missing) := by
  rw [advance, if_neg hdot, if_neg hup, if_neg hlong, ha]

theorem advance_folder (ha : t.at? (folder ++ [part]) = some .folder) :
    advance t followLast folder (part :: rest) = advance t followLast (folder ++ [part]) rest := by
  rw [advance, if_neg hdot, if_neg hup, if_neg hlong, ha]

theorem advance_file {bytes : List UInt8} (ha : t.at? (folder ++ [part]) = some (.file bytes)) :
    advance t followLast folder (part :: rest) =
      .done (if rest.isEmpty then .entry (folder ++ [part]) (.file bytes) else .refused .notAFolder) := by
  rw [advance, if_neg hdot, if_neg hup, if_neg hlong, ha]

theorem advance_link {target : Text} (ha : t.at? (folder ++ [part]) = some (.link target)) :
    advance t followLast folder (part :: rest) =
      if rest.isEmpty && !followLast then .done (.entry (folder ++ [part]) (.link target))
      else .jump folder target rest := by
  rw [advance, if_neg hdot, if_neg hup, if_neg hlong, ha]

end Steps

section Keeps

variable {t t' : Tree} (h : t.Keeps t')

include h

theorem Keeps.advance {followLast : Bool} {folder : Location} {parts : List Text} :
    (∀ l e, Tree.advance t followLast folder parts = .done (.entry l e) →
      ∃ e', Tree.advance t' followLast folder parts = .done (.entry l e') ∧ e.Like e') ∧
    ∀ f target rest, Tree.advance t followLast folder parts = .jump f target rest →
      Tree.advance t' followLast folder parts = .jump f target rest := by
  fun_induction Tree.advance t followLast folder parts with
  | case1 folder =>
      refine ⟨fun l e hdone => ?_, by simp⟩
      cases ha : t.at? folder with
      | none => simp [ha] at hdone
      | some old =>
          obtain ⟨rfl, rfl⟩ : folder = l ∧ old = e := by simpa [ha] using hdone
          obtain ⟨e', ha', hlike⟩ := h.entries _ _ ha
          exact ⟨e', by rw [Tree.advance, ha'], hlike⟩
  | case2 folder rest ih => rwa [Tree.advance, if_pos rfl]
  | case3 folder rest hdot ih => rwa [Tree.advance, if_neg hdot, if_pos rfl]
  | case4 folder part rest => simp
  | case5 folder part rest =>
      refine ⟨fun l e hdone => ?_, by simp⟩
      split at hdone <;> simp at hdone
  | case6 folder part rest hdot hup hlong ha ih =>
      rwa [advance_folder hdot hup hlong (h.folder ha)]
  | case7 folder part rest hdot hup hlong bytes ha =>
      -- a file stays a file, maybe with other bytes
      obtain ⟨bytes', ha'⟩ := h.file ha
      rw [advance_file hdot hup hlong ha']
      refine ⟨fun l e hdone => ?_, by simp⟩
      split at hdone
      · next hlast =>
          obtain ⟨rfl, rfl⟩ : folder ++ [part] = l ∧ Entry.file bytes = e := by simpa using hdone
          exact ⟨.file bytes', by rw [if_pos hlast], trivial⟩
      · simp at hdone
  | case8 folder part rest hdot hup hlong target ha hlast =>
      rw [advance_link hdot hup hlong (h.link ha), if_pos hlast]
      exact ⟨fun l e hdone => ⟨e, hdone, .refl e⟩, by simp⟩
  | case9 folder part rest hdot hup hlong target ha hlast =>
      rw [advance_link hdot hup hlong (h.link ha), if_neg hlast]
      exact ⟨by simp, fun _ _ _ hjump => hjump⟩

theorem Keeps.follow {followLast : Bool} {links : Nat} {folder l : Location} {parts : List Text} {e : Entry}
    (hf : Tree.follow t followLast links folder parts = .entry l e) :
    ∃ e', Tree.follow t' followLast links folder parts = .entry l e' ∧ e.Like e' := by
  induction links generalizing folder parts with
  | zero =>
      unfold Tree.follow at hf ⊢
      split at hf
      · next found ha =>
          obtain ⟨e', ha', hlike⟩ := h.advance.1 l e (hf ▸ ha)
          exact ⟨e', by rw [ha'], hlike⟩
      · simp at hf
  | succ links ih =>
      unfold Tree.follow at hf ⊢
      split at hf
      · next found ha =>
          obtain ⟨e', ha', hlike⟩ := h.advance.1 l e (hf ▸ ha)
          exact ⟨e', by rw [ha'], hlike⟩
      · next f target rest ha =>
          rw [h.advance.2 _ _ _ ha]
          exact ih hf

theorem Keeps.start (p : Path) : t'.start p = t.start p := by
  unfold Tree.start
  rw [h.current]

/-- **A path that led to an entry leads there still.** -/
theorem Keeps.find {p : Path} {followLast : Bool} {l : Location} {e : Entry}
    (hf : t.find p followLast = .entry l e) : ∃ e', t'.find p followLast = .entry l e' ∧ e.Like e' := by
  unfold Tree.find at hf ⊢
  rw [h.start]
  split at hf
  · simp at hf
  · next hshort =>
      rw [if_neg hshort]
      exact h.follow hf

theorem Keeps.find_folder {p : Path} {l : Location} (hf : t.find p true = .entry l .folder) :
    t'.find p true = .entry l .folder := by
  obtain ⟨e', hf', hlike⟩ := h.find hf
  rw [hf', ← (hlike : Entry.folder = e')]

theorem Keeps.target? {p : Path} {l : Location} (hp : t.target? p = some l) : t'.target? p = some l := by
  obtain ⟨bytes, hf⟩ := target?_eq_some.mp hp
  obtain ⟨e', hf', hlike⟩ := h.find hf
  cases e' with
  | file bytes' => exact target?_eq_some.mpr ⟨bytes', hf'⟩
  | link | folder => simp [Entry.Like] at hlike

/-- Parts that lead to a missing name lead to what has been put there. -/
theorem Keeps.advance_absent {followLast : Bool} {folder f : Location} {parts : List Text} {name : Text}
    {e : Entry} (he : t'.at? (f ++ [name]) = some e) (hlink : ∀ target, e ≠ .link target) :
    (Tree.advance t followLast folder parts = .done (.absent f name) →
      Tree.advance t' true folder parts = .done (.entry (f ++ [name]) e)) ∧
    ∀ f' target rest, Tree.advance t followLast folder parts = .jump f' target rest →
      Tree.advance t' true folder parts = .jump f' target rest := by
  fun_induction Tree.advance t followLast folder parts with
  | case1 folder =>
      refine ⟨fun hdone => ?_, by simp⟩
      split at hdone <;> simp at hdone
  | case2 folder rest ih => rwa [Tree.advance, if_pos rfl]
  | case3 folder rest hdot ih => rwa [Tree.advance, if_neg hdot, if_pos rfl]
  | case4 folder part rest => simp
  | case5 folder part rest hdot hup hlong ha =>
      refine ⟨fun hdone => ?_, by simp⟩
      split at hdone
      · next hlast =>
          obtain ⟨rfl, rfl⟩ : folder = f ∧ part = name := by simpa using hdone
          obtain rfl : rest = [] := by simpa using hlast
          -- the name is the last part, so it is the new entry that is found
          cases e with
          | file bytes => rw [advance_file hdot hup hlong he, if_pos hlast]
          | link target => exact absurd rfl (hlink target)
          | folder => rw [advance_folder hdot hup hlong he, Tree.advance, he]
      · simp at hdone
  | case6 folder part rest hdot hup hlong ha ih =>
      rwa [advance_folder hdot hup hlong (h.folder ha)]
  | case7 folder part rest hdot hup hlong bytes ha =>
      refine ⟨fun hdone => ?_, by simp⟩
      split at hdone <;> simp at hdone
  | case8 folder part rest hdot hup hlong target ha hlast => simp
  | case9 folder part rest hdot hup hlong target ha hlast =>
      rw [advance_link hdot hup hlong (h.link ha), if_neg (by simp)]
      exact ⟨by simp, fun _ _ _ hjump => hjump⟩

theorem Keeps.follow_absent {followLast : Bool} {links : Nat} {folder f : Location} {parts : List Text}
    {name : Text} {e : Entry} (he : t'.at? (f ++ [name]) = some e) (hlink : ∀ target, e ≠ .link target)
    (hf : Tree.follow t followLast links folder parts = .absent f name) :
    Tree.follow t' true links folder parts = .entry (f ++ [name]) e := by
  induction links generalizing folder parts with
  | zero =>
      unfold Tree.follow at hf ⊢
      split at hf
      · next found ha => rw [(h.advance_absent he hlink).1 (hf ▸ ha)]
      · simp at hf
  | succ links ih =>
      unfold Tree.follow at hf ⊢
      split at hf
      · next found ha => rw [(h.advance_absent he hlink).1 (hf ▸ ha)]
      · next f' target rest ha =>
          rw [(h.advance_absent he hlink).2 _ _ _ ha]
          exact ih hf

/-- **A path that led to a missing name leads to what has been put there.** -/
theorem Keeps.find_absent {p : Path} {followLast : Bool} {f : Location} {name : Text} {e : Entry}
    (he : t'.at? (f ++ [name]) = some e) (hlink : ∀ target, e ≠ .link target)
    (hf : t.find p followLast = .absent f name) : t'.find p true = .entry (f ++ [name]) e := by
  unfold Tree.find at hf ⊢
  rw [h.start]
  split at hf
  · simp at hf
  · next hshort =>
      rw [if_neg hshort]
      exact h.follow_absent he hlink hf

end Keeps

/-- Nothing stands where a name is missing. -/
theorem at?_of_advance_absent {t : Tree} {followLast : Bool} {folder f : Location} {parts : List Text}
    {name : Text} (h : advance t followLast folder parts = .done (.absent f name)) :
    t.at? (f ++ [name]) = none := by
  fun_induction advance t followLast folder parts with
  | case2 folder rest ih => exact ih h
  | case3 folder rest hdot ih => exact ih h
  | case5 folder part rest hdot hup hlong ha =>
      split at h
      · obtain ⟨rfl, rfl⟩ : folder = f ∧ part = name := by simpa using h
        exact ha
      · simp at h
  | case6 folder part rest hdot hup hlong ha ih => exact ih h
  | case1 | case7 => split at h <;> simp at h
  | case4 | case8 | case9 => simp at h

theorem at?_of_find_absent {t : Tree} {p : Path} {followLast : Bool} {f : Location} {name : Text}
    (h : t.find p followLast = .absent f name) : t.at? (f ++ [name]) = none := by
  have hfollow : ∀ links folder parts, follow t followLast links folder parts = .absent f name →
      t.at? (f ++ [name]) = none := by
    intro links
    induction links with
    | zero =>
        intro folder parts h
        unfold follow at h
        split at h
        · next found ha => exact at?_of_advance_absent (h ▸ ha)
        · simp at h
    | succ links ih =>
        intro folder parts h
        unfold follow at h
        split at h
        · next found ha => exact at?_of_advance_absent (h ▸ ha)
        · exact ih _ _ h
  unfold find at h
  split at h
  · simp at h
  · exact hfollow _ _ _ h

/-! ## Writing -/

/-- **What is written** stands at one location, where there was a file or nothing, and the path leads to it. -/
theorem writeBytes_eq_ok {t t' : Tree} {p : Path} {bytes : List UInt8} (h : t.writeBytes p bytes = .ok t') :
    ∃ l ≠ [], t' = t.put l (.file bytes) ∧ t.Keeps t' ∧ t'.target? p = some l := by
  unfold writeBytes at h
  split at h
  · simp at h
  · split at h
    · next l old hf =>
        obtain rfl : _ = t' := Except.ok.inj h
        have hat := at?_of_find hf
        have hl : l ≠ [] := by
          rintro rfl
          simp [at?] at hat
        refine ⟨l, hl, rfl, keeps_put_file hat _, ?_⟩
        rw [target?_put hat]
        exact target?_eq_some.mpr ⟨old, hf⟩
    · simp at h
    · next f name hf =>
        obtain rfl : _ = t' := Except.ok.inj h
        have hl : f ++ [name] ≠ [] := by simp
        have hkeeps := keeps_put_new hl (at?_of_find_absent hf) (.file bytes)
        refine ⟨_, hl, rfl, hkeeps, target?_eq_some.mpr ⟨bytes, ?_⟩⟩
        exact hkeeps.find_absent (by rw [at?_put_of_ne_nil hl, if_pos rfl]) (by simp) hf
    · simp at h

/-- What is read has its newlines in one spelling. -/
theorem unifyNewlines_readText {t : Tree} {p : Path} {text : Text} (h : t.readText p = .ok text) :
    unifyNewlines text = text := by
  unfold readText at h
  split at h
  · simp at h
  · split at h
    · simp at h
    · rw [← Except.ok.inj h]
      exact unifyNewlines_eq_self (carriage_notMem_unifyNewlines _)

/-- A file that holds a text is read as this text, with its newlines in one spelling. -/
theorem readText_of_readBytes {t : Tree} {p : Path} {text : Text}
    (h : t.readBytes p = .ok (Utf8.encode text)) : t.readText p = .ok (unifyNewlines text) := by
  unfold readText
  simp only [h, Utf8.decode_encode]

/-- **A text that is written is read back**, with its newlines in one spelling. -/
theorem readText_writeText {t t' : Tree} {p : Path} {text : Text} (h : t.writeText p text = .ok t') :
    t'.readText p = .ok (unifyNewlines text) := by
  have hnull : hasNull p = false := by
    by_contra hn
    unfold writeText writeBytes at h
    rw [if_pos (by simpa using hn)] at h
    simp at h
  obtain ⟨l, hl, rfl, -, htarget⟩ := writeBytes_eq_ok h
  obtain ⟨bytes, hf⟩ := target?_eq_some.mp htarget
  obtain rfl : Utf8.encode text = bytes := by
    simpa [at?_put_of_ne_nil hl] using at?_of_find hf
  refine readText_of_readBytes ?_
  unfold readBytes
  rw [if_neg (by simp [hnull]), hf]

/-! ## Folders -/

/-- A tree that has folders where another has nothing, and is the same everywhere else. -/
structure AddsFolders (t t' : Tree) : Prop where
  current : t'.current = t.current
  entries : ∀ l, t'.at? l = t.at? l ∨ (t.at? l = none ∧ t'.at? l = some .folder)

theorem AddsFolders.refl (t : Tree) : t.AddsFolders t := ⟨rfl, fun _ => .inl rfl⟩

theorem AddsFolders.trans {a b c : Tree} (h : a.AddsFolders b) (h' : b.AddsFolders c) :
    a.AddsFolders c where
  current := h'.current.trans h.current
  entries l := by
    rcases h.entries l with hl | ⟨hl, hfolder⟩ <;> rcases h'.entries l with hl' | ⟨hl', hfolder'⟩
    · exact .inl (hl'.trans hl)
    · exact .inr ⟨hl.symm.trans hl', hfolder'⟩
    · exact .inr ⟨hl, hl'.trans hfolder⟩
    · exact .inr ⟨hl, hfolder'⟩

theorem AddsFolders.file_iff {t t' : Tree} (h : t.AddsFolders t') (l : Location) (bytes : List UInt8) :
    t'.at? l = some (.file bytes) ↔ t.at? l = some (.file bytes) := by
  rcases h.entries l with hsame | ⟨hnone, hfolder⟩
  · rw [hsame]
  · simp [hnone, hfolder]

/-- What becomes of a tree in which a folder is made: if anything is new, folders are, and if nothing was
    refused, the path leads to one. -/
structure Makes (t : Tree) (p : Path) (r : Tree × Option FileError) : Prop where
  adds : t.AddsFolders r.1
  found : r.2 = none → ∃ l, r.1.find p true = .entry l .folder

theorem makes_refused (t : Tree) (p : Path) (e : FileError) : t.Makes p (t, some e) := ⟨.refl t, by simp⟩

/-- **A folder that is made** is new, and the path leads to it. -/
theorem makes_makeFolder {t t' : Tree} {p : Path} (h : t.makeFolder p = .ok t') : t.Makes p (t', none) := by
  unfold makeFolder at h
  split at h
  · simp at h
  · split at h
    · simp at h
    · next f name hf =>
        obtain rfl : _ = t' := Except.ok.inj h
        have hl : f ++ [name] ≠ [] := by simp
        have hnew := at?_of_find_absent hf
        have hput := at?_put_of_ne_nil (t := t) hl .folder
        refine ⟨⟨current_put t _ _, fun k => ?_⟩, fun _ => ⟨f ++ [name], ?_⟩⟩
        · by_cases hk : k = f ++ [name]
          · subst hk
            exact .inr ⟨hnew, by rw [hput, if_pos rfl]⟩
          · exact .inl (by rw [hput, if_neg hk])
        · exact (keeps_put_new hl hnew .folder).find_absent (by rw [hput, if_pos rfl]) (by simp) hf
    · simp at h

theorem find_of_isFolder {t : Tree} {p : Path} (h : t.isFolder p = .ok true) :
    ∃ l, t.find p true = .entry l .folder := by
  unfold isFolder ask at h
  split at h
  · simp [Except.map] at h
  · cases hf : t.find p true with
    | entry l e =>
        rw [hf] at h
        cases e with
        | folder => exact ⟨l, rfl⟩
        | file | link => simp [Except.map] at h
    | absent => simp [hf, Except.map] at h
    | refused cause => cases cause <;> simp [hf, Except.map] at h

theorem makes_makeFolderIfMissing (t : Tree) (p : Path) : t.Makes p (t.makeFolderIfMissing p) := by
  unfold makeFolderIfMissing
  split
  · next h => exact makes_makeFolder h
  · split
    · next h => exact ⟨.refl t, fun _ => find_of_isFolder h⟩
    · exact makes_refused t p _

theorem makes_makeFolders (above : Nat) (t : Tree) (p : Path) : t.Makes p (makeFolders above t p) := by
  induction above generalizing t p with
  | zero => exact makes_makeFolderIfMissing t p
  | succ above ih =>
      unfold makeFolders
      split
      · split
        · exact makes_refused t p _
        · -- the folders above come first, and stay if this one is refused
          have hparent := (ih t p.parent).adds
          split
          · next t' hmade =>
              rw [hmade] at hparent
              obtain ⟨hadds, hfound⟩ := makes_makeFolderIfMissing t' p
              exact ⟨hparent.trans hadds, hfound⟩
          · next t' e hmade =>
              rw [hmade] at hparent
              exact ⟨hparent, by simp⟩
      · next h => exact makes_makeFolder h
      · exact makes_makeFolderIfMissing t p

/-- **A folder is made with all that is missing above it.** -/
theorem makes_makeFolderPath {t t' : Tree} {p : Path} {e : Option FileError}
    (h : t.makeFolderPath p = (t', e)) : t.Makes p (t', e) := by
  rw [← h]
  exact makes_makeFolders p.parts.length t p

end Tree

end HttpFile.Files
