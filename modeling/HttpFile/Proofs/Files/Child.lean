import HttpFile.Proofs.Files.Kept
import HttpFile.Proofs.Text.Line

/-!
# `HttpFile.Proofs.Files.Child` — the files of a folder

A text without a slash names an entry of a folder. The path to it leads to the folder's location with the
name behind it, unless a link stands there.

## Contents
- **Names.** `join_ofText`: what a text without a slash names, seen from a folder.
- **Places.** `exists_follow_append`, `target?_child`.
-/

namespace HttpFile.Files

open Text

/-! ## Names -/

theorem Path.ofText_of_notMem {t : Text} (hslash : '/' ∉ t) (hne : t ≠ []) (hdot : t ≠ ['.']) :
    Path.ofText t = ⟨.here, [t]⟩ := by
  have hanchor : Anchor.ofText t = .here := by
    unfold Anchor.ofText
    cases t with
    | nil => rfl
    | cons c t =>
        have hc : c ≠ '/' := fun he => hslash (by simp [he])
        rw [List.takeWhile_cons_of_neg (by simpa using hc)]
        rfl
  unfold Path.ofText Path.partsOf
  rw [hanchor, fieldsAt_eq_singleton hslash]
  simp [hne, hdot]

/-- A text without a slash names an entry of the folder. -/
theorem Path.join_ofText (folder : Path) {t : Text} (hslash : '/' ∉ t) (hne : t ≠ []) (hdot : t ≠ ['.']) :
    folder.join (.ofText t) = folder.child t := by
  rw [ofText_of_notMem hslash hne hdot]
  rfl

namespace Tree

/-! ## Places -/

/-- Parts behind others that lead to a folder are followed from that folder. Whether a link at the end is
    followed makes no difference to the parts in front. -/
theorem advance_append {t : Tree} {followLast : Bool} {folder : Location} {ps qs : List Text}
    (hq : followLast = true ∨ qs ≠ []) :
    (∀ l, advance t true folder ps = .done (.entry l .folder) →
      advance t followLast folder (ps ++ qs) = advance t followLast l qs) ∧
    ∀ f target rest, advance t true folder ps = .jump f target rest →
      advance t followLast folder (ps ++ qs) = .jump f target (rest ++ qs) := by
  fun_induction advance t true folder ps with
  | case1 folder =>
      refine ⟨fun l hdone => ?_, by simp⟩
      split at hdone
      · obtain ⟨rfl, -⟩ : folder = l ∧ _ := by simpa using hdone
        rfl
      · simp at hdone
  | case2 folder rest ih => rwa [List.cons_append, advance, if_pos rfl]
  | case3 folder rest hdot ih => rwa [List.cons_append, advance, if_neg hdot, if_pos rfl]
  | case4 folder part rest => simp
  | case5 folder part rest =>
      refine ⟨fun l hdone => ?_, by simp⟩
      split at hdone <;> simp at hdone
  | case6 folder part rest hdot hup hlong ha ih =>
      rwa [List.cons_append, advance_folder hdot hup hlong ha]
  | case7 folder part rest hdot hup hlong bytes ha =>
      refine ⟨fun l hdone => ?_, by simp⟩
      split at hdone <;> simp at hdone
  | case8 folder part rest hdot hup hlong target ha hlast => simp at hlast
  | case9 folder part rest hdot hup hlong target ha hlast =>
      refine ⟨by simp, fun f target' rest' hjump => ?_⟩
      obtain ⟨rfl, rfl, rfl⟩ : folder = f ∧ target = target' ∧ rest = rest' := by simpa using hjump
      -- parts stand behind the link, or the last link is followed as well
      rw [List.cons_append, advance_link hdot hup hlong ha, if_neg]
      rcases hq with rfl | hq
      · simp
      · simp [hq]

/-- The same through links, some of which may be used up on the way to the folder. -/
theorem exists_follow_append {t : Tree} {followLast : Bool} {links : Nat} {folder l : Location}
    {ps qs : List Text} (h : follow t true links folder ps = .entry l .folder)
    (hq : followLast = true ∨ qs ≠ []) :
    ∃ left, follow t followLast links folder (ps ++ qs) = follow t followLast left l qs := by
  induction links generalizing folder ps with
  | zero =>
      rw [follow] at h
      split at h
      · next found ha =>
          refine ⟨0, ?_⟩
          unfold follow
          rw [(advance_append hq).1 l (h ▸ ha)]
      · simp at h
  | succ links ih =>
      rw [follow] at h
      split at h
      · -- no further link stands on the way
        next found ha =>
          refine ⟨links + 1, ?_⟩
          unfold follow
          rw [(advance_append hq).1 l (h ▸ ha)]
      · next f target rest ha =>
          obtain ⟨left, hleft⟩ := ih h
          refine ⟨left, ?_⟩
          rw [follow, (advance_append hq).2 f target rest ha, ← hleft]
          simp only [List.append_assoc]

/-- **The file that a name in a folder leads to** stands in that folder, unless a link leads elsewhere. -/
theorem target?_child {t : Tree} {folder : Path} {place l : Location} {name : Text}
    (hfolder : t.find folder true = .entry place .folder) (hdot : name ≠ ['.'])
    (hup : name ≠ ['.', '.']) (hl : t.target? (folder.child name) = some l) :
    l = place ++ [name] ∨ ∃ target, t.at? (place ++ [name]) = some (.link target) := by
  obtain ⟨bytes, hchild⟩ := target?_eq_some.mp hl
  unfold find at hfolder hchild
  -- neither path is too long to be followed
  split at hfolder
  · simp at hfolder
  split at hchild
  · simp at hchild
  obtain ⟨left, hleft⟩ : ∃ left, follow t true maxLinks (t.start folder) (folder.parts ++ [name]) =
      follow t true left place [name] := exists_follow_append hfolder (.inl rfl)
  have hname : follow t true left place [name] = .entry l (.file bytes) := hleft.symm.trans hchild
  by_cases hlong : maxNameBytes < (Utf8.encode name).length
  · rw [follow, advance, if_neg hdot, if_neg hup, if_pos hlong] at hname
    simp at hname
  cases ha : t.at? (place ++ [name]) with
  | none =>
      rw [follow, advance_missing hdot hup hlong ha] at hname
      simp at hname
  | some e =>
      cases e with
      | folder =>
          rw [follow, advance_folder hdot hup hlong ha, advance, ha] at hname
          simp at hname
      | file old =>
          rw [follow, advance_file hdot hup hlong ha] at hname
          obtain ⟨rfl, -⟩ : place ++ [name] = l ∧ _ := by simpa using hname
          exact .inl rfl
      | link target => exact .inr ⟨target, rfl⟩

end Tree

end HttpFile.Files
