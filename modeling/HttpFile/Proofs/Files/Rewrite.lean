import HttpFile.Files.Tree

/-!
# `HttpFile.Proofs.Files.Rewrite` — writing to a file that is there

Writing to a file that is there changes its bytes and nothing else: every path leads where it led
before. So only the paths that lead to this file see a difference.

## Contents
- **Entries.** `at?_put`: one entry is new.
- **Finding.** `Found.rewrite`, `find_put`: what paths lead to, before and after.
- **Files.** `target?`: the location of the file at a path; `readText_put`, `writeBytes_of_target`,
  `writeWide_of_target`.
-/

namespace HttpFile.Files

open Text

/-! ## Entries -/

theorem lookup_replace (entries : List (Location × Entry)) (l k : Location) (e : Entry) :
    (entries.map fun (x, old) => if x = l then (x, e) else (x, old)).lookup k =
      if k = l then (entries.lookup k).map fun _ => e else entries.lookup k := by
  induction entries with
  | nil => simp
  | cons x xs ih =>
      obtain ⟨x, old⟩ := x
      have hhead : (if x = l then (x, e) else (x, old)) = (x, if x = l then e else old) := by
        split <;> rfl
      show ((if x = l then (x, e) else (x, old)) :: _).lookup k = _
      rw [hhead, List.lookup_cons, List.lookup_cons]
      by_cases hk : k = x
      · subst hk
        by_cases hl : k = l <;> simp [hl]
      · simp only [beq_eq_false_iff_ne.mpr hk]
        exact ih

namespace Tree

/-- Where an entry stands, putting another one there changes this entry only. -/
theorem at?_put {t : Tree} {l : Location} {bytes : List UInt8} (h : t.at? l = some (.file bytes))
    (e : Entry) (k : Location) : (t.put l e).at? k = if k = l then some e else t.at? k := by
  unfold at? at h
  split at h
  · simp at h
  · next hne =>
      have hput : (t.put l e).entries = t.entries.map fun (x, old) => if x = l then (x, e) else (x, old) := by
        unfold put
        rw [if_pos (by simp [h])]
      unfold at?
      rw [hput, lookup_replace]
      by_cases hk : k = l
      · subst hk
        rw [if_neg hne, if_pos rfl, if_pos rfl, h]
        rfl
      · rw [if_neg hk, if_neg hk]

theorem current_put (t : Tree) (l : Location) (e : Entry) : (t.put l e).current = t.current := by
  unfold put
  split <;> rfl

end Tree

/-! ## Finding -/

/-- What is found once the file at a location has other bytes. -/
def Found.rewrite (l : Location) (bytes : List UInt8) : Found → Found
  | .entry k (.file old) => .entry k (.file (if k = l then bytes else old))
  | found => found

namespace Tree

/-- The same where following a path stops. -/
def Stop.rewrite (l : Location) (bytes : List UInt8) : Stop → Stop
  | .done found => .done (found.rewrite l bytes)
  | .jump folder target rest => .jump folder target rest

section Put

variable {t : Tree} {l : Location} {old : List UInt8} (hl : t.at? l = some (.file old))
  (bytes : List UInt8)

include hl

theorem advance_put (followLast : Bool) (folder : Location) (parts : List Text) :
    advance (t.put l (.file bytes)) followLast folder parts =
      (advance t followLast folder parts).rewrite l bytes := by
  induction parts generalizing folder with
  | nil =>
      rw [advance, advance, at?_put hl]
      by_cases hf : folder = l
      · subst hf
        rw [if_pos rfl, hl]
        simp [Stop.rewrite, Found.rewrite]
      · rw [if_neg hf]
        cases t.at? folder with
        | none => rfl
        | some e => cases e <;> simp [Stop.rewrite, Found.rewrite, hf]
  | cons part parts ih =>
      rw [advance, advance]
      by_cases hdot : part = ['.']
      · rw [if_pos hdot, if_pos hdot, ih]
      rw [if_neg hdot, if_neg hdot]
      by_cases hup : part = ['.', '.']
      · rw [if_pos hup, if_pos hup, ih]
      rw [if_neg hup, if_neg hup]
      by_cases hlong : maxNameBytes < (Utf8.encode part).length
      · rw [if_pos hlong, if_pos hlong]
        rfl
      rw [if_neg hlong, if_neg hlong, at?_put hl]
      -- at the location a file stays a file, and everything else is as it was
      by_cases hf : folder ++ [part] = l
      · rw [if_pos hf, hf, hl]
        cases parts with
        | nil => simp [Stop.rewrite, Found.rewrite]
        | cons => rfl
      · rw [if_neg hf]
        cases t.at? (folder ++ [part]) with
        | none => cases parts <;> rfl
        | some e =>
            cases e with
            | folder => exact ih _
            | file b => cases parts <;> simp [Stop.rewrite, Found.rewrite, hf]
            | link target =>
                simp only
                split <;> rfl

theorem follow_put (followLast : Bool) (links : Nat) (folder : Location) (parts : List Text) :
    follow (t.put l (.file bytes)) followLast links folder parts =
      (follow t followLast links folder parts).rewrite l bytes := by
  induction links generalizing folder parts with
  | zero =>
      unfold follow
      rw [advance_put hl]
      cases advance t followLast folder parts <;> rfl
  | succ links ih =>
      unfold follow
      rw [advance_put hl]
      cases advance t followLast folder parts with
      | done found => rfl
      | jump f target rest => exact ih _ _

/-- **Every path leads where it led**, and to the new bytes if it led to the file. -/
theorem find_put (p : Path) (followLast : Bool) :
    (t.put l (.file bytes)).find p followLast = (t.find p followLast).rewrite l bytes := by
  have hstart : (t.put l (.file bytes)).start p = t.start p := by
    unfold start
    rw [current_put]
  unfold find
  rw [hstart, follow_put hl]
  split <;> rfl

end Put

/-! ## Files -/

/-- The location of the file that a path leads to. -/
def target? (t : Tree) (p : Path) : Option Location :=
  match t.find p true with
  | .entry l (.file _) => some l
  | _ => none

theorem target?_eq_some {t : Tree} {p : Path} {l : Location} :
    t.target? p = some l ↔ ∃ bytes, t.find p true = .entry l (.file bytes) := by
  unfold target?
  constructor
  · intro h
    split at h
    · next k bytes hf => exact ⟨bytes, by rw [hf, Option.some.inj h]⟩
    · simp at h
  · rintro ⟨bytes, h⟩
    rw [h]

/-- What is found as a file stands at its location. -/
theorem at?_of_advance {t : Tree} {followLast : Bool} {folder l : Location} {parts : List Text}
    {e : Entry} (h : advance t followLast folder parts = .done (.entry l e)) : t.at? l = some e := by
  fun_induction advance t followLast folder parts with
  | case1 folder =>
      split at h
      · next e' ha =>
          obtain ⟨rfl, rfl⟩ : folder = l ∧ e' = e := by simpa using h
          exact ha
      · simp at h
  | case2 folder rest ih => exact ih h
  | case3 folder rest hdot ih => exact ih h
  | case4 folder part rest => simp at h
  | case5 folder part rest =>
      split at h <;> simp at h
  | case6 folder part rest hdot hup hlong ha ih => exact ih h
  | case7 folder part rest hdot hup hlong bytes ha =>
      split at h
      · obtain ⟨rfl, rfl⟩ : folder ++ [part] = l ∧ Entry.file bytes = e := by simpa using h
        exact ha
      · simp at h
  | case8 folder part rest hdot hup hlong target ha hlast =>
      obtain ⟨rfl, rfl⟩ : folder ++ [part] = l ∧ Entry.link target = e := by simpa using h
      exact ha
  | case9 => simp at h

theorem at?_of_follow {t : Tree} {followLast : Bool} {links : Nat} {folder l : Location}
    {parts : List Text} {e : Entry} (h : follow t followLast links folder parts = .entry l e) :
    t.at? l = some e := by
  induction links generalizing folder parts with
  | zero =>
      unfold follow at h
      split at h
      · next found ha => exact at?_of_advance (h ▸ ha)
      · simp at h
  | succ links ih =>
      unfold follow at h
      split at h
      · next found ha => exact at?_of_advance (h ▸ ha)
      · exact ih h

theorem at?_of_find {t : Tree} {p : Path} {followLast : Bool} {l : Location} {e : Entry}
    (h : t.find p followLast = .entry l e) : t.at? l = some e := by
  unfold find at h
  split at h
  · simp at h
  · exact at?_of_follow h

theorem target?_put {t : Tree} {l : Location} {old : List UInt8} (hl : t.at? l = some (.file old))
    (bytes : List UInt8) (q : Path) : (t.put l (.file bytes)).target? q = t.target? q := by
  unfold target?
  rw [find_put hl]
  cases t.find q true with
  | entry k e => cases e <;> rfl
  | _ => rfl

/-- A path to another file leads to what it led to. -/
theorem find_put_of_ne {t : Tree} {l : Location} {old : List UInt8} (hl : t.at? l = some (.file old))
    (bytes : List UInt8) {q : Path} (hq : t.target? q ≠ some l) :
    (t.put l (.file bytes)).find q true = t.find q true := by
  rw [find_put hl]
  cases hf : t.find q true with
  | entry k e =>
      cases e with
      | file b =>
          have hk : k ≠ l := fun he => hq (target?_eq_some.mpr ⟨b, by rw [hf, he]⟩)
          simp [Found.rewrite, hk]
      | _ => rfl
  | _ => rfl

/-- What is read from a path depends on what it leads to only. -/
theorem readText_congr {t t' : Tree} {p : Path} (h : t'.find p true = t.find p true) :
    t'.readText p = t.readText p := by
  unfold readText readBytes
  rw [h]

/-- A file that is read can be written. -/
theorem target?_of_readText {t : Tree} {p : Path} {text : Text} (h : t.readText p = .ok text) :
    hasNull p = false ∧ ∃ l, t.target? p = some l := by
  unfold readText readBytes at h
  cases hnull : hasNull p with
  | true => simp [hnull] at h
  | false =>
      refine ⟨rfl, ?_⟩
      simp only [hnull] at h
      cases hf : t.find p true with
      | entry l e =>
          cases e with
          | file b => exact ⟨l, target?_eq_some.mpr ⟨b, hf⟩⟩
          | _ => simp [hf] at h
      | _ => simp [hf] at h

theorem writeBytes_of_target {t : Tree} {p : Path} {l : Location} (hnull : hasNull p = false)
    (h : t.target? p = some l) (bytes : List UInt8) : t.writeBytes p bytes = .ok (t.put l (.file bytes)) := by
  obtain ⟨old, hf⟩ := target?_eq_some.mp h
  unfold writeBytes
  rw [if_neg (by simp [hnull]), hf]

/-- A text with halves of characters leaves an empty file. -/
theorem writeWide_of_target {t : Tree} {p : Path} {l : Location} (hnull : hasNull p = false)
    (h : t.target? p = some l) (w : Wide) :
    t.writeWide p w = (t.put l (.file (encodedWide w)), if (Word.text? w).isSome then .ok () else .error .halves) := by
  unfold writeWide
  rw [writeBytes_of_target hnull h]

end Tree

end HttpFile.Files
