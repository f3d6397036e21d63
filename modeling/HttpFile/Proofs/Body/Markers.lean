import HttpFile.Proofs.Body.Restore

/-!
# `HttpFile.Proofs.Body.Markers` — guarding a body loses nothing

A body is a word: the characters outside its placeholders are letters, and each placeholder is a hole. The body
itself spells each hole as its placeholder, the guarded body spells it as a marker in quotes. No marker is made of
letters of the word, so a marker is found where its hole is and nowhere else, and putting the placeholders back one
after the other gives the body again, whichever of them comes first.

## Contents
- **Bodies as words.** `bodyWord`; `spell_bodyWord`, `guarded_eq_spell`, `mem_bodyWord`, `nodup_holes`.
- **Places of markers.** `quoted_split`, `name_located`, `existsUnique_name`.
- **Restoring the guarded body.** `putBack_guarded`, `restore_text`.
- **Scanned words.** `Scanned`, `bodyWord_of_scanned`; `KeepsMarkers`, `text_of_keepsMarkers`: guarding once more.
- **Main result.** `restore_guarded`.
-/

namespace HttpFile.Body

open Text Json Template

/-! ## Bodies as words -/

/-- Segments as a word with a hole for each placeholder. -/
def segmentsWord : List Segment → Word (Nat × Text)
  | [] => []
  | .plain t :: rest => letters t ++ segmentsWord rest
  | .placeholder token :: rest => .inr ((labelsOf rest).length, token) :: segmentsWord rest

/-- A body as a word with a hole for each placeholder outside quotes. -/
def bodyWord (t : Text) : Word (Nat × Text) := segmentsWord (segments t)

/-- A body is its word with each placeholder in its hole. -/
theorem spell_bodyWord (t : Text) : spell Prod.snd (bodyWord t) = t := by
  induction t using scan_induction with
  | nil => rfl
  | step c t r hr hsegments ih =>
      rw [bodyWord, hsegments]
      cases hs : segment c t with
      | plain u =>
          rw [hs] at hr
          rw [segmentsWord, spell_append, spell_letters, hr]
          exact congrArg (u ++ ·) ih
      | placeholder token =>
          rw [hs] at hr
          rw [segmentsWord, spell_hole, hr]
          exact congrArg (token ++ ·) ih

/-- A guarded body is its word with a quoted name in each hole. -/
theorem guarded_eq_spell (name : Nat × Text → Text) (t : Text) :
    guarded name t = spell (fun a => quoted (name a)) (bodyWord t) := by
  unfold guarded bodyWord
  induction segments t with
  | nil => rfl
  | cons s segs ih =>
      cases s with
      | plain u => rw [guardedSegments, segmentsWord, spell_append, spell_letters, ih]
      | placeholder token =>
          rw [guardedSegments, segmentsWord, spell_hole, ih]
          simp [quoted]

theorem mem_bodyWord {t : Text} {a : Nat × Text} : Sum.inr a ∈ bodyWord t ↔ a ∈ labels t := by
  unfold bodyWord labels
  induction segments t with
  | nil => simp [segmentsWord, labelsOf]
  | cons s segs ih =>
      cases s with
      | plain u => simpa [segmentsWord, labelsOf, letters] using ih
      | placeholder token => simp [segmentsWord, labelsOf, ih]

theorem holes_letters {α : Type} (u : Text) : (letters u : Word α).filterMap Sum.getRight? = [] := by
  simp [letters, List.filterMap_eq_nil_iff]

/-- The holes are the placeholders, in order. -/
theorem holes_bodyWord (t : Text) : (bodyWord t).filterMap Sum.getRight? = labels t := by
  unfold bodyWord labels
  induction segments t with
  | nil => rfl
  | cons s segs ih =>
      cases s with
      | plain u =>
          rw [segmentsWord, List.filterMap_append, holes_letters]
          exact ih
      | placeholder token => simp [segmentsWord, labelsOf, ih]

/-- Each placeholder has one hole. -/
theorem nodup_holes (t : Text) : ((bodyWord t).filterMap Sum.getRight?).Nodup := by
  rw [holes_bodyWord]
  exact nodup_labels t

/-- No marker is made of letters of the word. -/
theorem name_notIn_bodyWord (t : Text) (a : Nat × Text) : ¬letters (nameOf t a) <:+: bodyWord t := by
  intro hin
  have hspelled := spell_infix (h := Prod.snd) hin
  rw [spell_letters, spell_bodyWord] at hspelled
  exact name_fresh a hspelled

/-! ## Places of markers -/

/-- A name in quotes and another one behind the quotes of the first: the second stands behind the first, or inside. -/
theorem quoted_split {m n u v t : Text} (hm : ∀ c ∈ m, isNameChar c = true) (hne : m ≠ [])
    (h : quoted n ++ t = '"' :: u ++ (m ++ v)) :
    (∃ x, u = n ++ '"' :: x ∧ t = x ++ (m ++ v)) ∨ ∃ r, n = u ++ (m ++ r) ∧ v = r ++ '"' :: t := by
  have hinner : n ++ ('"' :: t) = u ++ (m ++ v) := by simpa [quoted] using h
  rcases List.append_eq_append_iff.mp hinner with ⟨x, rfl, hx⟩ | ⟨x, rfl, hx⟩
  · cases x with
    | nil =>
        cases m with
        | nil => exact absurd rfl hne
        | cons c m =>
            have hc := hm c List.mem_cons_self
            rw [← (List.cons.inj hx).1] at hc
            exact absurd hc (by decide)
    | cons c x =>
        obtain ⟨rfl, ht⟩ := List.cons.inj hx
        exact Or.inl ⟨x, rfl, ht⟩
  · rcases List.append_eq_append_iff.mp hx with ⟨r, rfl, hr⟩ | ⟨r, rfl, hr⟩
    · exact Or.inr ⟨r, rfl, hr⟩
    · cases r with
      | nil => exact Or.inr ⟨[], by simp, hr.symm⟩
      | cons c r =>
          -- the quote behind the first name would be in the second one
          have hc := hm c (by simp)
          rw [← (List.cons.inj hr).1] at hc
          exact absurd hc (by decide)

/-- **A name in quotes is found where its hole is.** -/
theorem name_located {t : Text} {a : Nat × Text} (ha : a ∈ labels t) {w : Word (Nat × Text)}
    (hholes : ∀ b, Sum.inr b ∈ w → b ∈ labels t) (hfree : ¬letters (nameOf t a) <:+: w) {u v : Text}
    (h : spell (fun b => quoted (nameOf t b)) w = u ++ (nameOf t a ++ v)) :
    ∃ x y, w = x ++ .inr a :: y ∧ u = spell (fun b => quoted (nameOf t b)) x ++ ['"'] ∧
      v = '"' :: spell (fun b => quoted (nameOf t b)) y := by
  obtain ⟨hchars, m, hm⟩ := naming_nameOf t a
  have hne : nameOf t a ≠ [] := by simp [hm]
  induction w generalizing u with
  | nil => simp [hm] at h
  | cons s w ih =>
      have hbehind := fun {u' : Text} => @ih (fun b hb => hholes b (List.mem_cons_of_mem s hb))
        (fun hin => hfree (hin.trans (List.suffix_cons s w).isInfix)) u'
      cases s with
      | inl c =>
          cases u with
          | nil =>
              -- a name at a letter would be made of letters
              have hp : nameOf t a <+: spell (fun b => quoted (nameOf t b)) (.inl c :: w) := ⟨v, h.symm⟩
              exact absurd (prefix_spell hchars (fun b _ => fenced_quoted _) hp).isInfix hfree
          | cons d u =>
              rw [spell_letter] at h
              obtain ⟨rfl, hrest⟩ := List.cons.inj h
              obtain ⟨x, y, rfl, rfl, hv⟩ := hbehind hrest
              exact ⟨.inl c :: x, y, rfl, rfl, hv⟩
      | inr b =>
          rw [spell_hole] at h
          cases u with
          | nil =>
              rw [hm] at h
              exact absurd (List.cons.inj h).1 (by decide)
          | cons d u =>
              obtain rfl : '"' = d := (List.cons.inj h).1
              rcases quoted_split hchars hne h with ⟨u, rfl, hrest⟩ | ⟨r, hname, hv⟩
              · obtain ⟨x, y, rfl, rfl, hv⟩ := hbehind hrest
                exact ⟨.inr b :: x, y, rfl, by simp [quoted], hv⟩
              · -- a name inside the name of this hole is that name
                have hin : nameOf t a <:+: nameOf t b := ⟨u, r, by rw [hname, List.append_assoc]⟩
                obtain rfl := eq_of_infix_names ha (hholes b List.mem_cons_self) hin
                have hlength := congrArg List.length hname
                rw [List.length_append, List.length_append] at hlength
                obtain rfl : u = [] := List.length_eq_zero_iff.mp (by omega)
                obtain rfl : r = [] := List.length_eq_zero_iff.mp (by omega)
                exact ⟨[], w, rfl, rfl, hv⟩

/-- A hole that comes once divides a word in one way. -/
theorem hole_unique {α : Type} {w x y x' y' : Word α} {a : α} (hnodup : (w.filterMap Sum.getRight?).Nodup)
    (h : w = x ++ .inr a :: y) (h' : w = x' ++ .inr a :: y') : x' = x ∧ y' = y := by
  have honce : ∀ {u z v : Word α}, w ≠ u ++ .inr a :: (z ++ .inr a :: v) := by
    intro u z v hw
    have hholes : w.filterMap Sum.getRight? =
        u.filterMap Sum.getRight? ++ a :: (z.filterMap Sum.getRight? ++ a :: v.filterMap Sum.getRight?) := by
      rw [hw]
      simp
    rw [hholes] at hnodup
    exact (List.nodup_cons.mp (List.nodup_append.mp hnodup).2.1).1 (by simp)
  rcases List.append_eq_append_iff.mp (h ▸ h') with ⟨z, hz, hrest⟩ | ⟨z, hz, hrest⟩
  · cases z with
    | nil => exact ⟨by simpa using hz, (List.cons.inj hrest).2.symm⟩
    | cons b z =>
        obtain ⟨-, hy⟩ := List.cons.inj hrest
        exact absurd (hy ▸ h) honce
  · cases z with
    | nil => exact ⟨by simpa using hz.symm, (List.cons.inj hrest).2⟩
    | cons b z =>
        obtain ⟨-, hy⟩ := List.cons.inj hrest
        exact absurd (hy ▸ h') honce

/-- A marker stands in the guarded body exactly once. -/
theorem existsUnique_name {t : Text} {a : Nat × Text} (ha : a ∈ labels t) :
    ∃! s : Text × Text, guarded (nameOf t) t = s.1 ++ (nameOf t a ++ s.2) := by
  obtain ⟨x, y, hxy⟩ := List.mem_iff_append.mp (mem_bodyWord.mpr ha)
  rw [guarded_eq_spell]
  refine ⟨(spell (fun b => quoted (nameOf t b)) x ++ ['"'], '"' :: spell (fun b => quoted (nameOf t b)) y), ?_, ?_⟩
  · dsimp only
    rw [hxy, spell_append, spell_hole]
    simp [quoted]
  · rintro ⟨u, v⟩ h
    obtain ⟨x', y', hxy', hu, hv⟩ := name_located ha (fun b => mem_bodyWord.mp) (name_notIn_bodyWord t a) h
    obtain ⟨rfl, rfl⟩ := hole_unique (nodup_holes t) hxy hxy'
    exact Prod.ext hu hv

/-! ## Restoring the guarded body -/

/-- Putting back the placeholders of a guarded body, in any order, gives the body. -/
theorem putBack_guarded {t : Text} {ls : List (Nat × Text)} (hls : ls.Perm (labels t)) :
    putBack t ls (guarded (nameOf t) t) = t := by
  rw [guarded_eq_spell, putBack_word (fun a _ => name_notIn_bodyWord t a) (fun a => mem_bodyWord.mp) hls]
  exact spell_bodyWord t

theorem restore_text (t : Text) : (Guard.of t).restore (Guard.of t).text = t := by
  rw [restore_eq, guard_of]
  exact putBack_guarded (List.Perm.refl _)

/-! ## Scanned words -/

/-- A word that a scan takes apart at its own seams, whatever is put in its holes: holes, characters that open nothing,
    and strings that are closed. -/
inductive Scanned {α : Type} : Word α → Prop
  | nil : Scanned []
  | hole (a : α) {w : Word α} (rest : Scanned w) : Scanned (.inr a :: w)
  | char {c : Char} {w : Word α} (hquote : c ≠ '"') (hbrace : c = '{' → w.head? ≠ some (.inl '{'))
      (rest : Scanned w) : Scanned (.inl c :: w)
  | string {u : Text} {w : Word α} (hclosed : throughQuote? (u ++ ['"']) = some (u ++ ['"']))
      (hsingle : u = [] → w.head? ≠ some (.inl '"')) (rest : Scanned w) : Scanned (letters ('"' :: (u ++ ['"'])) ++ w)
  | block {u : Text} {w : Word α} (hclosed : throughTripleQuote? u = some u) (rest : Scanned w) :
      Scanned (letters ('"' :: '"' :: '"' :: u) ++ w)

/-- Letters are scanned if there is no quote among them and no two braces. -/
theorem Scanned.of_letters {α : Type} {u : Text} {w : Word α} (hquote : ∀ c ∈ u, c ≠ '"')
    (hbraces : ¬['{', '{'] <:+: u) (hopen : u.getLast? = some '{' → w.head? ≠ some (.inl '{')) (rest : Scanned w) :
    Scanned (letters u ++ w) := by
  induction u with
  | nil => exact rest
  | cons c u ih =>
      refine .char (hquote c List.mem_cons_self) ?_ (ih (fun d hd => hquote d (List.mem_cons_of_mem c hd))
        (fun hin => hbraces (hin.trans (List.suffix_cons c u).isInfix)) fun hlast => hopen ?_)
      · rintro rfl hhead
        cases u with
        | nil => exact hopen rfl hhead
        | cons d u =>
            obtain rfl : d = '{' := Sum.inl.inj (Option.some.inj hhead)
            exact hbraces ⟨[], u, rfl⟩
      · rw [List.getLast?_cons, hlast]
        rfl

/-- Placeholders with the number of those behind each. -/
def Numbered : List (Nat × Text) → Prop
  | [] => True
  | a :: rest => a.1 = rest.length ∧ Numbered rest

theorem numbered_labels (t : Text) : Numbered (labels t) := by
  unfold labels
  induction segments t with
  | nil => trivial
  | cons s segs ih =>
      cases s with
      | plain u => exact ih
      | placeholder token => exact ⟨rfl, ih⟩

theorem bodyWord_char {c : Char} {t : Text} (hplaceholder : placeholder? (c :: t) = none)
    (hquoted : quotedRun? (c :: t) = none) : bodyWord (c :: t) = .inl c :: bodyWord t := by
  rw [bodyWord, segments_char hplaceholder hquoted]
  rfl

theorem bodyWord_run {t run r : Text} (h : quotedRun? ('"' :: t) = some run) (hr : '"' :: t = run ++ r) :
    bodyWord ('"' :: t) = letters run ++ bodyWord r := by
  rw [bodyWord, segments_run h hr]
  rfl

theorem bodyWord_token {token : Text} (h : IsToken token) (r : Text) :
    bodyWord (token ++ r) = .inr ((labels r).length, token) :: bodyWord r := by
  rw [bodyWord, segments_token h]
  rfl

section
variable {w : Word (Nat × Text)} (hholes : ∀ a, Sum.inr a ∈ w → IsToken a.2)
include hholes

/-- What a word is spelled as starts with the word's own first character, or with a brace. -/
theorem head_spell {c : Char} (h : (spell Prod.snd w).head? = some c) : w.head? = some (.inl c) ∨ c = '{' := by
  cases w with
  | nil => cases h
  | cons x w =>
      cases x with
      | inl d =>
          obtain rfl : d = c := Option.some.inj h
          exact Or.inl rfl
      | inr a =>
          obtain ⟨u, hu⟩ := (hholes a List.mem_cons_self).ends
          rw [spell_hole, hu] at h
          exact Or.inr (Option.some.inj h).symm

/-- A brace that no other one follows in the word opens no placeholder. -/
theorem placeholder?_brace (hbrace : w.head? ≠ some (.inl '{')) : placeholder? ('{' :: spell Prod.snd w) = none := by
  rw [Option.eq_none_iff_forall_ne_some]
  intro token htoken
  obtain ⟨⟨x, hx, rfl⟩, r, hr⟩ := placeholder?_iff.mp htoken
  have hspelled : spell Prod.snd w = '{' :: (x ++ ['}', '}'] ++ r) := (List.cons.inj hr).2
  cases w with
  | nil => cases hspelled
  | cons y w =>
      cases y with
      | inl d =>
          obtain rfl : d = '{' := (List.cons.inj hspelled).1
          exact hbrace rfl
      | inr a =>
          -- the placeholder of the hole has a second brace, where the first one would have a character of its inside
          obtain ⟨z, -, hz⟩ := hholes a List.mem_cons_self
          rw [spell_hole, hz] at hspelled
          have hsecond := (List.cons.inj hspelled).2
          cases x with
          | nil => exact absurd (List.cons.inj hsecond).1 (by decide)
          | cons d x =>
              have hinside := hx d List.mem_cons_self
              rw [← (List.cons.inj hsecond).1] at hinside
              exact absurd hinside (by decide)

end

/-- **A scanned word is the word of what it is spelled as**, if its holes are placeholders. -/
theorem bodyWord_of_scanned {w : Word (Nat × Text)} (h : Scanned w) (hholes : ∀ a, Sum.inr a ∈ w → IsToken a.2)
    (hnumbered : Numbered (w.filterMap Sum.getRight?)) : bodyWord (spell Prod.snd w) = w := by
  induction h with
  | nil => rfl
  | @hole a w rest ih =>
      obtain ⟨hnumber, hrest⟩ := hnumbered
      have hw := ih (fun b hb => hholes b (List.mem_cons_of_mem _ hb)) hrest
      have hlabels : labels (spell Prod.snd w) = w.filterMap Sum.getRight? := by
        rw [← holes_bodyWord, hw]
      rw [spell_hole, bodyWord_token (hholes a List.mem_cons_self), hw, hlabels, ← hnumber]
  | @char c w hquote hbrace rest ih =>
      have hinside : ∀ a, Sum.inr a ∈ w → IsToken a.2 := fun a ha => hholes a (List.mem_cons_of_mem _ ha)
      have hplaceholder : placeholder? (c :: spell Prod.snd w) = none := by
        by_cases hc : c = '{'
        · subst hc
          exact placeholder?_brace hinside (hbrace rfl)
        · exact placeholder?_ne hc _
      rw [spell_letter, bodyWord_char hplaceholder (quotedRun?_ne hquote _), ih hinside hnumbered]
  | @string u w hclosed hsingle rest ih =>
      have hinside : ∀ a, Sum.inr a ∈ w → IsToken a.2 := fun a ha => hholes a (List.mem_append_right _ ha)
      rw [List.filterMap_append, holes_letters, List.nil_append] at hnumbered
      rw [spell_append, spell_letters]
      have htriple : ∀ x, u ++ '"' :: spell Prod.snd w ≠ '"' :: '"' :: x := by
        intro x hx
        cases u with
        | nil =>
            have hhead : (spell Prod.snd w).head? = some '"' := by
              rw [(List.cons.inj hx).2]
              rfl
            exact (head_spell hinside hhead).elim (hsingle rfl) (by decide)
        | cons d u =>
            obtain rfl : d = '"' := (List.cons.inj hx).1
            have hempty : ['"'] = '"' :: (u ++ ['"']) := Option.some.inj hclosed
            simp at hempty
      have hthrough : throughQuote? (u ++ '"' :: spell Prod.snd w) = some (u ++ ['"']) := by
        obtain ⟨u', r, hrun, -, hbehind⟩ := throughQuote?_spec hclosed
        obtain rfl := List.append_cancel_right hrun
        exact hbehind _
      have hsplit : '"' :: (u ++ ['"']) ++ spell Prod.snd w = '"' :: (u ++ '"' :: spell Prod.snd w) := by simp
      rw [hsplit, bodyWord_run (quotedRun?_single htriple hthrough) hsplit.symm, ih hinside hnumbered]
  | @block u w hclosed rest ih =>
      have hinside : ∀ a, Sum.inr a ∈ w → IsToken a.2 := fun a ha => hholes a (List.mem_append_right _ ha)
      rw [List.filterMap_append, holes_letters, List.nil_append] at hnumbered
      rw [spell_append, spell_letters]
      have hrun := quotedRun?_triple (throughTripleQuote?_append hclosed (spell Prod.snd w))
      exact (bodyWord_run (t := '"' :: '"' :: (u ++ spell Prod.snd w)) hrun rfl).trans
        (congrArg (letters ('"' :: '"' :: '"' :: u) ++ ·) (ih hinside hnumbered))

/-- Where names in quotes leave no blank at the ends of a word, placeholders leave none. -/
theorem trimmed_spell {name : Nat × Text → Text} {w : Word (Nat × Text)} (hholes : ∀ a, Sum.inr a ∈ w → IsToken a.2)
    (h : Trimmed (spell (fun a => quoted (name a)) w)) : Trimmed (spell Prod.snd w) := by
  refine trimmed_iff.mpr ⟨fun c hc => ?_, fun c hc => ?_⟩
  · rcases head_spell hholes hc with hw | rfl
    · obtain ⟨w, rfl⟩ := List.head?_eq_some_iff.mp hw
      exact h.head rfl
    · decide
  · rcases List.eq_nil_or_concat w with rfl | ⟨w, x, rfl⟩
    · cases hc
    · rw [List.concat_eq_append, spell_append] at hc h
      cases x with
      | inl d =>
          obtain rfl : d = c := by simpa using hc
          exact h.last (by simp)
      | inr a =>
          obtain ⟨u, hu⟩ := (hholes a (by simp)).ends
          rw [spell_hole, spell_nil, List.append_nil, hu, ← List.cons_append, ← List.append_assoc,
            List.getLast?_concat] at hc
          obtain rfl : '}' = c := Option.some.inj hc
          decide

/-- The markers of a body stand in a text in their order, each as a string of its own, and in no other place. -/
def KeepsMarkers (t printed : Text) : Prop :=
  ∃ w : Word (Nat × Text), Scanned w ∧ w.filterMap Sum.getRight? = labels t ∧
    (∀ a ∈ labels t, ¬letters (nameOf t a) <:+: w) ∧ spell (fun a => quoted (nameOf t a)) w = printed

/-- **What keeps the markers is guarded the same way again** when the placeholders are back in it, if the markers have
the same stem. -/
theorem text_of_keepsMarkers {t printed q : Text} (h : KeepsMarkers t printed) (hprinted : Trimmed printed)
    (hq : q = strip ((Guard.of t).restore printed)) (hstem : freeStem q = freeStem t) :
    (Guard.of q).text = printed := by
  obtain ⟨w, hscanned, hlabels, hfree, rfl⟩ := h
  have hmem : ∀ a, Sum.inr a ∈ w → a ∈ labels t := by
    intro a ha
    rw [← hlabels]
    exact List.mem_filterMap.mpr ⟨_, ha, rfl⟩
  have htokens : ∀ a, Sum.inr a ∈ w → IsToken a.2 := fun a ha => (isToken_of_mem_labels (hmem a ha)).1
  have hrestored : q = spell Prod.snd w := by
    rw [hq, restore_eq, putBack_word hfree hmem (List.Perm.refl _)]
    exact trimmed_spell htokens hprinted
  have hword : bodyWord q = w := by
    rw [hrestored]
    exact bodyWord_of_scanned hscanned htokens (hlabels ▸ numbered_labels t)
  -- the placeholders are the same in the same order, so they have the same names
  have hsame : labels q = labels t := by
    rw [← holes_bodyWord, hword, hlabels]
  rw [guard_of]
  dsimp only
  rw [guarded_eq_spell, hword]
  refine spell_congr fun a _ => ?_
  unfold nameOf
  rw [hstem, hsame]

/-! ## Main result -/

/-- Any order of the placeholders of a guard is an order of the labels. -/
theorem exists_labels_of_perm {t : Text} {ps : List (Text × Text)} (hps : ps.Perm (Guard.of t).placeholders) :
    ∃ ls : List (Nat × Text), ls.Perm (labels t) ∧ ps = ls.map fun a => (nameOf t a, a.2) := by
  rw [guard_of] at hps
  have hall : List.Forall₂ (fun p (a : Nat × Text) => p = (nameOf t a, a.2))
      ((labels t).map fun a => (nameOf t a, a.2)) (labels t) :=
    List.forall₂_map_left_iff.mpr (List.forall₂_same.mpr fun _ _ => rfl)
  obtain ⟨ls, hls, hperm⟩ := List.perm_comp_forall₂ hps hall
  exact ⟨ls, hperm, List.forall₂_eq_eq_eq ▸ List.forall₂_map_right_iff.mpr hls⟩

/-- **Guarding a body loses nothing.** The markers are told from each other and from the body, each stands in the
guarded body once, and putting the placeholders back in any order gives the body. -/
theorem restore_guarded (t : Text) :
    (Guard.of t).restore (Guard.of t).text = t ∧
      ((Guard.of t).placeholders.map Prod.fst).Nodup ∧
      (∀ p ∈ (Guard.of t).placeholders, ∀ q ∈ (Guard.of t).placeholders, p.1 <:+: q.1 → p = q) ∧
      (∀ p ∈ (Guard.of t).placeholders, ¬p.1 <:+: t ∧
        ∃! s : Text × Text, (Guard.of t).text = s.1 ++ (p.1 ++ s.2)) ∧
      ∀ ps, ps.Perm (Guard.of t).placeholders →
        ({ Guard.of t with placeholders := ps }).restore (Guard.of t).text = t := by
  -- what is put back, names that differ, none within another, each new and found once, any order
  refine ⟨?_, ?_, ?_, ?_, ?_⟩
  · exact restore_text t
  · rw [guard_of]
    dsimp only
    rw [List.map_map]
    refine (nodup_labels t).map_on fun a ha b hb hab => ?_
    have hname : nameOf t a = nameOf t b := hab
    exact eq_of_infix_names ha hb (hname ▸ List.infix_refl _)
  · rw [guard_of]
    refine List.forall_mem_map.mpr fun a ha => List.forall_mem_map.mpr fun b hb hin => ?_
    rw [eq_of_infix_names ha hb hin]
  · rw [guard_of]
    exact List.forall_mem_map.mpr fun a ha => ⟨name_fresh a, existsUnique_name ha⟩
  · intro ps hps
    obtain ⟨ls, hls, rfl⟩ := exists_labels_of_perm hps
    rw [guard_of]
    unfold Guard.restore Guard.restoreIn
    rw [List.foldl_map]
    exact putBack_guarded hls

end HttpFile.Body
