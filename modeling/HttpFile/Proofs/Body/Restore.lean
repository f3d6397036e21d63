import HttpFile.Proofs.Body.Guarded
import HttpFile.Proofs.Json.Layout
import HttpFile.Proofs.Body.Stem
import HttpFile.Proofs.Text.Replace

/-!
# `HttpFile.Proofs.Body.Restore` — putting placeholders back

The markers of a body share a stem that does not occur in it, and no marker stands inside another one. So in a
layout whose texts hold no marker, the quoted markers stand where the holes are and nowhere else, and replacing them
one after the other puts each placeholder into its hole.

## Contents
- **Markers.** `naming_nameOf`, `eq_of_marker_infix`; `name_notIn_token`.
- **Names in words.** `Fenced`, `prefix_spell`, `infix_spell`, `replaceFrom_spell`; `infix_of_infix_replaceFrom`.
- **Restoring.** `putBack`, `name_notIn_restore`; `putBack_word`: in any order.
- **Wide texts.** `reading_restoreWide`, `restore_word`.
-/

namespace HttpFile.Body

open Text Json Template

/-! ## Markers -/

theorem exists_stemAt (t : Text) : ∃ k, freeStem t = stemAt k := ⟨_, rfl⟩

/-- What follows the start that all markers share. -/
def markerTail (k i : Nat) : Text := "TTPFMT".toList ++ (ofNat k ++ '_' :: (ofNat i ++ ['_', '_']))

theorem marker_eq (k i : Nat) : marker (stemAt k) i = '_' :: '_' :: 'H' :: markerTail k i := by
  unfold marker
  rw [List.append_assoc, stemAt_append]
  rfl

theorem markerTail_chars {k i : Nat} {c : Char} (h : c ∈ markerTail k i) : isNameChar c = true ∧ c ≠ 'H' := by
  have hfixed : ∀ c ∈ "TTPFMT__".toList, isNameChar c = true ∧ c ≠ 'H' := by decide
  have hdigit : ∀ {n : Nat} {c : Char}, c ∈ ofNat n → isNameChar c = true ∧ c ≠ 'H' := by
    intro n c hc
    have hd := isDigit_of_mem_ofNat hc
    refine ⟨by simp [isNameChar, Char.isAlphanum, hd], ?_⟩
    rintro rfl
    exact absurd hd (by decide)
  unfold markerTail at h
  rcases List.mem_append.mp h with h | h
  · exact hfixed c (List.mem_append_left _ h)
  · rcases List.mem_append.mp h with h | h
    · exact hdigit h
    · rcases List.mem_cons.mp h with rfl | h
      · exact ⟨by decide, by decide⟩
      · rcases List.mem_append.mp h with h | h
        · exact hdigit h
        · exact hfixed c (List.mem_append_right "TTPFMT".toList h)

/-- **A marker that stands inside a marker with the same stem is that marker.** -/
theorem eq_of_marker_infix {k i j : Nat} (h : marker (stemAt k) i <:+: marker (stemAt k) j) : i = j := by
  rw [marker_eq, marker_eq] at h
  have htail : markerTail k i <+: markerTail k j := by
    rcases List.infix_cons_iff.mp h with h | h
    · simpa using h
    rcases List.infix_cons_iff.mp h with h | h
    · simp at h
    rcases List.infix_cons_iff.mp h with h | h
    · simp at h
    have hin : 'H' ∈ markerTail k j := h.subset (by simp)
    exact absurd rfl (markerTail_chars hin).2
  obtain ⟨u, hu⟩ := htail
  unfold markerTail at hu
  rw [List.append_assoc, List.append_assoc] at hu
  have hnumeral := (numeral_unique (u := ofNat i ++ ['_', '_'] ++ u) (List.append_cancel_left hu)).2
  rw [List.append_assoc] at hnumeral
  exact (numeral_unique (u := '_' :: u) (v := ['_']) hnumeral).1

theorem naming_nameOf (t : Text) : Naming (nameOf t) := by
  intro a
  obtain ⟨k, hk⟩ := exists_stemAt t
  unfold nameOf
  rw [hk, marker_eq]
  refine ⟨fun c hc => ?_, _, rfl⟩
  rcases List.mem_cons.mp hc with rfl | hc
  · decide
  rcases List.mem_cons.mp hc with rfl | hc
  · decide
  rcases List.mem_cons.mp hc with rfl | hc
  · decide
  exact (markerTail_chars hc).1

section
variable {t : Text} {a b : Nat × Text}

theorem label_unique {segs : List Segment} (ha : a ∈ labelsOf segs) (hb : b ∈ labelsOf segs) (h : a.1 = b.1) :
    a = b := by
  have hnodup : ((labelsOf segs).map Prod.fst).Nodup :=
    List.pairwise_map.mpr ((pairwise_labelsOf segs).imp fun hlt => (Nat.ne_of_lt hlt).symm)
  exact List.inj_on_of_nodup_map hnodup ha hb h

theorem nodup_labels (t : Text) : (labels t).Nodup :=
  (pairwise_labelsOf _).imp fun hlt he => absurd (he ▸ hlt) (Nat.lt_irrefl _)

/-- No name of a placeholder stands inside the name of another one. -/
theorem eq_of_infix_names (ha : a ∈ labels t) (hb : b ∈ labels t) (h : nameOf t a <:+: nameOf t b) : a = b := by
  obtain ⟨k, hk⟩ := exists_stemAt t
  unfold nameOf at h
  rw [hk] at h
  have hnumbers := eq_of_marker_infix h
  have hla := label_lt ha
  have hlb := label_lt hb
  refine label_unique ha hb ?_
  unfold labels at hnumbers
  omega

/-- No name stands in the text that it is made for. -/
theorem name_fresh (a : Nat × Text) : ¬nameOf t a <:+: t := fun h =>
  freeStem_fresh t ((List.prefix_append _ _ |>.trans (List.prefix_append _ _)).isInfix.trans h)

theorem name_notIn_token (ha : a ∈ labels t) (b : Nat × Text) : ¬nameOf t b <:+: a.2 := fun h =>
  name_fresh b (h.trans (isToken_of_mem_labels ha).2)

end

/-! ## Names in words -/

/-- A text whose first and last characters are in no name. -/
def Fenced (t : Text) : Prop :=
  ∃ c u d, t = c :: (u ++ [d]) ∧ isNameChar c = false ∧ isNameChar d = false

/-- A name in quotes. -/
def quoted (m : Text) : Text := '"' :: (m ++ ['"'])

theorem fenced_quoted (m : Text) : Fenced (quoted m) := ⟨'"', m, '"', rfl, rfl, rfl⟩

theorem IsToken.fenced {token : Text} (h : IsToken token) : Fenced token := by
  obtain ⟨u, rfl⟩ := h.ends
  exact ⟨'{', u, '}', rfl, rfl, rfl⟩

section
variable {α : Type} {h : α → Text} {w : Word α}

variable {m : Text} (hm : ∀ c ∈ m, isNameChar c = true)
include hm

/-- A name that a spelled word starts with is made of characters of the word. -/
theorem prefix_spell (hw : ∀ a, Sum.inr a ∈ w → Fenced (h a)) (hp : m <+: spell h w) : letters m <+: w := by
  induction w generalizing m with
  | nil =>
      obtain rfl := List.prefix_nil.mp hp
      exact List.nil_prefix
  | cons x w ih =>
      cases m with
      | nil => exact List.nil_prefix
      | cons c m =>
          cases x with
          | inl d =>
              rw [spell_letter] at hp
              obtain ⟨rfl, hrest⟩ := List.cons_prefix_cons.mp hp
              refine List.cons_prefix_cons.mpr ⟨rfl, ?_⟩
              exact ih (fun e he => hm e (List.mem_cons_of_mem c he))
                (fun a ha => hw a (List.mem_cons_of_mem _ ha)) hrest
          | inr a =>
              obtain ⟨d, u, e, ha, hd, -⟩ := hw a List.mem_cons_self
              rw [spell_hole, ha, List.cons_append] at hp
              have hc := hm c List.mem_cons_self
              rw [(List.cons_prefix_cons.mp hp).1, hd] at hc
              exact absurd hc (by decide)

/-- A name that reaches out of a fenced text starts behind it. -/
theorem prefix_of_fenced {x t : Text} {d : Char} (hd : isNameChar d = false) (hp : m <+: x ++ [d] ++ t) :
    m <+: x ++ [d] := by
  rcases List.prefix_or_prefix_of_prefix hp (List.prefix_append (x ++ [d]) t) with hp | hp
  · exact hp
  · have hc := hm d (hp.subset (by simp))
    rw [hd] at hc
    exact absurd hc (by decide)

end

section
variable {α : Type} {h : α → Text} {w : Word α} {m : Text} (hm : ∀ c ∈ '_' :: m, isNameChar c = true)
include hm

/-- A name in a spelled word stands among the characters of the word or inside what is spelled for a hole. -/
theorem infix_spell (hw : ∀ a, Sum.inr a ∈ w → Fenced (h a)) (hin : '_' :: m <:+: spell h w) :
    letters ('_' :: m) <:+: w ∨ ∃ a, Sum.inr a ∈ w ∧ '_' :: m <:+: h a := by
  induction w with
  | nil => cases List.infix_nil.mp hin
  | cons x w ih =>
      have hbehind : '_' :: m <:+: spell h w →
          letters ('_' :: m) <:+: x :: w ∨ ∃ a, Sum.inr a ∈ x :: w ∧ '_' :: m <:+: h a := by
        intro hin
        rcases ih (fun a ha => hw a (List.mem_cons_of_mem x ha)) hin with hin | ⟨a, ha, hin⟩
        · exact Or.inl (hin.trans (List.suffix_cons x w).isInfix)
        · exact Or.inr ⟨a, List.mem_cons_of_mem x ha, hin⟩
      cases x with
      | inl d =>
          rcases List.infix_cons_iff.mp hin with hp | hin
          · exact Or.inl (prefix_spell (h := h) (w := .inl d :: w) hm hw hp).isInfix
          · exact hbehind hin
      | inr a =>
          obtain ⟨c, u, d, ha, -, hd⟩ := hw a List.mem_cons_self
          have hsep : ∀ x ∈ [d], x ∉ '_' :: m := by
            intro x hx hin
            have hname := hm x hin
            rw [List.mem_singleton.mp hx, hd] at hname
            exact absurd hname (by decide)
          -- what is spelled for a hole ends in a character that no name has
          have hsplit : spell h (.inr a :: w) = (c :: u) ++ ([d] ++ spell h w) := by
            rw [spell_hole, ha]
            simp
          rw [hsplit] at hin
          rcases infix_of_infix_around hsep (List.cons_ne_nil _ _) hin with hin | hin
          · refine Or.inr ⟨a, List.mem_cons_self, ?_⟩
            rw [ha]
            exact hin.trans (List.prefix_append (c :: u) [d]).isInfix
          · exact hbehind hin

/-- A quoted name starts nowhere in a fenced text that does not hold the name, if none starts behind. -/
theorem not_prefix_of_fenced {t v x y : Text} (ht : Fenced t) (hnot : ¬ '_' :: m <:+: t)
    (hbehind : ¬ '_' :: m ++ ['"'] <+: v) (hxy : t = x ++ y) (hy : y ≠ []) :
    ¬quoted ('_' :: m) <+: y ++ v := by
  intro hp
  obtain ⟨c, u, d, ht, -, hd⟩ := ht
  cases y with
  | nil => exact hy rfl
  | cons e y =>
      obtain ⟨-, hp⟩ := List.cons_prefix_cons.mp hp
      by_cases hend : y = []
      · rw [hend] at hp
        exact hbehind hp
      · -- the name cannot reach past the last character of the text, so the text holds it
        obtain ⟨z, f, rfl⟩ : ∃ z f, y = z ++ [f] :=
          ⟨y.dropLast, y.getLast hend, (List.dropLast_append_getLast hend).symm⟩
        have hlast : (c :: u) ++ [d] = (x ++ e :: z) ++ [f] := by
          rw [List.cons_append, ← ht, hxy]
          simp
        obtain rfl : d = f := (List.cons.inj (List.append_inj' hlast rfl).2).1
        have hinner := prefix_of_fenced hm hd ((List.prefix_append _ _).trans hp)
        rw [hxy] at hnot
        exact hnot ((hinner.isInfix.trans (List.suffix_cons e _).isInfix).trans
          (List.suffix_append x _).isInfix)

/-- **Replacing a quoted name puts the replacement into its holes** and leaves everything else as it is. -/
theorem replaceFrom_spell {token : Text} (hfree : ¬letters ('_' :: m) <:+: w)
    (hw : ∀ a, Sum.inr a ∈ w → h a = quoted ('_' :: m) ∨ Fenced (h a) ∧ ¬ '_' :: m <:+: h a) :
    replaceFrom (quoted ('_' :: m)) token 0 (spell h w) =
      spell (fun a => if h a = quoted ('_' :: m) then token else h a) w := by
  have hfenced : ∀ a, Sum.inr a ∈ w → Fenced (h a) := by
    intro a ha
    rcases hw a ha with hq | ⟨hf, -⟩
    · rw [hq]
      exact fenced_quoted _
    · exact hf
  induction w with
  | nil => rfl
  | cons x w ih =>
      have hbehind := ih (fun hin => hfree (hin.trans (List.suffix_cons x w).isInfix))
        (fun a ha => hw a (List.mem_cons_of_mem x ha)) fun a ha => hfenced a (List.mem_cons_of_mem x ha)
      -- behind a quote that belongs to no name no name starts
      have hquote : ¬ '_' :: m ++ ['"'] <+: spell h w := fun hp =>
        hfree ((prefix_spell hm (fun a ha => hfenced a (List.mem_cons_of_mem x ha))
          ((List.prefix_append _ _).trans hp)).isInfix.trans (List.suffix_cons x w).isInfix)
      cases x with
      | inl c =>
          rw [spell_letter, spell_letter, ← hbehind]
          exact replaceFrom_miss fun hp => hquote (List.cons_prefix_cons.mp hp).2
      | inr a =>
          rw [spell_hole, spell_hole, ← hbehind]
          rcases hw a List.mem_cons_self with hq | ⟨hf, hnot⟩
          · rw [hq, if_pos rfl]
            exact replaceFrom_hit (List.cons_ne_nil _ _)
          · have hne : h a ≠ quoted ('_' :: m) := by
              intro he
              exact hnot (he ▸ ⟨['"'], ['"'], by simp [quoted]⟩)
            rw [if_neg hne]
            exact replaceFrom_pass fun x y hxy hy => not_prefix_of_fenced hm hf hnot hquote hxy hy

end

/-- Replacing a pattern spells a word anew: its holes are where the pattern was found, and its letters hold none. -/
theorem exists_word_replaceFrom {pattern : Text} (hne : pattern ≠ []) (token u : Text) :
    ∃ w : Word Unit, spell (fun _ => pattern) w = u ∧ replaceFrom pattern token 0 u = spell (fun _ => token) w ∧
      ¬letters pattern <:+: w := by
  induction hn : u.length using Nat.strongRecOn generalizing u with
  | ind n ih =>
      subst hn
      cases u with
      | nil => exact ⟨[], rfl, rfl, fun hin => hne (List.map_eq_nil_iff.mp (List.infix_nil.mp hin))⟩
      | cons c t =>
          by_cases hp : pattern <+: c :: t
          · obtain ⟨rest, hrest⟩ := hp
            have hshort : rest.length < (c :: t).length := by
              rw [← hrest, List.length_append]
              have := List.length_pos_of_ne_nil hne
              omega
            obtain ⟨w, hw, hreplaced, hfree⟩ := ih rest.length hshort rest rfl
            refine ⟨.inr () :: w, by rw [spell_hole, hw, hrest], ?_, fun hin => ?_⟩
            · rw [← hrest, replaceFrom_hit hne, hreplaced, spell_hole]
            · rcases List.infix_cons_iff.mp hin with hin | hin
              · -- a hole is no letter
                cases pattern with
                | nil => exact hne rfl
                | cons d p => exact absurd (List.cons_prefix_cons.mp hin).1 (by simp)
              · exact hfree hin
          · obtain ⟨w, rfl, hreplaced, hfree⟩ := ih t.length (Nat.lt_succ_self _) t rfl
            refine ⟨.inl c :: w, rfl, by rw [replaceFrom_miss hp, hreplaced, spell_letter], fun hin => ?_⟩
            rcases List.infix_cons_iff.mp hin with hin | hin
            · obtain ⟨x, hx⟩ := hin
              refine hp ⟨spell (fun _ => pattern) x, ?_⟩
              have hspelled := congrArg (spell fun _ => pattern) hx
              rwa [spell_append, spell_letters] at hspelled
            · exact hfree hin

/-- A name in a text with something replaced was there before, and is not what was replaced. -/
theorem infix_of_infix_replaceFrom {pattern token u m : Text} (hm : ∀ c ∈ '_' :: m, isNameChar c = true)
    (htoken : Fenced token) (hnot : ¬ '_' :: m <:+: token) (hne : pattern ≠ [])
    (hin : '_' :: m <:+: replaceFrom pattern token 0 u) : '_' :: m <:+: u ∧ pattern ≠ '_' :: m := by
  obtain ⟨w, rfl, hreplaced, hfree⟩ := exists_word_replaceFrom hne token u
  rw [hreplaced] at hin
  rcases infix_spell hm (fun _ _ => htoken) hin with hletters | ⟨_, _, hin⟩
  · refine ⟨?_, ?_⟩
    · have hspelled := spell_infix (h := fun _ => pattern) hletters
      rwa [spell_letters] at hspelled
    · rintro rfl
      exact hfree hletters
  · exact absurd hin hnot

/-! ## Restoring -/

theorem escape_name {c : Char} (hc : isNameChar c = true) : escape false c = [c] := by
  rcases escape_cases c with ⟨e, he, -⟩ | ⟨hlow, -⟩ | ⟨-, -, -, hescape⟩
  · rw [isNameChar_of_simpleEscape he] at hc
    cases hc
  · exact absurd hlow (Nat.not_lt_of_le (toNat_of_isNameChar hc))
  · exact hescape

theorem escaped_name {m : Text} (hm : ∀ c ∈ m, isNameChar c = true) : escaped false (letters m) = letters m := by
  rw [escaped_letters, List.flatMap_congr fun c hc => escape_name (hm c hc), List.flatMap_singleton']

theorem writeString_name {m : Text} (hm : ∀ c ∈ m, isNameChar c = true) :
    writeString false (letters m) = letters (quoted m) := by
  unfold writeString quoted
  rw [escaped_name hm, letters_cons, letters_append]
  rfl

/-- The quotes around a text are in no name. -/
theorem infix_quoted {m t : Text} (hm : ∀ c ∈ '_' :: m, isNameChar c = true) (h : '_' :: m <:+: quoted t) :
    '_' :: m <:+: t := by
  have hletters : letters (α := Empty) ('_' :: m) <:+: letters (quoted t) := h.map Sum.inl
  rw [quoted, letters_cons _ (t ++ _), letters_append] at hletters
  exact infix_letters (infix_between_quotes hm hletters)

/-- What stands for a placeholder once those in the list are put back. -/
def shown (t : Text) (done : List (Nat × Text)) (a : Nat × Text) : Text :=
  if a ∈ done then a.2 else quoted (nameOf t a)

section
variable {t : Text} {a b : Nat × Text}

/-- What stands for a placeholder holds no name of another one. -/
theorem name_notIn_shown (ha : a ∈ labels t) (hb : b ∈ labels t) {done : List (Nat × Text)}
    (h : b ≠ a ∨ b ∈ done) : Fenced (shown t done b) ∧ ¬nameOf t a <:+: shown t done b := by
  unfold shown
  split
  · exact ⟨(isToken_of_mem_labels hb).1.fenced, name_notIn_token hb a⟩
  · next hdone =>
      refine ⟨fenced_quoted _, fun hin => h.resolve_right hdone ?_⟩
      obtain ⟨hchars, m, hm⟩ := naming_nameOf t a
      rw [hm] at hchars hin
      have hinner := infix_quoted hchars hin
      rw [← hm] at hinner
      exact (eq_of_infix_names ha hb hinner).symm

end

/-- The placeholders of a list are put back one after the other. -/
def putBack (t : Text) (ls : List (Nat × Text)) (u : Text) : Text :=
  ls.foldl (fun u a => replaceAll (nameOf t a) a.2 (replaceAll (quoted (nameOf t a)) a.2 u)) u

theorem restore_eq (t u : Text) : (Guard.of t).restore u = putBack t (labels t) u := by
  rw [guard_of, Guard.restore, Guard.restoreIn, List.foldl_map]
  rfl

theorem putBack_cons (t u : Text) (a : Nat × Text) (ls : List (Nat × Text)) :
    putBack t (a :: ls) u =
      putBack t ls (replaceFrom (nameOf t a) a.2 0 (replaceFrom (quoted (nameOf t a)) a.2 0 u)) := by
  obtain ⟨-, m, hm⟩ := naming_nameOf t a
  have hname : nameOf t a ≠ [] := hm ▸ List.cons_ne_nil _ _
  have hquotes : quoted (nameOf t a) ≠ [] := List.cons_ne_nil _ _
  rw [← replaceAll_eq hname, ← replaceAll_eq hquotes]
  rfl

/-- Once its placeholder is put back a name is gone, and no other one makes it come again. -/
theorem name_notIn_putBack {t u : Text} {ls : List (Nat × Text)} {a : Nat × Text} (hls : ∀ b ∈ ls, b ∈ labels t)
    (h : a ∈ ls ∨ ¬nameOf t a <:+: u) : ¬nameOf t a <:+: putBack t ls u := by
  induction ls generalizing u with
  | nil => exact h.resolve_left List.not_mem_nil
  | cons b ls ih =>
      have hb := hls b List.mem_cons_self
      rw [putBack_cons]
      refine ih (fun c hc => hls c (List.mem_cons_of_mem b hc)) ?_
      by_cases ha : a ∈ ls
      · exact Or.inl ha
      refine Or.inr fun hin => ?_
      obtain ⟨hchars, m, hm⟩ := naming_nameOf t a
      have hfenced := (isToken_of_mem_labels hb).1.fenced
      have hnot := name_notIn_token hb a
      rw [hm] at hchars hin hnot
      have hname : nameOf t b ≠ [] := by
        obtain ⟨-, n, hn⟩ := naming_nameOf t b
        exact hn ▸ List.cons_ne_nil _ _
      have hquotes : quoted (nameOf t b) ≠ [] := List.cons_ne_nil _ _
      obtain ⟨hin, hne⟩ := infix_of_infix_replaceFrom hchars hfenced hnot hname hin
      -- putting a placeholder back brings in no name, so this one was there before
      have hbefore := (infix_of_infix_replaceFrom hchars hfenced hnot hquotes hin).1
      rw [← hm] at hbefore hne
      rcases h with hmem | hfresh
      · rcases List.mem_cons.mp hmem with rfl | hmem
        · exact hne rfl
        · exact ha hmem
      · exact hfresh hbefore

/-- **Nothing that is restored holds a marker**, whatever it held before. -/
theorem name_notIn_restore {t : Text} {a : Nat × Text} (ha : a ∈ labels t) (u : Text) :
    ¬nameOf t a <:+: (Guard.of t).restore u := by
  rw [restore_eq]
  exact name_notIn_putBack (fun _ hb => hb) (Or.inl ha)

section
variable {t : Text} {w : Word (Nat × Text)} (hfree : ∀ a ∈ labels t, ¬letters (nameOf t a) <:+: w)
  (hholes : ∀ a, Sum.inr a ∈ w → a ∈ labels t)
include hfree hholes

/-- The quoted name stands for its placeholder alone. -/
theorem replaceFrom_quoted_name {done : List (Nat × Text)} {a : Nat × Text} (ha : a ∈ labels t) (hdone : a ∉ done) :
    replaceFrom (quoted (nameOf t a)) a.2 0 (spell (shown t done) w) = spell (shown t (a :: done)) w := by
  have hstart : shown t done a = quoted (nameOf t a) := if_neg hdone
  have hother : ∀ b, Sum.inr b ∈ w → b ≠ a → Fenced (shown t done b) ∧ ¬nameOf t a <:+: shown t done b :=
    fun b hb hba => name_notIn_shown ha (hholes b hb) (Or.inl hba)
  obtain ⟨hchars, m, hm⟩ := naming_nameOf t a
  have hword := hfree a ha
  have hreplaced : replaceFrom (quoted (nameOf t a)) a.2 0 (spell (shown t done) w) =
      spell (fun b => if shown t done b = quoted (nameOf t a) then a.2 else shown t done b) w := by
    rw [hm] at hchars hword hother hstart ⊢
    refine replaceFrom_spell hchars hword fun b hb => ?_
    by_cases hba : b = a
    · exact Or.inl (hba ▸ hstart)
    · exact Or.inr (hother b hb hba)
  rw [hreplaced]
  refine spell_congr fun b hb => ?_
  by_cases hba : b = a
  · subst hba
    rw [if_pos hstart]
    exact (if_pos List.mem_cons_self).symm
  · have hne : shown t done b ≠ quoted (nameOf t a) := fun he =>
      (hother b hb hba).2 (he ▸ ⟨['"'], ['"'], by simp [quoted]⟩)
    rw [if_neg hne]
    unfold shown
    simp [hba]

/-- One placeholder is put back. -/
theorem restore_step {done : List (Nat × Text)} {a : Nat × Text} (ha : a ∈ labels t) (hdone : a ∉ done) :
    replaceFrom (nameOf t a) a.2 0 (replaceFrom (quoted (nameOf t a)) a.2 0 (spell (shown t done) w)) =
      spell (shown t (a :: done)) w := by
  have hagain : ∀ b, Sum.inr b ∈ w →
      Fenced (shown t (a :: done) b) ∧ ¬nameOf t a <:+: shown t (a :: done) b := by
    intro b hb
    refine name_notIn_shown ha (hholes b hb) ?_
    by_cases hba : b = a
    · exact Or.inr (hba ▸ List.mem_cons_self)
    · exact Or.inl hba
  have hword := hfree a ha
  rw [replaceFrom_quoted_name hfree hholes ha hdone]
  -- no bare name is left
  obtain ⟨hchars, m, hm⟩ := naming_nameOf t a
  rw [hm] at hchars hword hagain ⊢
  refine replaceFrom_absent fun hin => ?_
  rcases infix_spell hchars (fun b hb => (hagain b hb).1) hin with hin | ⟨b, hb, hin⟩
  · exact hword hin
  · exact (hagain b hb).2 hin

theorem putBack_shown {rest done : List (Nat × Text)} (hrest : ∀ a ∈ rest, a ∈ labels t ∧ a ∉ done)
    (hnodup : rest.Nodup) :
    putBack t rest (spell (shown t done) w) = spell (shown t (rest.reverse ++ done)) w := by
  induction rest generalizing done with
  | nil => rfl
  | cons a rest ih =>
      obtain ⟨ha, hdone⟩ := hrest a List.mem_cons_self
      obtain ⟨hnotin, hnodup⟩ := List.nodup_cons.mp hnodup
      rw [putBack_cons, restore_step hfree hholes ha hdone, ih (fun b hb => ?_) hnodup, List.reverse_cons, List.append_assoc]
      · rfl
      · obtain ⟨hlabel, hb'⟩ := hrest b (List.mem_cons_of_mem a hb)
        refine ⟨hlabel, fun hin => ?_⟩
        rcases List.mem_cons.mp hin with rfl | hin
        · exact hnotin hb
        · exact hb' hin

/-- **Putting back all placeholders, in any order, restores a word that holds no name of its own.** -/
theorem putBack_word {ls : List (Nat × Text)} (hls : ls.Perm (labels t)) :
    putBack t ls (spell (fun a => quoted (nameOf t a)) w) = spell Prod.snd w := by
  have hrest : ∀ a ∈ ls, a ∈ labels t ∧ a ∉ ([] : List (Nat × Text)) := fun a ha =>
    ⟨hls.subset ha, List.not_mem_nil⟩
  have hall := putBack_shown hfree hholes hrest (hls.nodup_iff.mpr (nodup_labels t))
  have hbefore : spell (fun a => quoted (nameOf t a)) w = spell (shown t []) w := spell_congr fun a _ => rfl
  rw [hbefore, hall]
  exact spell_congr fun a ha => if_pos (by simpa using hls.symm.subset (hholes a ha))

end

/-! ## Wide texts -/

theorem toNat_of_mem_nameOf {t : Text} {a : Nat × Text} {c : Char} (hc : c ∈ nameOf t a) : c.toNat < 0xE000 :=
  isNameChar_lt ((naming_nameOf t a).1 c hc)

/-- **Restoring and reading go together**, for no half is in a marker, nor what stands in for one. -/
theorem reading_restoreWide (φ : StandIn) (t : Text) (w : Wide) :
    reading φ ((Guard.of t).restoreWide w) = (Guard.of t).restore (reading φ w) := by
  have hquoted : ∀ m : Text, (∀ c ∈ m, c.toNat < 0xE000) → ∀ c ∈ quoted m, c.toNat < 0xE000 := by
    intro m hm
    exact List.forall_mem_cons.mpr
      ⟨by decide, List.forall_mem_append.mpr ⟨hm, List.forall_mem_singleton.mpr (by decide)⟩⟩
  rw [guard_of]
  unfold Guard.restore Guard.restoreWide Guard.restoreIn
  rw [List.foldl_map, List.foldl_map]
  induction labels t generalizing w with
  | nil => rfl
  | cons a ls ih =>
      have hname : ∀ c ∈ nameOf t a, c.toNat < 0xE000 := fun _ hc => toNat_of_mem_nameOf hc
      rw [List.foldl_cons, List.foldl_cons, ih, reading_replaceAll φ hname]
      exact congrArg (fun u => List.foldl _ (replaceAll (nameOf t a) a.2 u) ls)
        (reading_replaceAll φ (hquoted _ hname) a.2 w)

theorem name_notIn_restoreWide {t : Text} {a : Nat × Text} (ha : a ∈ labels t) (w : Wide) :
    ¬letters (nameOf t a) <:+: (Guard.of t).restoreWide w := by
  intro hin
  obtain ⟨φ, -, -⟩ := exists_standIns
  have hread : reading φ (letters (nameOf t a)) <:+: reading φ ((Guard.of t).restoreWide w) := hin.map _
  rw [reading_letters, reading_restoreWide] at hread
  exact name_notIn_restore ha _ hread

section
variable {α : Type} {w : Word (α ⊕ Half)}

/-- A word with characters for its halves. -/
def standing (φ : StandIn) (w : Word (α ⊕ Half)) : Word α :=
  w.map (Sum.elim .inl (Sum.elim .inr fun x => .inl (φ.char x)))

theorem spell_standing (φ : StandIn) (h : α → Text) (w : Word (α ⊕ Half)) :
    spell h (standing φ w) = spell (spelled φ h) w := by
  induction w with
  | nil => rfl
  | cons x w ih =>
      rcases x with c | a | x
      · exact congrArg (c :: ·) ih
      · exact congrArg (h a ++ ·) ih
      · exact congrArg (φ.char x :: ·) ih

theorem mem_standing {φ : StandIn} {a : α} (h : Sum.inr a ∈ standing φ w) : Sum.inr (.inl a) ∈ w := by
  obtain ⟨x, hx, hxa⟩ := List.mem_map.mp h
  rcases x with c | b | x
  · cases hxa
  · obtain rfl := Sum.inr.inj hxa
    exact hx
  · cases hxa

theorem infix_standing {φ : StandIn} {m : Text} (hm : ∀ c ∈ m, c.toNat < 0xE000)
    (h : letters m <:+: standing φ w) : letters m <:+: w := by
  have hletters : letters m = (letters m : Word (α ⊕ Half)).map
      (Sum.elim Sum.inl (Sum.elim .inr fun x => .inl (φ.char x))) := by
    unfold letters
    rw [List.map_map]
    rfl
  rw [hletters] at h
  refine infix_of_infix_map (fun x y hy hxy => ?_) h
  obtain ⟨c, hc, rfl⟩ := List.mem_map.mp hy
  rcases x with d | a | x
  · exact congrArg Sum.inl (Sum.inl.inj hxy)
  · cases hxy
  · exact absurd (Sum.inl.inj hxy) (φ.ne_of_lt (hm c hc) x)

end

section
variable {t : Text} {d : Template (Nat × Text)}
  (hfresh : ∀ a ∈ labels t, ∀ s ∈ d.texts, ¬letters (nameOf t a) <:+: s)
include hfresh

theorem name_notIn_word {a : Nat × Text} (ha : a ∈ labels t) : ¬letters (nameOf t a) <:+: word 0 d := by
  obtain ⟨hchars, m, hm⟩ := naming_nameOf t a
  rw [hm] at hchars ⊢
  intro hin
  obtain ⟨s, hs, hms⟩ := infix_word hchars hin
  exact hfresh a ha s hs (hm ▸ hms)

/-- **A layout in which no text holds a marker is restored** to the layout with the placeholders. -/
theorem restore_word (hholes : ∀ a ∈ d.holes, a ∈ labels t) :
    (Guard.of t).restoreWide (filled (fun a => letters (quoted (nameOf t a))) (word 0 d)) =
      filled (fun a => letters a.2) (word 0 d) := by
  refine eq_of_readings fun φ => ?_
  rw [reading_restoreWide, reading_filled, reading_filled, ← spell_standing, ← spell_standing, restore_eq]
  refine putBack_word (fun a ha hin => ?_) (fun a ha => hholes a (hole_mem_word (mem_standing ha))) (List.Perm.refl _)
  exact name_notIn_word hfresh ha (infix_standing (fun _ hc => toNat_of_mem_nameOf hc) hin)

end

end HttpFile.Body
