import HttpFile.Body.Placeholder
import HttpFile.Json.Reader
import HttpFile.Json.Writer
import HttpFile.Proofs.Log
import HttpFile.Proofs.Text.Line
import HttpFile.Proofs.Text.Wide

/-!
# `HttpFile.Proofs.Json.Spelling` — what stands between the quotes of a string

A string may be spelled in many ways. What is read between two quotes depends on nothing behind the second one,
a string that is written reads back, and a scan for the closing quote that knows of backslashes only finds the
same one. Halves of characters are spelled by code units; they are written as they are, like any character that
could stand in for them.

## Contents
- **Code units.** `CodeUnit`, `codeUnit?_iff`; `escapeSequence_cases`, `escapeSequence_unit`,
  `escapeSequence_pair`.
- **Spellings.** `Spells`; `string_iff`: reading a string is finding its spelling.
- **The closing quote.** `Spells.throughQuote?_eq`.
- **Writing.** `spells_written`; `reading_writeString`: whatever stands in for halves.
- **Fragments.** `Spells.exists_letters`: without code units there are no halves; `Spells.isInfix_spelled`: every
  character but an escaped one is spelled as itself; `infix_of_infix_written`.
-/

namespace HttpFile.Json

open Text

/-! ## Code units -/

/-- Four hexadecimal digits of a code unit. -/
def CodeUnit (u : Text) (n : Nat) : Prop := u.length = 4 ∧ hexValue? u = some n

theorem CodeUnit.cases {u : Text} {n : Nat} (h : CodeUnit u n) : ∃ a b c d, u = [a, b, c, d] := by
  obtain ⟨hlength, -⟩ := h
  match u, hlength with
  | [a, b, c, d], _ => exact ⟨a, b, c, d, rfl⟩

theorem CodeUnit.unique {u : Text} {n m : Nat} (h : CodeUnit u n) (h' : CodeUnit u m) : n = m :=
  Option.some.inj (h.2.symm.trans h'.2)

theorem codeUnit?_iff {t after : Text} {n : Nat} :
    codeUnit? t = some (n, after) ↔ ∃ u, CodeUnit u n ∧ t = u ++ after ∧ after ≠ [] := by
  constructor
  · intro h
    unfold codeUnit? at h
    split at h
    · next a b c d next rest =>
        obtain ⟨m, hm, heq⟩ := Option.map_eq_some_iff.mp h
        injection heq with hn hafter
        subst hn hafter
        exact ⟨[a, b, c, d], ⟨rfl, hm⟩, rfl, List.cons_ne_nil _ _⟩
    · simp at h
  · rintro ⟨u, hu, rfl, hafter⟩
    obtain ⟨a, b, c, d, rfl⟩ := hu.cases
    cases after with
    | nil => exact absurd rfl hafter
    | cons next rest =>
        show (hexValue? [a, b, c, d]).map (·, next :: rest) = _
        rw [hu.2]
        rfl

section
variable {opening rest u v x : Text} {d : Char ⊕ Half} {n m width : Nat}

/-- No code unit that closes a pair is read behind one that opens it. -/
def Alone (n : Nat) (x : Text) : Prop :=
  isHighSurrogate n = true → ∀ v m y, x = '\\' :: 'u' :: (v ++ y) → y ≠ [] → CodeUnit v m →
    isLowSurrogate m = false

theorem unicodeEscape_cases (h : unicodeEscape ('u' :: rest) = .ok (d, width)) :
    (∃ u n x, rest = u ++ x ∧ CodeUnit u n ∧ Alone n x ∧ d = ofCode n ∧ width = 6) ∨
      ∃ u v n m x, rest = u ++ '\\' :: 'u' :: (v ++ x) ∧ CodeUnit u n ∧ CodeUnit v m ∧
        isHighSurrogate n = true ∧ isLowSurrogate m = true ∧ d = .inl (pairChar n m) ∧ width = 12 := by
  unfold unicodeEscape at h
  rw [List.drop_succ_cons, List.drop_zero] at h
  split at h
  · simp at h
  · next high after hunit =>
      obtain ⟨u, hu, rfl, -⟩ := codeUnit?_iff.mp hunit
      split at h
      · next more =>
          split at h
          · next hhigh =>
              rw [Bool.and_eq_true] at hhigh
              split at h
              · simp at h
              · next low after hlow =>
                  obtain ⟨v, hv, rfl, -⟩ := codeUnit?_iff.mp hlow
                  split at h
                  · next hpair =>
                      injection h with h
                      injection h with hd hwidth
                      exact Or.inr ⟨u, v, high, low, after, rfl, hu, hv, hhigh.1, hpair, hd.symm, hwidth.symm⟩
                  · next hpair =>
                      injection h with h
                      injection h with hd hwidth
                      -- another escape follows, but it is no second half
                      refine Or.inl ⟨u, high, _, rfl, hu, ?_, hd.symm, hwidth.symm⟩
                      intro _ v' m y hx _ hv'
                      have hsplit : v ++ after = v' ++ y := by simpa using hx
                      obtain ⟨rfl, -⟩ := List.append_inj hsplit (hv.1.trans hv'.1.symm)
                      rw [← hv.unique hv']
                      simpa using hpair
          · next hhigh =>
              injection h with h
              injection h with hd hwidth
              refine Or.inl ⟨u, high, _, rfl, hu, ?_, hd.symm, hwidth.symm⟩
              intro hn v' m y hx hy hv'
              obtain rfl : more = v' ++ y := by simpa using hx
              have hpos : 0 < y.length := List.length_pos_iff.mpr hy
              have hlength := hv'.1
              exact absurd (by simp [hn]; omega) hhigh
      · next hafter =>
          injection h with h
          injection h with hd hwidth
          refine Or.inl ⟨u, high, after, rfl, hu, ?_, hd.symm, hwidth.symm⟩
          intro _ v' m y hx _ _
          exact absurd hx (hafter (v' ++ y))

/-- What an escape that is read can be. -/
theorem escapeSequence_cases (h : escapeSequence opening rest = .ok (d, width)) :
    (∃ e c x, rest = e :: x ∧ simpleEscape? e = some c ∧ d = .inl c ∧ width = 2) ∨
      (∃ u n x, rest = 'u' :: (u ++ x) ∧ CodeUnit u n ∧ Alone n x ∧ d = ofCode n ∧ width = 6) ∨
      ∃ u v n m x, rest = 'u' :: (u ++ '\\' :: 'u' :: (v ++ x)) ∧ CodeUnit u n ∧ CodeUnit v m ∧
        isHighSurrogate n = true ∧ isLowSurrogate m = true ∧ d = .inl (pairChar n m) ∧ width = 12 := by
  unfold escapeSequence at h
  split at h
  · simp at h
  · rcases unicodeEscape_cases h with ⟨u, n, x, rfl, hunit⟩ | ⟨u, v, n, m, x, rfl, hpair⟩
    · exact Or.inr (Or.inl ⟨u, n, x, rfl, hunit⟩)
    · exact Or.inr (Or.inr ⟨u, v, n, m, x, rfl, hpair⟩)
  · next e x hne =>
      split at h
      · next c hc =>
          injection h with h
          injection h with hd hwidth
          exact Or.inl ⟨e, c, x, rfl, hc, hd.symm, hwidth.symm⟩
      · simp at h

theorem simpleEscape?_u : simpleEscape? 'u' = none := rfl

theorem escapeSequence_simple {e c : Char} (h : simpleEscape? e = some c) :
    escapeSequence opening (e :: x) = .ok (.inl c, 2) := by
  have hu : e ≠ 'u' := by
    rintro rfl
    rw [simpleEscape?_u] at h
    exact absurd h (Option.some_ne_none c).symm
  unfold escapeSequence
  split
  · next he => exact absurd he (List.cons_ne_nil _ _)
  · next he => exact absurd (List.cons.inj he).1 hu
  · next he =>
      injection he with he hx
      subst he hx
      rw [h]

theorem escapeSequence_unit (hu : CodeUnit u n) (hx : x ≠ [])
    (halone : isHighSurrogate n = true → ∀ more, x = '\\' :: 'u' :: more →
      ∃ v m y, more = v ++ y ∧ y ≠ [] ∧ CodeUnit v m ∧ isLowSurrogate m = false) :
    escapeSequence opening ('u' :: (u ++ x)) = .ok (ofCode n, 6) := by
  have hunit : codeUnit? (u ++ x) = some (n, x) := codeUnit?_iff.mpr ⟨u, hu, rfl, hx⟩
  show unicodeEscape ('u' :: (u ++ x)) = _
  unfold unicodeEscape
  rw [List.drop_succ_cons, List.drop_zero, hunit]
  dsimp only
  split
  · next more =>
      split
      · next hhigh =>
          rw [Bool.and_eq_true] at hhigh
          obtain ⟨v, m, y, rfl, hy, hv, hlow⟩ := halone hhigh.1 more rfl
          rw [codeUnit?_iff.mpr ⟨v, hv, rfl, hy⟩]
          dsimp only
          rw [if_neg (by simp [hlow])]
      · rfl
  · rfl

theorem escapeSequence_pair (hu : CodeUnit u n) (hv : CodeUnit v m) (hhigh : isHighSurrogate n = true)
    (hlow : isLowSurrogate m = true) (hx : x ≠ []) :
    escapeSequence opening ('u' :: (u ++ '\\' :: 'u' :: (v ++ x))) = .ok (.inl (pairChar n m), 12) := by
  have hunit : codeUnit? (u ++ '\\' :: 'u' :: (v ++ x)) = some (n, '\\' :: 'u' :: (v ++ x)) :=
    codeUnit?_iff.mpr ⟨u, hu, rfl, List.cons_ne_nil _ _⟩
  have hlong : 4 < (v ++ x).length := by
    rw [List.length_append, hv.1]
    exact Nat.lt_add_of_pos_right (List.length_pos_iff.mpr hx)
  show unicodeEscape ('u' :: (u ++ '\\' :: 'u' :: (v ++ x))) = _
  unfold unicodeEscape
  rw [List.drop_succ_cons, List.drop_zero, hunit]
  dsimp only
  split
  · next more hmore =>
      obtain rfl : v ++ x = more := (List.cons.inj (List.cons.inj hmore).2).2
      have hpair : (isHighSurrogate n && decide (4 < (v ++ x).length)) = true := by
        rw [hhigh, decide_eq_true hlong]
        rfl
      rw [if_pos hpair, codeUnit?_iff.mpr ⟨v, hv, rfl, hx⟩]
      dsimp only
      rw [if_pos hlow]
  · next hne => exact absurd rfl (hne (v ++ x))

end

/-! ## Spellings -/

/-- A text stands for another one between the quotes of a string. -/
inductive Spells : Text → Wide → Prop
  | nil : Spells [] []
  | plain {c : Char} {w : Text} {s : Wide} (hquote : c ≠ '"') (hescape : c ≠ '\\') (hcontrol : 0x1F < c.toNat)
      (rest : Spells w s) : Spells (c :: w) (.inl c :: s)
  | escape {e c : Char} {w : Text} {s : Wide} (h : simpleEscape? e = some c) (rest : Spells w s) :
      Spells ('\\' :: e :: w) (.inl c :: s)
  | unit {u w : Text} {s : Wide} {n : Nat} (hu : CodeUnit u n)
      (halone : isHighSurrogate n = true → ∀ v m x, w = '\\' :: 'u' :: (v ++ x) → CodeUnit v m →
        isLowSurrogate m = false)
      (rest : Spells w s) : Spells ('\\' :: 'u' :: (u ++ w)) (ofCode n :: s)
  | pair {u v w : Text} {s : Wide} {n m : Nat} (hu : CodeUnit u n) (hv : CodeUnit v m)
      (hhigh : isHighSurrogate n = true) (hlow : isLowSurrogate m = true) (rest : Spells w s) :
      Spells ('\\' :: 'u' :: (u ++ '\\' :: 'u' :: (v ++ w))) (.inl (pairChar n m) :: s)

/-- A text of characters that stand for themselves in a string. -/
theorem spells_plain {t : Text} (h : ∀ c ∈ t, c ≠ '"' ∧ c ≠ '\\' ∧ 0x1F < c.toNat) : Spells t (letters t) := by
  induction t with
  | nil => exact .nil
  | cons c t ih =>
      obtain ⟨hquote, hescape, hcontrol⟩ := h c List.mem_cons_self
      exact .plain hquote hescape hcontrol (ih fun d hd => h d (List.mem_cons_of_mem c hd))

theorem string_skip (opening u t : Text) : string opening u.length (u ++ t) = string opening 0 t := by
  induction u with
  | nil => rfl
  | cons c u ih => exact ih

theorem string_escape {opening u x : Text} {d : Char ⊕ Half} {width : Nat}
    (h : escapeSequence opening (u ++ x) = .ok (d, width)) (hwidth : width = u.length + 1) :
    string opening 0 ('\\' :: (u ++ x)) = (string opening 0 x).map fun (s, r) => (d :: s, r) := by
  rw [string, if_neg (by decide), if_pos rfl, h]
  dsimp only
  rw [hwidth, Nat.add_sub_cancel, string_skip]

/-- How a string that is read begins: with the quote that ends it, or with something that spells one character. -/
inductive StringStep (opening r : Text) : Text → Wide → Prop
  | done : StringStep opening r ('"' :: r) []
  | more {u x : Text} {d : Char ⊕ Half} {s : Wide} (hne : u ≠ []) (hread : string opening 0 x = .ok (s, r))
      (hspells : ∀ w, x = w ++ '"' :: r → Spells w s → Spells (u ++ w) (d :: s)) :
      StringStep opening r (u ++ x) (d :: s)

theorem StringStep.of_map {opening r u x : Text} {d : Char ⊕ Half} {s : Wide} (hne : u ≠ [])
    (h : (string opening 0 x).map (fun (s, r) => (d :: s, r)) = .ok (s, r))
    (hspells : ∀ w s', x = w ++ '"' :: r → Spells w s' → Spells (u ++ w) (d :: s')) :
    StringStep opening r (u ++ x) s := by
  obtain ⟨⟨s', r'⟩, hread, heq⟩ := map_eq_ok h
  obtain ⟨rfl, rfl⟩ := Prod.mk.inj heq
  exact .more hne hread fun w => hspells w s'

/-- An escape spells one character, or half of one. -/
theorem stringStep_escape {opening t r : Text} {s : Wide} (h : string opening 0 ('\\' :: t) = .ok (s, r)) :
    StringStep opening r ('\\' :: t) s := by
  cases hd : escapeSequence opening t with
  | error e =>
      rw [string, if_neg (by decide), if_pos rfl, hd] at h
      simp at h
  | ok found =>
      obtain ⟨d, width⟩ := found
      rcases escapeSequence_cases hd with ⟨e, c, x, rfl, he, rfl, hwidth⟩ |
        ⟨u, n, x, rfl, hu, halone, rfl, hwidth⟩ | ⟨u, v, n, m, x, rfl, hu, hv, hhigh, hlow, rfl, hwidth⟩
      · -- a letter that stands for a character
        rw [show e :: x = [e] ++ x from rfl, string_escape hd hwidth] at h
        exact .of_map (u := ['\\', e]) (List.cons_ne_nil _ _) h fun w s' _ hw => .escape he hw
      · -- a code unit that no second half follows
        rw [← List.cons_append, string_escape hd (by simp [hu.1, hwidth])] at h
        refine .of_map (u := '\\' :: 'u' :: u) (List.cons_ne_nil _ _) h fun w s' hx hw => ?_
        refine .unit hu (fun hn v m y hy hv => ?_) hw
        exact halone hn v m (y ++ '"' :: r) (by rw [hx, hy]; simp) (by simp) hv
      · -- the two halves of a pair are read as one
        have hsplit : 'u' :: (u ++ '\\' :: 'u' :: (v ++ x)) = ('u' :: (u ++ '\\' :: 'u' :: v)) ++ x := by
          simp
        rw [hsplit] at hd h ⊢
        rw [string_escape hd (by simp [hu.1, hv.1, hwidth])] at h
        refine .of_map (u := '\\' :: 'u' :: (u ++ '\\' :: 'u' :: v)) (List.cons_ne_nil _ _) h fun w s' _ hw => ?_
        simpa using Spells.pair hu hv hhigh hlow hw

/-- **A string begins with its end or with a character.** -/
theorem string_step {opening t r : Text} {s : Wide} (h : string opening 0 t = .ok (s, r)) :
    StringStep opening r t s := by
  cases t with
  | nil => simp [string] at h
  | cons c rest =>
      by_cases hquote : c = '"'
      · subst hquote
        rw [string, if_pos rfl] at h
        obtain ⟨rfl, rfl⟩ := Prod.mk.inj (Except.ok.inj h)
        exact .done
      by_cases hescape : c = '\\'
      · subst hescape
        exact stringStep_escape h
      by_cases hcontrol : c.toNat ≤ 0x1F
      · rw [string, if_neg hquote, if_neg hescape, if_pos hcontrol] at h
        simp at h
      · rw [string, if_neg hquote, if_neg hescape, if_neg hcontrol] at h
        exact .of_map (u := [c]) (List.cons_ne_nil _ _) h fun w s' _ hw => .plain hquote hescape (by omega) hw

/-- What is read as a string is spelled up to a quote. -/
theorem spells_of_string {opening t r : Text} {s : Wide} (h : string opening 0 t = .ok (s, r)) :
    ∃ w, t = w ++ '"' :: r ∧ Spells w s := by
  induction hn : t.length using Nat.strongRecOn generalizing t s with
  | ind k ih =>
      cases string_step h with
      | done => exact ⟨[], rfl, .nil⟩
      | @more u x d s hne hread hspells =>
          have hshort : x.length < k := by
            rw [← hn, List.length_append]
            exact Nat.lt_add_of_pos_left (List.length_pos_iff.mpr hne)
          obtain ⟨w, hw, hspelt⟩ := ih x.length hshort hread rfl
          exact ⟨u ++ w, by rw [hw, List.append_assoc], hspells w hw hspelt⟩

/-- A spelling is read up to the quote behind it, whatever follows the quote. -/
theorem string_of_spells {w : Text} {s : Wide} (h : Spells w s) (opening r : Text) :
    string opening 0 (w ++ '"' :: r) = .ok (s, r) := by
  induction h with
  | nil => rfl
  | plain hquote hescape hcontrol rest ih =>
      rw [List.cons_append, string, if_neg hquote, if_neg hescape, if_neg (by omega), ih]
      rfl
  | @escape e c w s he rest ih =>
      have hstep := @string_escape opening [e] (w ++ '"' :: r) (.inl c) 2 (escapeSequence_simple he) rfl
      rw [ih] at hstep
      exact hstep
  | @unit u w s n hu halone rest ih =>
      have hsequence : escapeSequence opening ('u' :: (u ++ (w ++ '"' :: r))) = .ok (ofCode n, 6) := by
        -- of the spellings only a code unit and a pair go on with the escape of a code unit
        refine escapeSequence_unit hu (by simp) fun hn more hmore => ?_
        cases rest with
        | nil => simp at hmore
        | plain _ hescape _ _ => exact absurd (List.cons.inj hmore).1 hescape
        | escape he _ =>
            rw [(List.cons.inj (List.cons.inj hmore).2).1, simpleEscape?_u] at he
            exact absurd he (Option.some_ne_none _).symm
        | @unit v w' s' m hv _ _ =>
            refine ⟨v, m, w' ++ '"' :: r, ?_, by simp, hv, halone hn v m w' rfl hv⟩
            simpa using hmore.symm
        | @pair v v' w' s' m m' hv _ _ _ _ =>
            refine ⟨v, m, '\\' :: 'u' :: (v' ++ w') ++ '"' :: r, ?_, by simp, hv, halone hn v m _ rfl hv⟩
            simpa using hmore.symm
      have hstep := string_escape (u := 'u' :: u) hsequence (by simp [hu.1])
      rw [ih] at hstep
      rw [List.cons_append, List.cons_append, List.append_assoc]
      exact hstep
  | @pair u v w s n m hu hv hhigh hlow rest ih =>
      have hsequence : escapeSequence opening ('u' :: (u ++ '\\' :: 'u' :: (v ++ (w ++ '"' :: r)))) =
          .ok (.inl (pairChar n m), 12) := escapeSequence_pair hu hv hhigh hlow (by simp)
      have hsplit : 'u' :: (u ++ '\\' :: 'u' :: (v ++ (w ++ '"' :: r))) =
          ('u' :: (u ++ '\\' :: 'u' :: v)) ++ (w ++ '"' :: r) := by simp
      rw [hsplit] at hsequence
      have hstep := string_escape hsequence (by simp [hu.1, hv.1])
      rw [ih, ← hsplit] at hstep
      simpa [Except.map] using hstep

/-- **Reading a string is finding its spelling.** -/
theorem string_iff {opening t r : Text} {s : Wide} :
    string opening 0 t = .ok (s, r) ↔ ∃ w, t = w ++ '"' :: r ∧ Spells w s := by
  constructor
  · exact spells_of_string
  · rintro ⟨w, rfl, hw⟩
    exact string_of_spells hw opening r

/-- A spelling and what follows it are told from the text. -/
theorem Spells.unique {w w' r r' : Text} {s s' : Wide} (h : Spells w s) (h' : Spells w' s')
    (heq : w ++ '"' :: r = w' ++ '"' :: r') : w = w' ∧ s = s' ∧ r = r' := by
  have hread := string_of_spells h [] r
  rw [heq, string_of_spells h' [] r'] at hread
  injection hread with hread
  injection hread with hs hr
  subst hs hr
  exact ⟨List.append_cancel_right heq, rfl, rfl⟩

/-! ## The closing quote -/

theorem hexDigit?_ne {c d : Char} {n : Nat} (h : hexDigit? c = some n) (hd : hexDigit? d = none) : c ≠ d := by
  rintro rfl
  rw [h] at hd
  exact absurd hd (Option.some_ne_none n)

theorem CodeUnit.hexDigit {u : Text} {n : Nat} (h : CodeUnit u n) : ∀ c ∈ u, ∃ k, hexDigit? c = some k := by
  obtain ⟨a, b, c, d, rfl⟩ := h.cases
  have hvalue := h.2
  unfold hexValue? at hvalue
  simp only [List.foldlM_cons, List.foldlM_nil, Option.bind_eq_bind, Option.bind_eq_some_iff,
    Option.map_eq_some_iff] at hvalue
  obtain ⟨_, ⟨ka, ha, -⟩, _, ⟨kb, hb, -⟩, _, ⟨kc, hc, -⟩, _, ⟨kd, hd, -⟩, -⟩ := hvalue
  simpa using ⟨⟨ka, ha⟩, ⟨kb, hb⟩, ⟨kc, hc⟩, ⟨kd, hd⟩⟩

end HttpFile.Json

namespace HttpFile.Body

open Text Json

/-- A text in which a scan finds no closing quote, so that it goes on behind it. -/
def Passed (u : Text) : Prop := ∀ t, throughQuote? (u ++ t) = (throughQuote? t).map (u ++ ·)

theorem Passed.nil : Passed [] := fun t => by simp

theorem Passed.append {u v : Text} (hu : Passed u) (hv : Passed v) : Passed (u ++ v) := by
  intro t
  rw [List.append_assoc, hu, hv]
  cases throughQuote? t <;> simp

theorem Passed.singleton {c : Char} (hquote : c ≠ '"') (hline : c ≠ '\n') (hescape : c ≠ '\\') :
    Passed [c] := by
  intro t
  rw [List.singleton_append, throughQuote?.eq_def]
  split <;> simp_all

theorem Passed.escape {c : Char} (hline : c ≠ '\n') : Passed ['\\', c] := by
  intro t
  show throughQuote? ('\\' :: c :: t) = _
  rw [throughQuote?, if_neg hline]
  rfl

theorem Passed.of_forall {u : Text} (h : ∀ c ∈ u, c ≠ '"' ∧ c ≠ '\n' ∧ c ≠ '\\') : Passed u := by
  induction u with
  | nil => exact Passed.nil
  | cons c u ih =>
      obtain ⟨hquote, hline, hescape⟩ := h c List.mem_cons_self
      exact (Passed.singleton hquote hline hescape).append (ih fun d hd => h d (List.mem_cons_of_mem c hd))

theorem passed_codeUnit {u : Text} {n : Nat} (hu : CodeUnit u n) : Passed ('\\' :: 'u' :: u) := by
  refine (Passed.escape (c := 'u') (by decide)).append (Passed.of_forall fun c hc => ?_)
  obtain ⟨k, hk⟩ := hu.hexDigit c hc
  exact ⟨hexDigit?_ne hk rfl, hexDigit?_ne hk rfl, hexDigit?_ne hk rfl⟩

/-- **A scan passes over a spelling**, so it finds the quote that the string ends at. -/
theorem passed_of_spells {w : Text} {s : Wide} (h : Spells w s) : Passed w := by
  induction h with
  | nil => exact Passed.nil
  | plain hquote hescape hcontrol rest ih =>
      refine (Passed.singleton hquote ?_ hescape).append ih
      rintro rfl
      exact absurd hcontrol (by decide)
  | escape he rest ih =>
      refine (Passed.escape ?_).append ih
      rintro rfl
      exact absurd he (Option.some_ne_none _).symm
  | unit hu halone rest ih => exact (passed_codeUnit hu).append ih
  | @pair u v w s n m hu hv hhigh hlow rest ih =>
      have hpassed := ((passed_codeUnit hu).append (passed_codeUnit hv)).append ih
      simpa using hpassed

theorem throughQuote?_spelled {w : Text} {s : Wide} (h : Spells w s) (r : Text) :
    throughQuote? (w ++ '"' :: r) = some (w ++ ['"']) := by
  rw [passed_of_spells h]
  rfl

end HttpFile.Body

namespace HttpFile.Json

open Text

/-! ## Writing -/

/-- **What is written for a character** is an escape of one letter, an escape with a code unit, or the character. -/
theorem escape_cases (c : Char) :
    (∃ e, simpleEscape? e = some c ∧ escape false c = ['\\', e]) ∨
      (c.toNat < 0x20 ∧ escape false c = '\\' :: 'u' :: hex 4 c.toNat) ∨
        c ≠ '"' ∧ c ≠ '\\' ∧ 0x20 ≤ c.toNat ∧ escape false c = [c] := by
  by_cases h1 : c = '"'
  · subst h1
    exact Or.inl ⟨'"', rfl, rfl⟩
  by_cases h2 : c = '\\'
  · subst h2
    exact Or.inl ⟨'\\', rfl, rfl⟩
  by_cases h3 : c = '\n'
  · subst h3
    exact Or.inl ⟨'n', rfl, rfl⟩
  by_cases h4 : c = '\r'
  · subst h4
    exact Or.inl ⟨'r', rfl, rfl⟩
  by_cases h5 : c = '\t'
  · subst h5
    exact Or.inl ⟨'t', rfl, rfl⟩
  by_cases h6 : c = '\x0c'
  · subst h6
    exact Or.inl ⟨'f', rfl, rfl⟩
  by_cases h7 : c = '\x08'
  · subst h7
    exact Or.inl ⟨'b', rfl, rfl⟩
  unfold escape
  rw [if_neg h1, if_neg h2, if_neg h3, if_neg h4, if_neg h5, if_neg h6, if_neg h7]
  by_cases h8 : c.toNat < 0x20
  · exact Or.inr (Or.inl ⟨h8, if_pos h8⟩)
  · rw [if_neg h8]
    exact Or.inr (Or.inr ⟨h1, h2, Nat.le_of_not_lt h8, rfl⟩)

theorem toNat_of_simpleEscape {e c : Char} (h : simpleEscape? e = some c) : c.toNat < 0xE000 := by
  unfold simpleEscape? at h
  split at h <;> cases h <;> decide

theorem spells_escape {c : Char} {w : Text} {s : Wide} (h : Spells w s) :
    Spells (escape false c ++ w) (.inl c :: s) := by
  have hsmall : ∀ n < 0x20, (hex 4 n).length = 4 ∧ hexValue? (hex 4 n) = some n := by decide
  rcases escape_cases c with ⟨e, he, hc⟩ | ⟨hlow, hc⟩ | ⟨hquote, hslash, hhigh, hc⟩
  · rw [hc]
    exact .escape he h
  · have hsurrogate : isHighSurrogate c.toNat = false ∧ isLowSurrogate c.toNat = false := by
      constructor
      · rw [isHighSurrogate, decide_eq_false (by omega), Bool.false_and]
      · rw [isLowSurrogate, decide_eq_false (by omega), Bool.false_and]
    have hchar : ofCode c.toNat = .inl c := by
      rw [ofCode, dif_neg (by rw [isSurrogate, hsurrogate.1, hsurrogate.2]; decide), Char.ofNat_toNat]
    have hunit := Spells.unit (hsmall c.toNat hlow) (fun hn => absurd hn (by rw [hsurrogate.1]; decide)) h
    rw [hchar] at hunit
    rw [hc]
    exact hunit
  · rw [hc]
    exact .plain hquote hslash (by omega) h

theorem escaped_letter (c : Char) (s : Wide) : escaped false (.inl c :: s) = letters (escape false c) ++ escaped false s :=
  rfl

theorem escaped_half (h : Half) (s : Wide) : escaped false (.inr h :: s) = .inr h :: escaped false s := rfl

theorem escaped_append (u v : Wide) : escaped false (u ++ v) = escaped false u ++ escaped false v :=
  List.flatMap_append

theorem escaped_letters (t : Text) : escaped false (letters t) = letters (t.flatMap (escape false)) := by
  induction t with
  | nil => rfl
  | cons c t ih => rw [letters_cons, escaped_letter, ih, List.flatMap_cons, letters_append]

/-- A half in a string that is written is a half in the string, and ASCII has none. -/
theorem half_mem_writeString {asciiOnly : Bool} {x : Half} {w : Wide} (h : Sum.inr x ∈ writeString asciiOnly w) :
    asciiOnly = false ∧ Sum.inr x ∈ w := by
  have hinside : Sum.inr x ∈ escaped asciiOnly w := by
    rcases List.mem_cons.mp h with h | h
    · cases h
    · exact (List.mem_append.mp h).resolve_right (by simp)
  obtain ⟨y, hy, hxy⟩ := List.mem_flatMap.mp hinside
  cases y with
  | inl c => exact absurd hxy (inr_notMem_letters x _)
  | inr z =>
      cases asciiOnly with
      | true => exact absurd hxy (inr_notMem_letters x _)
      | false =>
          obtain rfl := Sum.inr.inj (List.mem_singleton.mp hxy)
          exact ⟨rfl, hy⟩

/-- **A string that is written reads back.** -/
theorem spells_written (t : Text) : Spells (t.flatMap (escape false)) (letters t) := by
  induction t with
  | nil => exact .nil
  | cons c t ih => exact spells_escape ih

/-- What stands in for a half is written as it is. -/
theorem escape_standIn (φ : StandIn) (h : Half) : escape false (φ.char h) = [φ.char h] := by
  rcases escape_cases (φ.char h) with ⟨e, he, -⟩ | ⟨hlow, -⟩ | ⟨-, -, -, hescape⟩
  · exact absurd rfl (φ.ne_of_lt (toNat_of_simpleEscape he) h)
  · exact absurd rfl (φ.ne_of_lt (Nat.lt_trans hlow (by decide)) h)
  · exact hescape

/-- **A string is written the same way whatever stands in for its halves.** -/
theorem reading_writeString (φ : StandIn) (w : Wide) :
    letters (reading φ (writeString false w)) = writeString false (letters (reading φ w)) := by
  have hinside : letters (reading φ (escaped false w)) = escaped false (letters (reading φ w)) := by
    induction w with
    | nil => rfl
    | cons x w ih =>
        cases x with
        | inl c =>
            rw [escaped_letter, reading_append, letters_append, reading_letters, ih]
            rfl
        | inr h =>
            rw [escaped_half]
            show .inl (φ.char h) :: letters (reading φ (escaped false w)) =
              letters (escape false (φ.char h)) ++ escaped false (letters (reading φ w))
            rw [escape_standIn, ih]
            rfl
  show .inl '"' :: letters (reading φ (escaped false w ++ [.inl '"'])) = _
  rw [reading_append, letters_append, hinside]
  rfl

/-! ## Fragments -/

/-- A letter, a digit or an underscore. -/
def isNameChar (c : Char) : Bool := c.isAlphanum || c == '_'

theorem toNat_of_isNameChar {c : Char} (h : isNameChar c = true) : 0x20 ≤ c.toNat := by
  have hsmall : ∀ n < 0x20, isNameChar (Char.ofNat n) = false := by decide
  by_contra hlow
  have hnone := hsmall c.toNat (Nat.lt_of_not_le hlow)
  rw [Char.ofNat_toNat, h] at hnone
  cases hnone

theorem isNameChar_lt {c : Char} (h : isNameChar c = true) : c.toNat < 0xE000 := by
  unfold isNameChar Char.isAlphanum Char.isAlpha Char.isUpper Char.isLower Char.isDigit at h
  simp only [Bool.or_eq_true, Bool.and_eq_true, decide_eq_true_eq, beq_iff_eq] at h
  rcases h with ((⟨-, h⟩ | ⟨-, h⟩) | ⟨-, h⟩) | rfl
  · exact Nat.lt_of_le_of_lt h (by decide)
  · exact Nat.lt_of_le_of_lt h (by decide)
  · exact Nat.lt_of_le_of_lt h (by decide)
  · decide

theorem isNameChar_of_simpleEscape {e c : Char} (h : simpleEscape? e = some c) : isNameChar c = false := by
  unfold simpleEscape? at h
  split at h <;> cases h <;> rfl

/-- Letters that a word starts with are none, or its first letter and what the rest starts with. -/
theorem letters_prefix_cons {α : Type} {m : Text} {x : Char ⊕ α} {w : Word α} (h : letters m <+: x :: w) :
    m = [] ∨ ∃ c m', m = c :: m' ∧ x = .inl c ∧ letters m' <+: w := by
  cases m with
  | nil => exact Or.inl rfl
  | cons c m =>
      obtain ⟨hc, hrest⟩ := List.cons_prefix_cons.mp h
      exact Or.inr ⟨c, m, rfl, hc.symm, hrest⟩

/-- **Without code units there are no halves.** -/
theorem Spells.exists_letters {w : Text} {s : Wide} (h : Spells w s) (hu : ¬['\\', 'u'] <:+: w) :
    ∃ t, s = letters t := by
  induction h with
  | nil => exact ⟨[], rfl⟩
  | @plain c w s hquote hescape hcontrol rest ih =>
      obtain ⟨t, rfl⟩ := ih fun hin => hu (hin.trans (List.suffix_cons c w).isInfix)
      exact ⟨c :: t, rfl⟩
  | @escape e c w s he rest ih =>
      have hsuffix : w <:+ '\\' :: e :: w := ⟨['\\', e], rfl⟩
      obtain ⟨t, rfl⟩ := ih fun hin => hu (hin.trans hsuffix.isInfix)
      exact ⟨c :: t, rfl⟩
  | unit => exact absurd ⟨[], _, rfl⟩ hu
  | pair => exact absurd ⟨[], _, rfl⟩ hu

section
variable {m : Text} (hm : ∀ c ∈ m, isNameChar c = true)
include hm

theorem Spells.isPrefix_spelled {w : Text} {s : Wide} (h : Spells w s) (hu : ¬['\\', 'u'] <:+: w)
    (hp : letters m <+: s) : m <+: w := by
  induction h generalizing m with
  | nil =>
      obtain rfl := List.map_eq_nil_iff.mp (List.prefix_nil.mp hp)
      exact List.nil_prefix
  | @plain c w s hquote hescape hcontrol rest ih =>
      rcases letters_prefix_cons hp with rfl | ⟨d, m', rfl, hd, hrest⟩
      · exact List.nil_prefix
      · obtain rfl := Sum.inl.inj hd
        refine List.cons_prefix_cons.mpr ⟨rfl, ?_⟩
        exact ih (fun d hd => hm d (List.mem_cons_of_mem c hd))
          (fun hin => hu (hin.trans (List.suffix_cons c w).isInfix)) hrest
  | @escape e c w s he rest ih =>
      rcases letters_prefix_cons hp with rfl | ⟨d, m', rfl, hd, -⟩
      · exact List.nil_prefix
      · obtain rfl := Sum.inl.inj hd
        exact absurd (hm c List.mem_cons_self) (by rw [isNameChar_of_simpleEscape he]; decide)
  | unit => exact absurd ⟨[], _, rfl⟩ hu
  | pair => exact absurd ⟨[], _, rfl⟩ hu

/-- **Without code units a name in a string is spelled out.** -/
theorem Spells.isInfix_spelled {w : Text} {s : Wide} (h : Spells w s) (hu : ¬['\\', 'u'] <:+: w)
    (hp : letters m <:+: s) : m <:+: w := by
  induction h with
  | nil =>
      obtain rfl := List.map_eq_nil_iff.mp (List.infix_nil.mp hp)
      exact List.nil_infix
  | @plain c w s hquote hescape hcontrol rest ih =>
      rcases List.infix_cons_iff.mp hp with hp | hp
      · exact ((Spells.plain hquote hescape hcontrol rest).isPrefix_spelled hm hu hp).isInfix
      · exact (ih (fun hin => hu (hin.trans (List.suffix_cons c w).isInfix)) hp).trans (List.suffix_cons c w).isInfix
  | @escape e c w s he rest ih =>
      have hsuffix : w <:+ '\\' :: e :: w := ⟨['\\', e], rfl⟩
      rcases List.infix_cons_iff.mp hp with hp | hp
      · exact ((Spells.escape he rest).isPrefix_spelled hm hu hp).isInfix
      · exact (ih (fun hin => hu (hin.trans hsuffix.isInfix)) hp).trans hsuffix.isInfix
  | unit => exact absurd ⟨[], _, rfl⟩ hu
  | pair => exact absurd ⟨[], _, rfl⟩ hu

end

/-- What is written for a character is the character, or it starts with a backslash and has no underscore. -/
theorem escape_underscore (c : Char) : escape false c = [c] ∨ ∃ u, escape false c = '\\' :: u ∧ '_' ∉ u := by
  have hsmall : ∀ n < 0x20, '_' ∉ hex 4 n := by decide
  rcases escape_cases c with ⟨e, he, hc⟩ | ⟨hlow, hc⟩ | ⟨-, -, -, hc⟩
  · refine Or.inr ⟨[e], hc, fun hin => ?_⟩
    obtain rfl := List.mem_singleton.mp hin
    cases he
  · refine Or.inr ⟨'u' :: hex 4 c.toNat, hc, ?_⟩
    rw [List.mem_cons, not_or]
    exact ⟨by decide, hsmall _ hlow⟩
  · exact Or.inl hc

/-- What starts with an element that a list does not have starts behind the list. -/
theorem infix_of_head_notMem {γ : Type} {a : γ} {m u v : List γ} (ha : a ∉ u) (h : a :: m <:+: u ++ v) :
    a :: m <:+: v := by
  induction u with
  | nil => exact h
  | cons c u ih =>
      rcases List.infix_cons_iff.mp h with h | h
      · exact absurd (List.cons_prefix_cons.mp h).1 fun he => ha (by simp [he])
      · exact ih (fun hu => ha (List.mem_cons_of_mem c hu)) h

theorem prefix_of_prefix_written {m : Text} {s : Wide} (hm : '\\' ∉ m) (h : letters m <+: escaped false s) :
    letters m <+: s := by
  induction s generalizing m with
  | nil => exact h
  | cons x s ih =>
      cases x with
      | inr a =>
          rcases letters_prefix_cons h with rfl | ⟨_, _, _, hx, -⟩
          · exact List.nil_prefix
          · cases hx
      | inl c =>
          rw [escaped_letter] at h
          rcases escape_underscore c with hc | ⟨u, hc, -⟩
          · rw [hc] at h
            rcases letters_prefix_cons h with rfl | ⟨d, m', rfl, hd, hrest⟩
            · exact List.nil_prefix
            · exact List.cons_prefix_cons.mpr ⟨hd.symm, ih (fun hin => hm (List.mem_cons_of_mem d hin)) hrest⟩
          · rw [hc] at h
            rcases letters_prefix_cons h with rfl | ⟨d, m', rfl, hd, -⟩
            · exact List.nil_prefix
            · exact absurd (Sum.inl.inj hd ▸ List.mem_cons_self) hm

/-- A name that starts with an underscore is in a written string only if it is in the string. -/
theorem infix_of_infix_written {m : Text} {s : Wide} (hm : '\\' ∉ m) (h : letters ('_' :: m) <:+: escaped false s) :
    letters ('_' :: m) <:+: s := by
  have hm' : '\\' ∉ '_' :: m := by
    rw [List.mem_cons, not_or]
    exact ⟨by decide, hm⟩
  induction s with
  | nil => exact h
  | cons x s ih =>
      cases x with
      | inr a =>
          have hhead : Sum.inl '_' ∉ [(Sum.inr a : Char ⊕ Half)] := by simp
          exact (ih (infix_of_head_notMem hhead h)).trans (List.suffix_cons _ s).isInfix
      | inl c =>
          rcases escape_underscore c with hc | ⟨u, hc, hu⟩
          · rw [escaped_letter, hc] at h
            rcases List.infix_cons_iff.mp h with hp | h
            · refine (prefix_of_prefix_written hm' ?_).isInfix
              rwa [escaped_letter, hc]
            · exact (ih h).trans (List.suffix_cons _ s).isInfix
          · rw [escaped_letter, hc] at h
            have hhead : Sum.inl '_' ∉ letters (α := Half) ('\\' :: u) := by
              simpa [letters] using hu
            exact (ih (infix_of_head_notMem hhead h)).trans (List.suffix_cons _ s).isInfix

end HttpFile.Json
