import HttpFile.Proofs.Syntax.Lexeme

/-!
# `HttpFile.Proofs.Syntax.Reading` — a scan as a sequence of readings

A scan counts characters and positions. What it finds depends on neither: from a place on, a text is
read as its first lexeme and then, from the place after it, as the rest. This module proves that, so
that later proofs follow lexemes and places only.

## Contents
- **Steps.** `scan_step`: a scan is one lexeme and the scan of what follows it.
- **Runs.** `scan_induction_at`, `scan_induction`: what each step keeps holds of every finished scan.
- **Readings.** `reading`, a scan without its positions, with `reading_step`, `reading_refused`,
  `reading_stuck` and `reading_nil`.
-/

namespace HttpFile.Syntax

open Text

/-! ## Steps -/

/-- The characters of the last token are passed over. -/
theorem scan_skip (place : Context) (p : Position) (u rest : Text) :
    scan place p u.length (u ++ rest) = scan place (p.advanceBy u) 0 rest := by
  induction u generalizing p with
  | nil => rfl
  | cons c u ih =>
      rw [List.length_cons, List.cons_append, scan, ih]
      rfl

/-- A kind that is found at a place is looked for there and covers the start of the text. -/
theorem Context.lexeme?_spec {place : Context} {t l : Text} {k : Terminal}
    (h : place.lexeme? t = some (k, l)) : k.lexeme? t = some l ∧ place.seeks k = true := by
  unfold Context.lexeme? firstLexeme? at h
  obtain ⟨k', hk, hl⟩ := List.exists_of_findSome?_eq_some h
  obtain ⟨l', hl', he⟩ := Option.map_eq_some_iff.mp hl
  injection he with h1 h2
  subst h1 h2
  exact ⟨hl', (List.mem_filter.mp hk).2⟩

/-- A lexeme that is found is put down as a token, and the scan goes on behind it. -/
theorem scan_step {place : Context} {k : Terminal} {l rest : Text} (p : Position)
    (h : place.lexeme? (l ++ rest) = some (k, l)) :
    scan place p 0 (l ++ rest) = match place.next k with
      | some place' => (scan place' (p.advanceBy l) 0 rest).map (⟨k, l, p⟩ :: ·)
      | none => .error (.misplaced ⟨k, l, p⟩) := by
  have hne := (lexeme?_isPrefix (Context.lexeme?_spec h).1).2
  cases l with
  | nil => exact absurd rfl hne
  | cons c u =>
      rw [List.cons_append] at h ⊢
      rw [scan, h]
      simp only
      cases place.next k with
      | none => rfl
      | some place' =>
          simp only [List.length_cons, Nat.add_sub_cancel]
          rw [scan_skip]
          rfl

/-! ## Runs -/

/-- **What each step keeps holds of every finished scan.** A scan that succeeds is empty at a place
    where the file may end, or one accepted lexeme in front of a scan that succeeds and that starts at
    the position behind it. -/
theorem scan_induction_at {motive : Context → Position → Text → List Token → Prop}
    (nil : ∀ (place : Context) (p : Position), place.mayEnd = true → motive place p [] [])
    (cons : ∀ (place place' : Context) (k : Terminal) (l rest : Text) (ts : List Token)
      (p : Position), place.lexeme? (l ++ rest) = some (k, l) → place.next k = some place' →
      motive place' (p.advanceBy l) rest ts → motive place p (l ++ rest) (⟨k, l, p⟩ :: ts))
    {place : Context} {p : Position} {t : Text} {ts : List Token}
    (h : scan place p 0 t = .ok ts) : motive place p t ts := by
  -- the text gets shorter with each lexeme
  induction hn : t.length using Nat.strongRecOn generalizing place p t ts with
  | ind n ih =>
      cases t with
      | nil =>
          rw [scan] at h
          split at h
          · next hend =>
              injection h with h
              rw [← h]
              exact nil place p hend
          · simp at h
      | cons c rest =>
          cases hl : place.lexeme? (c :: rest) with
          | none =>
              rw [scan, hl] at h
              simp at h
          | some kl =>
              obtain ⟨k, l⟩ := kl
              obtain ⟨⟨u, hu⟩, hne⟩ := lexeme?_isPrefix (Context.lexeme?_spec hl).1
              rw [← hu] at hl h ⊢
              rw [scan_step p hl] at h
              cases hnext : place.next k with
              | none => rw [hnext] at h; simp at h
              | some place' =>
                  rw [hnext] at h
                  simp only at h
                  cases hs : scan place' (p.advanceBy l) 0 u with
                  | error e => rw [hs] at h; simp [Except.map] at h
                  | ok us =>
                      rw [hs] at h
                      have hts : ⟨k, l, p⟩ :: us = ts := by simpa [Except.map] using h
                      have hlen : u.length < n := by
                        have hpos := List.length_pos_iff.mpr hne
                        rw [← hn, ← hu, List.length_append]
                        omega
                      rw [← hts]
                      exact cons place place' k l u us p hl hnext (ih u.length hlen hs rfl)

/-- The same for what does not depend on positions. -/
theorem scan_induction {motive : Context → Text → List Token → Prop}
    (nil : ∀ place : Context, place.mayEnd = true → motive place [] [])
    (cons : ∀ (place place' : Context) (k : Terminal) (l rest : Text) (ts : List Token)
      (p : Position), place.lexeme? (l ++ rest) = some (k, l) → place.next k = some place' →
      motive place' rest ts → motive place (l ++ rest) (⟨k, l, p⟩ :: ts))
    {place : Context} {p : Position} {t : Text} {ts : List Token}
    (h : scan place p 0 t = .ok ts) : motive place t ts :=
  scan_induction_at (motive := fun place _ t ts => motive place t ts) (fun place _ => nil place) cons h

/-! ## Readings -/

/-- A token without its position. -/
def Token.unplaced (t : Token) : Token := { t with position := .start }

/-- The token of a kind and a lexeme, without a position. -/
def Token.bare (k : Terminal) (l : Text) : Token := ⟨k, l, .start⟩

@[simp] theorem Token.bare_kind (k : Terminal) (l : Text) : (Token.bare k l).kind = k := rfl

@[simp] theorem Token.bare_lexeme (k : Terminal) (l : Text) : (Token.bare k l).lexeme = l := rfl

/-- The tokens of a scan that succeeded, without their positions. -/
def unplacedTokens : Except Failure (List Token) → Option (List Token)
  | .ok ts => some (ts.map Token.unplaced)
  | .error _ => none

theorem unplacedTokens_map (r : Except Failure (List Token)) (t : Token) :
    unplacedTokens (r.map (t :: ·)) = (unplacedTokens r).map (t.unplaced :: ·) := by
  cases r <;> rfl

/-- Where a scan starts changes nothing but the positions. -/
theorem scan_unplaced (place : Context) (p q : Position) (skip : Nat) (t : Text) :
    unplacedTokens (scan place p skip t) = unplacedTokens (scan place q skip t) := by
  induction t generalizing place p q skip with
  | nil =>
      rw [scan, scan]
      split <;> rfl
  | cons c rest ih =>
      cases skip with
      | succ skip =>
          rw [scan, scan]
          exact ih place _ _ skip
      | zero =>
          rw [scan, scan]
          cases place.lexeme? (c :: rest) with
          | none => rfl
          | some kl =>
              simp only
              cases place.next kl.1 with
              | none => rfl
              | some place' =>
                  simp only
                  rw [unplacedTokens_map, unplacedTokens_map, ih place' _ (q.advance c)]
                  rfl

/-- The tokens of a text from a place on, without their positions. -/
def reading (place : Context) (t : Text) : Option (List Token) :=
  unplacedTokens (scan place .start 0 t)

theorem reading_eq_scan (place : Context) (p : Position) (t : Text) :
    reading place t = unplacedTokens (scan place p 0 t) := scan_unplaced place _ p 0 t

theorem reading_nil (place : Context) :
    reading place [] = if place.mayEnd then some [] else none := by
  unfold reading
  rw [scan]
  split <;> rfl

/-- A reading is one lexeme and the reading of what follows it. -/
theorem reading_step {place place' : Context} {k : Terminal} {l rest : Text}
    (h : place.lexeme? (l ++ rest) = some (k, l)) (hn : place.next k = some place') :
    reading place (l ++ rest) = (reading place' rest).map (Token.bare k l :: ·) := by
  rw [reading_eq_scan place .start, scan_step .start h, hn]
  simp only
  rw [unplacedTokens_map, ← reading_eq_scan]
  rfl

/-- A lexeme that may not stand at a place ends the reading. -/
theorem reading_refused {place : Context} {k : Terminal} {l rest : Text}
    (h : place.lexeme? (l ++ rest) = some (k, l)) (hn : place.next k = none) :
    reading place (l ++ rest) = none := by
  rw [reading_eq_scan place .start, scan_step .start h, hn]
  rfl

/-- Where no lexeme that is looked for stands, the reading ends. -/
theorem reading_stuck {place : Context} {c : Char} {rest : Text}
    (h : place.lexeme? (c :: rest) = none) : reading place (c :: rest) = none := by
  unfold reading
  rw [scan, h]
  rfl

/-- The tokens of a reading are those of a scan, positions aside. -/
theorem scan_of_reading {place : Context} {t : Text} {ts : List Token}
    (h : reading place t = some ts) (p : Position) :
    ∃ us, scan place p 0 t = .ok us ∧ us.map Token.unplaced = ts := by
  rw [reading_eq_scan place p] at h
  cases hs : scan place p 0 t with
  | error e => rw [hs] at h; simp [unplacedTokens] at h
  | ok us =>
      rw [hs] at h
      exact ⟨us, rfl, by simpa [unplacedTokens] using h⟩

end HttpFile.Syntax
