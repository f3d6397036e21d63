import HttpFile.Body.Placeholder
import HttpFile.Proofs.Number.Written
import HttpFile.Proofs.Text.Line
import HttpFile.Proofs.Text.Trim
import Mathlib.Data.Finset.Card

/-!
# `HttpFile.Proofs.Body.Stem` — the search for a free stem

The stems are tried in the order of their numbers until one does not occur in the text. Nothing in the search itself
bounds it. What does is that two stems never start at one place of a text, not even when the number of one starts with
the number of the other, because an underscore ends each number. So a text holds fewer stems than it has characters,
and the search meets a free one before it has taken that many steps.

## Contents
- **Stems.** `numeral_unique`, `stemAt_append`, `stemAt_unique`.
- **Counting.** `le_length_of_occurring`: the stems below a number that all occur have places of their own.
- **Searches.** `Searches`, `searches_iff`.
- **Main results.** `freeStem_fresh`; `freeStem_first`: the search ends, and what it finds is the first free stem.
-/

namespace HttpFile.Body

open Text

/-! ## Stems -/

theorem numeral_unique {i j : Nat} {u v : Text} (h : ofNat i ++ '_' :: u = ofNat j ++ '_' :: v) :
    i = j ∧ u = v := by
  have hdigits : ∀ n, ∀ c ∈ ofNat n, c.isDigit = true := fun n c => isDigit_of_mem_ofNat
  have htake := congrArg (List.takeWhile Char.isDigit) h
  rw [takeWhile_append_stop (hdigits i) (by decide), takeWhile_append_stop (hdigits j) (by decide)] at htake
  have hij : i = j := by rw [← digitsValue_ofNat i, htake, digitsValue_ofNat]
  subst hij
  exact ⟨rfl, (List.cons.inj (List.append_cancel_left h)).2⟩

theorem stemAt_append (k : Nat) (u : Text) :
    stemAt k ++ u = "__HTTPFMT".toList ++ (ofNat k ++ '_' :: u) := by
  unfold stemAt
  rw [List.append_assoc, List.append_assoc]
  rfl

/-- Two stems do not start at one place. -/
theorem stemAt_unique {i j : Nat} {u v : Text} (h : stemAt i ++ u = stemAt j ++ v) : i = j := by
  rw [stemAt_append, stemAt_append] at h
  exact (numeral_unique (List.append_cancel_left h)).1

/-! ## Counting -/

/-- **A text in which the first stems all occur is at least as long as their number.** Each of them starts at a place of
    its own. -/
theorem le_length_of_occurring {t : Text} {n : Nat} (h : ∀ k < n, stemAt k <:+: t) : n ≤ t.length := by
  have hall : ∀ k, k < n → ∃ u v, u ++ stemAt k ++ v = t := h
  choose! u v huv using hall
  have hplace : ∀ k ∈ Finset.range n, (u k).length ∈ Finset.range t.length := by
    intro k hk
    have hlength := congrArg List.length (huv k (Finset.mem_range.mp hk))
    rw [List.append_assoc, stemAt_append] at hlength
    simp at hlength
    exact Finset.mem_range.mpr (by omega)
  have hown : Set.InjOn (fun k => (u k).length) (Finset.range n) := by
    intro i hi j hj hsame
    have htexts := (huv i (Finset.mem_range.mp hi)).trans (huv j (Finset.mem_range.mp hj)).symm
    rw [List.append_assoc, List.append_assoc] at htexts
    exact stemAt_unique (List.append_inj htexts hsame).2
  simpa using Finset.card_le_card_of_injOn (fun k => (u k).length) hplace hown

/-! ## Searches -/

/-- The search from a number on, which goes up for as long as the stem with the number occurs in the text.
    `Searches t k n r` says that the search from `k` stops at `r` after `n` steps. -/
inductive Searches (t : Text) : Nat → Nat → Nat → Prop where
  | free {k : Nat} (h : ¬stemAt k <:+: t) : Searches t k 0 k
  | taken {k n r : Nat} (h : stemAt k <:+: t) (more : Searches t (k + 1) n r) : Searches t k (n + 1) r

/-- A search stops at the first free stem, and takes a step for each stem before it. -/
theorem searches_iff {t : Text} {k n r : Nat} :
    Searches t k n r ↔ r = k + n ∧ ¬stemAt r <:+: t ∧ ∀ i, k ≤ i → i < r → stemAt i <:+: t := by
  constructor
  · intro h
    induction h with
    | free h => exact ⟨rfl, h, fun i h1 h2 => absurd h2 (Nat.not_lt.mpr h1)⟩
    | @taken k n r h more ih =>
        obtain ⟨hr, hfree, hbefore⟩ := ih
        refine ⟨by omega, hfree, fun i h1 h2 => ?_⟩
        rcases Nat.eq_or_lt_of_le h1 with rfl | h1
        · exact h
        · exact hbefore i h1 h2
  · rintro ⟨rfl, hfree, hbefore⟩
    induction n generalizing k with
    | zero => exact .free hfree
    | succ n ih =>
        rw [show k + (n + 1) = k + 1 + n by omega] at hfree hbefore ⊢
        exact .taken (hbefore k (Nat.le_refl k) (by omega)) (ih hfree fun i h1 h2 => hbefore i (by omega) h2)

/-! ## Main results -/

/-- The stem of a text is that of the number at which the search from nought stops, within as many steps as the text
    has characters. -/
theorem exists_searches (t : Text) : ∃ n ≤ t.length, Searches t 0 n n ∧ freeStem t = stemAt n := by
  unfold freeStem
  cases hfind : (List.range (t.length + 1)).find? fun k => !occursIn (stemAt k) t with
  | some k =>
      obtain ⟨hk, hmem, hbefore⟩ := List.find?_range_eq_some.mp hfind
      rw [Bool.not_eq_true', occursIn_eq_false_iff] at hk
      refine ⟨k, Nat.le_of_lt_succ (List.mem_range.mp hmem), searches_iff.mpr ⟨by simp, hk, ?_⟩, rfl⟩
      intro i _ hi
      have htaken := hbefore i hi
      rwa [Bool.not_not, occursIn_iff] at htaken
  | none =>
      -- one stem more than the text has places for
      have hall : ∀ k < t.length + 1, stemAt k <:+: t := by
        intro k hk
        have htaken := List.find?_eq_none.mp hfind k (List.mem_range.mpr hk)
        rwa [Bool.not_eq_true', Bool.not_eq_false, occursIn_iff] at htaken
      exact absurd (le_length_of_occurring hall) (Nat.not_succ_le_self _)

/-- **The stem of a text does not occur in it.** -/
theorem freeStem_fresh (t : Text) : ¬freeStem t <:+: t := by
  obtain ⟨n, -, hsearch, hstem⟩ := exists_searches t
  rw [hstem]
  exact (searches_iff.mp hsearch).2.1

/-- **The search for a free stem ends and finds the first one.** It stops after at most as many steps as the text has
    characters; the stem that it finds does not occur in the text, and all stems before it do. -/
theorem freeStem_first (t : Text) :
    ∃ n ≤ t.length, Searches t 0 n n ∧ freeStem t = stemAt n ∧ ¬freeStem t <:+: t ∧
      ∀ i < n, stemAt i <:+: t := by
  obtain ⟨n, hn, hsearch, hstem⟩ := exists_searches t
  exact ⟨n, hn, hsearch, hstem, freeStem_fresh t, fun i hi => (searches_iff.mp hsearch).2.2 i (Nat.zero_le i) hi⟩

end HttpFile.Body
