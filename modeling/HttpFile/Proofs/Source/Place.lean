import HttpFile.Proofs.Source.Sections
import HttpFile.Proofs.Text.Indent
import HttpFile.Proofs.Url.Fold
import HttpFile.Source.Bruno.Request
import Mathlib.Tactic.Ring

/-!
# `HttpFile.Proofs.Source.Place` — the numeral for the place of a request

A request names its place with a numeral, which is read as it was written. A numeral stands for a number however
long it is. But only so many digits are converted: the place of a longer one is the last place, as if there were none.

## Contents
- **Numerals.** `ones`: numerals of every length; `natural?_ones`, `integer?_ones`.
- **Files.** `placeSection`, `numberedText`; `pairs_placeSection`, `readSections_numberedText`.
-/

namespace HttpFile.Source.Bruno

open Text Unicode

/-! ## Numerals -/

/-- A numeral of so many ones. -/
def ones (n : Nat) : Text := List.replicate n '1'

theorem mem_ones {n : Nat} {c : Char} (h : c ∈ ones n) : c = '1' := List.eq_of_mem_replicate h

theorem solid_ones (n : Nat) : Solid (ones n) := by
  intro c hc
  rw [mem_ones hc]
  decide

/-- What the digits read so far stand for is made greater tenfold by each one that follows. -/
theorem digitsFrom?_ones (start n : Nat) :
    ∃ number, digitsFrom? start (ones n) = some number ∧ start * 10 ^ n ≤ number := by
  induction n generalizing start with
  | zero => exact ⟨start, rfl, by omega⟩
  | succ n ih =>
      obtain ⟨number, hnumber, hle⟩ := ih (10 * start + 1)
      refine ⟨number, hnumber, le_trans ?_ hle⟩
      calc start * 10 ^ (n + 1) = 10 * start * 10 ^ n := by ring
        _ ≤ (10 * start + 1) * 10 ^ n := Nat.mul_le_mul_right _ (Nat.le_succ _)

/-- **A numeral stands for a number**, however long it is. -/
theorem natural?_ones (n : Nat) : ∃ number, natural? (ones (n + 1)) = some number ∧ 10 ^ n ≤ number := by
  obtain ⟨number, hnumber, hle⟩ := digitsFrom?_ones 1 n
  exact ⟨number, hnumber, by rwa [one_mul] at hle⟩

/-- **A numeral that is too long is not converted.** -/
theorem integer?_ones {n : Nat} (h : maxDigits < n + 1) : integer? (ones (n + 1)) = none := by
  have hlong : isConvertible (ones (n + 1)) = false := by
    have hfilter : (ones (n + 1)).filter (· ≠ '_') = ones (n + 1) :=
      List.filter_eq_self.mpr fun c hc => by rw [mem_ones hc]; decide
    unfold isConvertible
    rw [hfilter, ones, List.length_replicate]
    exact decide_eq_false (Nat.not_le.mpr h)
  have htrim : trimWhere isNumeralBlank (ones (n + 1)) = ones (n + 1) := by
    have hend : ∀ c ∈ ones (n + 1), isNumeralBlank c = false := fun c hc => by rw [mem_ones hc]; decide
    have hwrapped := trimWhere_wrapped (u := []) (v := []) (fun c hc => hend c (List.mem_of_mem_head? hc))
      (fun c hc => hend c (List.mem_of_getLast? hc)) (by simp) (by simp)
    simpa using hwrapped
  unfold integer?
  rw [htrim]
  show (convertible? (ones (n + 1))).map (fun n => (n : Int)) = none
  unfold convertible?
  rw [hlong]
  rfl

/-! ## Files -/

/-- The section that describes a request with a place. -/
def placeSection (numeral : Text) : WrittenSection := ⟨[], .curly, ⟨"meta", ["  seq: " ++ numeral]⟩⟩

/-- The section of a method with a target. -/
def targetSection : WrittenSection := ⟨[], .curly, ⟨"get", ["  url: a"]⟩⟩

theorem isWritable_placeSection {numeral : Text} (h : Solid numeral) (hne : numeral ≠ []) :
    (placeSection numeral).IsWritable := by
  have hsolid : ∀ c, ("  seq: " ++ numeral).getLast? = some c → isBlank c = false := by
    intro c hc
    rw [List.getLast?_append_of_ne_nil _ hne] at hc
    exact h c (List.mem_of_getLast? hc)
  have hgap : AreBlank [] := by decide
  have hname : ∀ c ∈ "meta".toList, isNameChar c = true := by decide
  refine ⟨hgap, List.cons_ne_nil _ _, hname, ?_, ?_⟩
  · intro line hline
    obtain rfl := List.mem_singleton.mp hline
    refine ⟨?_, fun hlast => absurd (hsolid _ hlast) (by decide)⟩
    rw [List.mem_append, not_or]
    exact ⟨by decide, fun hmem => absurd (h _ hmem) (by decide)⟩
  · intro line hline
    obtain rfl := List.mem_singleton.mp hline
    rw [stripRight_of_last hsolid]
    intro heq
    have hspace : ' ' ≠ '\x7d' := by decide
    exact hspace (List.cons.inj heq).1

/-- The place that a file names is read as it was written. -/
theorem pairs_placeSection {numeral : Text} (h : Solid numeral) (hne : numeral ≠ []) (hquote : '"' ∉ numeral) :
    (placeSection numeral).content.pairs = [("seq".toList, numeral)] := by
  have htrimmed : Trimmed ("seq: " ++ numeral) := by
    refine trimmed_iff.mpr ⟨fun c hc => ?_, fun c hc => ?_⟩
    · obtain rfl : 's' = c := Option.some.inj hc
      decide
    · rw [List.getLast?_append_of_ne_nil _ hne] at hc
      exact h c (List.mem_of_getLast? hc)
  have hline : strip ("  seq: " ++ numeral) = "seq" ++ ':' :: (' ' :: numeral) := by
    have hstrip := htrimmed.strip_append (u := "  ") (v := []) (by decide) (by decide)
    rw [List.append_nil] at hstrip
    exact hstrip
  have hvalue : strip (' ' :: numeral) = numeral := by
    have hstrip := h.trimmed.strip_append (u := " ") (v := []) (by decide) (by decide)
    rw [List.append_nil] at hstrip
    exact hstrip
  have hunquote : unquote numeral = numeral := by
    obtain ⟨c, rest, rfl⟩ := List.exists_cons_of_ne_nil hne
    have hc : c ≠ '"' := fun he => hquote (by simp [he])
    unfold unquote
    split
    · next heq => exact absurd (List.cons.inj heq).1 hc
    · rfl
  have hpair : pair? ("  seq: " ++ numeral) = some ("seq".toList, numeral) := by
    unfold pair?
    rw [hline, cutAt_append (by decide)]
    dsimp only
    rw [hvalue, hunquote]
    rfl
  show List.filterMap pair? ["  seq: " ++ numeral] = _
  rw [List.filterMap_cons_some hpair]
  rfl

/-- The text of a request with a place. -/
def numberedText (numeral : Text) : Text := "meta \x7b\n  seq: " ++ (numeral ++ "\n\x7d\nget \x7b\n  url: a\n\x7d\n")

/-- **The file is read as it was written.** -/
theorem readSections_numberedText {numeral : Text} (h : Solid numeral) (hne : numeral ≠ []) :
    readSections (numberedText numeral) = .ok [(placeSection numeral).content, targetSection.content] := by
  have hwritable : ∀ w ∈ [placeSection numeral, targetSection], w.IsWritable := by
    intro w hw
    rcases List.mem_pair.mp hw with rfl | rfl
    · exact isWritable_placeSection h hne
    · exact ⟨by decide, by decide, by decide, by decide, by decide⟩
  have hlines : ∀ line ∈ [placeSection numeral, targetSection].flatMap (·.written) ++ [[]], IsLine line :=
    List.forall_mem_append.mpr ⟨isLine_flatMap_written hwritable, by decide⟩
  have htext : numberedText numeral =
      LineEnd.newline.text.intercalate ([placeSection numeral, targetSection].flatMap (·.written) ++ [[]]) := by
    show _ = "meta \x7b\n" ++ (("  seq: " ++ numeral) ++ "\n\x7d\nget \x7b\n  url: a\n\x7d\n")
    rw [List.append_assoc]
    rfl
  rw [htext, readSections_intercalate .newline (List.append_ne_nil_of_right_ne_nil _ (List.cons_ne_nil _ _)) hlines,
    sectionsFrom_flatMap_written hwritable]
  rfl

end HttpFile.Source.Bruno
