import HttpFile.Document.Extract
import HttpFile.Document.Render
import HttpFile.Proofs.Syntax.Lexeme
import HttpFile.Proofs.Text.Indent

/-!
# `HttpFile.Proofs.Document.Script` — inline scripts in a file and in a document

In a file, inline code stands between marks, indented; in a document it is trimmed, without the
indentation. No code holds the closing mark, so what is written is read back as one lexeme, and the
code comes back exactly when its lines are steady.

## Contents
- **Reading.** `unwrapScript_wrapped`, `trimmed_unwrapScript`, `occursIn_unwrapScript`.
- **Writing.** `occursIn_indent`, `script?_render`, `unwrapScript_render_iff`.
- **Main result.** `unwrapScript_again_iff`: which scripts survive being written.
-/

namespace HttpFile

open Text Unicode Syntax

/-! ## Reading -/

/-- Inline code is what stands between the marks, without its indentation, trimmed. -/
theorem unwrapScript_wrapped (code : Text) :
    unwrapScript ('{' :: '%' :: (code ++ closing)) =
      strip (dedent (trimWhere (· == '\n') code)) := by
  have htrim : strip ('{' :: '%' :: (code ++ closing)) = '{' :: '%' :: (code ++ closing) := by
    refine trimmed_iff.mpr ⟨fun c hc => ?_, fun c hc => ?_⟩
    · obtain rfl : '{' = c := by simpa using hc
      decide
    · have hlast : ('{' :: '%' :: (code ++ closing)).getLast? = some '}' := by
        rw [show '{' :: '%' :: (code ++ closing) = ('{' :: '%' :: (code ++ ['%'])) ++ ['}'] by
          simp [closing]]
        exact List.getLast?_concat ..
      rw [hlast] at hc
      obtain rfl : '}' = c := by simpa using hc
      decide
  have hopen : "\x7b%".toList.isPrefixOf ('{' :: '%' :: (code ++ closing)) = true := by
    simp [List.isPrefixOf]
  have hend : endsWith (code ++ closing) "%\x7d" = true := by
    unfold endsWith
    rw [List.isSuffixOf_iff_suffix]
    exact List.suffix_append code closing
  have hinner : (code ++ closing).dropLast.dropLast = code := by
    rw [show code ++ closing = code ++ ['%'] ++ ['}'] by simp [closing], List.dropLast_concat,
      List.dropLast_concat]
  unfold unwrapScript
  rw [htrim]
  simp only
  rw [if_pos hopen]
  simp only [List.drop_succ_cons, List.drop_zero]
  rw [if_pos hend, hinner]

theorem trimmed_unwrapScript (t : Text) : Trimmed (unwrapScript t) := trimmed_strip _

/-- The code of a script does not hold the closing mark. -/
theorem occursIn_unwrapScript {code : Text} (h : occursIn closing (code ++ ['%']) = false) :
    occursIn closing (unwrapScript ('{' :: '%' :: (code ++ closing))) = false := by
  rw [unwrapScript_wrapped]
  refine occursIn_of_isInfix (strip_isInfix _) (occursIn_dedent (by decide) (by decide) ?_)
  exact occursIn_of_isInfix ((trimWhere_isInfix _ _).trans (List.prefix_append code ['%']).isInfix) h

/-! ## Writing -/

theorem break_notMem_closing {c : Char} (hc : isBreak c = true) : c ∉ closing := by
  intro hmem
  have hno : ∀ d ∈ closing, isBreak d = false := by decide
  rw [hno c hmem] at hc
  simp at hc

theorem occursIn_indentPiece {l : Text} (h : occursIn closing l = false) :
    occursIn closing (indentPiece scriptPad l) = false := by
  unfold indentPiece
  split
  · exact h
  · exact occursIn_append_cons (u := [' ']) (by decide) (by decide) h

/-- An indented line ends as the line does. -/
theorem indentPiece_concat (pad u : Text) (c : Char) : ∃ w, indentPiece pad (u ++ [c]) = w ++ [c] := by
  unfold indentPiece
  split
  · exact ⟨u, rfl⟩
  · exact ⟨pad ++ u, by simp⟩

/-- The mark is not put together across lines: each but the last ends in a break, which the mark does
    not have. -/
theorem occursIn_indentPieces {ls : List Text} (hls : ∀ l ∈ ls, occursIn closing l = false)
    (hends : ∀ b l ls', ls = b ++ l :: ls' → ls' ≠ [] → ∃ u c, l = u ++ [c] ∧ isBreak c = true) :
    occursIn closing (ls.flatMap (indentPiece scriptPad)) = false := by
  induction ls with
  | nil => rfl
  | cons l ls ih =>
      have hrest := ih (fun m hm => hls m (by simp [hm]))
        fun b m ls' hb => hends (l :: b) m ls' (by rw [hb]; rfl)
      rw [List.flatMap_cons]
      by_cases hne : ls = []
      · rw [hne, List.flatMap_nil, List.append_nil]
        exact occursIn_indentPiece (hls l (by simp))
      · obtain ⟨u, c, rfl, hc⟩ := hends [] l ls rfl hne
        obtain ⟨w, hw⟩ := indentPiece_concat scriptPad u c
        have hp := occursIn_indentPiece (hls (u ++ [c]) (by simp))
        rw [hw] at hp ⊢
        rw [List.append_assoc, List.singleton_append]
        exact occursIn_append_cons (break_notMem_closing hc)
          (occursIn_of_isInfix (List.prefix_append w [c]).isInfix hp) hrest

/-- Indenting does not put the closing mark together. -/
theorem occursIn_indent {t : Text} (h : occursIn closing t = false) :
    occursIn closing (indent scriptPad t) = false := by
  rw [indent_eq]
  refine occursIn_indentPieces (fun l hl => occursIn_of_isInfix ?_ h) fun b l ls' => linesWithEnds_break
  obtain ⟨b, ls, hsplit⟩ := List.append_of_mem hl
  refine ⟨b.flatten, ls.flatten, ?_⟩
  rw [← flatten_linesWithEnds t, hsplit]
  simp

theorem ne_newline_of_solid {c : Char} (hc : isBlank c = false) : (c == '\n') = false := by
  rw [beq_eq_false_iff_ne]
  rintro rfl
  exact absurd hc (by decide)

/-- Trimmed code is written between its marks as it stands, but indented. -/
theorem render_inline {code : Text} (ht : Trimmed code) :
    (Script.inline code).render =
      '{' :: '%' :: ('\n' :: (indent scriptPad code ++ ['\n']) ++ closing) := by
  have hcode : trimWhere (· == '\n') code = code := by
    have := trimWhere_wrapped (p := (· == '\n')) (t := code) (u := []) (v := [])
      (fun c hc => ne_newline_of_solid (ht.head hc)) (fun c hc => ne_newline_of_solid (ht.last hc)) (by simp) (by simp)
    simpa using this
  rw [Script.render, hcode]
  simp [closing, scriptPad]

/-- Code without the closing mark is read back as one lexeme, whatever follows. -/
theorem script?_render {code : Text} (ht : Trimmed code) (hno : occursIn closing code = false)
    (rest : Text) :
    script? ((Script.inline code).render ++ rest) = some (Script.inline code).render := by
  have hin : occursIn closing ('\n' :: (indent scriptPad code ++ ['\n']) ++ ['%']) = false := by
    have hi := occursIn_indent hno
    have htail : occursIn closing ['%'] = false := by decide
    have := occursIn_append_cons (c := '\n') (by decide)
      (u := []) (by decide) (occursIn_append_cons (c := '\n') (by decide) hi htail)
    simpa using this
  rw [render_inline ht]
  have := throughScriptEnd?_append hin rest
  rw [List.cons_append, List.cons_append, script?, this]
  rfl

/-- **Trimmed code comes back from a file exactly when its lines are steady.** -/
theorem unwrapScript_render_iff {code : Text} (ht : Trimmed code) :
    unwrapScript (Script.inline code).render = code ↔ ∀ f ∈ fieldsAt '\n' code, Steady f := by
  have hinner : trimWhere (· == '\n') ('\n' :: (indent scriptPad code ++ ['\n'])) =
      indent scriptPad code := by
    refine trimWhere_wrapped (t := indent scriptPad code) (u := ['\n']) (v := ['\n']) (fun c hc => ?_) (fun c hc => ?_)
      (by simp) (by simp)
    · cases code with
      | nil => simp [indent_eq, linesWithEnds] at hc
      | cons d r =>
          have hd := ht.head (c := d) rfl
          obtain ⟨y, hy⟩ := indent_cons_solid scriptPad hd (isBreak_of_solid hd) r
          rw [hy] at hc
          obtain rfl : ' ' = c := by simpa [scriptPad] using hc
          decide
    · rw [getLast?_indent] at hc
      exact ne_newline_of_solid (ht.last hc)
  rw [render_inline ht, unwrapScript_wrapped, hinner]
  exact strip_dedent_indent_iff ht

/-! ## Main result -/

/-- **What was read as an inline script survives being written exactly when its lines are steady**: no line is
blank without being empty, and none holds anything behind a break that is no newline. -/
theorem unwrapScript_again_iff (w : Text) :
    unwrapScript (Script.inline (unwrapScript w)).render = unwrapScript w ↔
      ∀ f ∈ fieldsAt '\n' (unwrapScript w), Steady f :=
  unwrapScript_render_iff (trimmed_unwrapScript w)

/-- A line separator inside a line is a break for indenting and none for taking the indentation off. -/
theorem unwrapScript_again_fails :
    let s := unwrapScript "a\u2028b"
    unwrapScript (Script.inline s).render = "a\u2028  b".toList ∧ s = "a\u2028b".toList := by
  decide +kernel

end HttpFile
