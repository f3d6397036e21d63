import HttpFile.Proofs.Text.Line
import HttpFile.Syntax.Token
import Mathlib.Data.List.Basic

/-!
# `HttpFile.Proofs.Syntax.Lexeme` — what a lexeme looks like

Each kind of lexeme is described once: from a lexeme that was found, what it is made of and what
stands behind it. Two facts hold of every kind. A lexeme is a start of the text that is not empty, so
a scan makes progress; and its first character is one of a class that depends on the kind only, so
that at a place and a character few kinds are left to be tried.

## Contents
- **Character classes.** `isGraphic`: the keys of headers and forms hold visible characters.
- **Lines.** `firstLine_append`, `trimmedLine?_spec`, `value?_spec`.
- **Kinds.** One `_spec` for each shape.
- **All kinds.** `lexeme?_isPrefix`: a lexeme is a start of the text, and not empty.
- **First characters.** `Terminal.mayOpen`, `mayOpen_of_lexeme?`, `Context.lexeme?_cons`.
-/

namespace HttpFile.Syntax

open Text Unicode

/-! ## Character classes -/

/-- A visible ASCII character. -/
def isGraphic (c : Char) : Bool := 0x20 < c.toNat && c.toNat < 0x7F

theorem isBlank_of_isGraphic {c : Char} (h : isGraphic c = true) : isBlank c = false := by
  rw [isGraphic, Bool.and_eq_true, decide_eq_true_eq, decide_eq_true_eq] at h
  rw [Bool.eq_false_iff]
  intro hb
  have hout : ∀ r ∈ blankRanges, r.2 ≤ 0x20 ∨ 0x7F ≤ r.1 := by decide
  obtain ⟨r, hr, hlo, hhi⟩ := exists_of_inRanges hb
  rcases hout r hr with ho | ho <;> omega

theorem isGraphic_of_isLetter {c : Char} (h : isLetter c = true) : isGraphic c = true := by
  unfold isLetter Char.isAlpha Char.isUpper Char.isLower at h
  have hn : c.val.toNat = c.toNat := rfl
  simp [UInt32.le_iff_toNat_le] at h
  simp [isGraphic]
  omega

theorem isGraphic_of_isDigit {c : Char} (h : isDigit c = true) : isGraphic c = true := by
  unfold isDigit Char.isDigit at h
  have hn : c.val.toNat = c.toNat := rfl
  simp [UInt32.le_iff_toNat_le] at h
  simp [isGraphic]
  omega

/-- Letters, digits and some of the visible marks are visible. -/
theorem isGraphic_of_class {c : Char} {marks : Text} (hm : ∀ d ∈ marks, isGraphic d = true)
    (h : (isLetter c || isDigit c || marks.contains c) = true) : isGraphic c = true := by
  rw [Bool.or_eq_true, Bool.or_eq_true] at h
  rcases h with (h | h) | h
  · exact isGraphic_of_isLetter h
  · exact isGraphic_of_isDigit h
  · exact hm c (by simpa using h)

theorem isGraphic_of_isHeaderKey {c : Char} (h : isHeaderKey c = true) : isGraphic c = true :=
  isGraphic_of_class (by decide) h

theorem isGraphic_of_isFormKey {c : Char} (h : isFormKey c = true) : isGraphic c = true :=
  isGraphic_of_class (by decide) h

/-- No blank stands in a word. -/
theorem isWord_of_isBlank {c : Char} (h : isBlank c = true) : isWord c = false := by
  have hpoints : ∀ n ∈ blankRanges.flatMap (fun r => List.range' r.1 (r.2 + 1 - r.1)),
      inRanges wordRanges n = false := by decide +kernel
  obtain ⟨r, hr, hlo, hhi⟩ := exists_of_inRanges h
  exact hpoints _ (List.mem_flatMap.mpr ⟨r, hr, List.mem_range'_1.mpr ⟨hlo, by omega⟩⟩)

theorem isBlank_of_isIdentifierStart {c : Char} (h : isIdentifierStart c = true) :
    isBlank c = false := by
  rw [isIdentifierStart, Bool.or_eq_true, Bool.or_eq_true, beq_iff_eq, beq_iff_eq] at h
  rcases h with (h | rfl) | rfl
  · exact isBlank_of_isGraphic (isGraphic_of_isLetter h)
  · decide
  · decide

theorem isBlank_of_isIdentifierRest {c : Char} (h : isIdentifierRest c = true) :
    isBlank c = false := by
  rw [isIdentifierRest, Bool.or_eq_true, Bool.or_eq_true, Bool.or_eq_true, beq_iff_eq, beq_iff_eq,
    beq_iff_eq] at h
  rw [Bool.eq_false_iff]
  intro hb
  rcases h with ((h | rfl) | rfl) | rfl
  · rw [isWord_of_isBlank hb] at h
    simp at h
  · exact absurd hb (by decide)
  · exact absurd hb (by decide)
  · exact absurd hb (by decide)

/-! ## Lines -/

theorem firstLine_isPrefix (t : Text) : firstLine t <+: t := List.takeWhile_prefix _

theorem newline_notMem_firstLine (t : Text) : '\n' ∉ firstLine t := by
  intro h
  have hn := List.mem_takeWhile_imp h
  simp at hn

/-- The first line ends at the first newline. -/
theorem firstLine_append {u : Text} (hu : '\n' ∉ u) (rest : Text) :
    firstLine (u ++ '\n' :: rest) = u := by
  apply takeWhile_append_stop
  · intro c hc
    have hne : c ≠ '\n' := fun he => hu (he ▸ hc)
    simpa using hne
  · simp

theorem firstLine_eq_self {t : Text} (h : '\n' ∉ t) : firstLine t = t := by
  apply List.takeWhile_eq_self_iff.mpr
  intro c hc
  have hne : c ≠ '\n' := fun he => h (he ▸ hc)
  simpa using hne

theorem trimmedLine?_spec {t l : Text} (h : trimmedLine? t = some l) :
    l = stripRight (firstLine t) ∧ l ≠ [] := by
  unfold trimmedLine? at h
  split at h
  · simp at h
  · next line hline =>
      have hl : stripRight (firstLine t) = l := by simpa using h
      exact ⟨hl.symm, fun he => hline (hl.trans he)⟩

theorem trimmedLine?_of_ne_nil {t : Text} (h : stripRight (firstLine t) ≠ []) :
    trimmedLine? t = some (stripRight (firstLine t)) := by
  unfold trimmedLine?
  split
  · next he => exact absurd he h
  · rfl

/-- The trimmed first line: a start of the text on one line, ending in no blank. -/
theorem stripRight_firstLine_spec (t : Text) :
    stripRight (firstLine t) <+: t ∧ '\n' ∉ stripRight (firstLine t) ∧
      stripRight (stripRight (firstLine t)) = stripRight (firstLine t) := by
  have hp := stripRight_isPrefix (firstLine t)
  refine ⟨hp.trans (firstLine_isPrefix t), fun hm => newline_notMem_firstLine t (hp.subset hm), ?_⟩
  obtain ⟨u, -, -, hl⟩ := stripRight_spec (firstLine t)
  exact stripRight_of_last hl

theorem value?_spec {t l : Text} (h : value? t = some l) :
    ∃ c rest, t = c :: rest ∧ isBlank c = false ∧ l = c :: stripRight (firstLine rest) := by
  cases t with
  | nil => simp [value?] at h
  | cons c rest =>
      rw [value?] at h
      split at h
      · simp at h
      · next hc =>
          have hb : isBlank c = false := by simpa using hc
          have hn : c ≠ '\n' := by
            rintro rfl
            exact absurd hb (by decide)
          have hf : firstLine (c :: rest) = c :: firstLine rest := by
            unfold firstLine
            rw [List.takeWhile_cons_of_pos (by simpa using hn)]
          refine ⟨c, rest, rfl, hb, ?_⟩
          rw [hf, stripRight_cons _ hb] at h
          simpa using h.symm

/-- A value is trimmed, on one line, and itself a value. -/
theorem value?_trimmed {t l : Text} (h : value? t = some l) :
    Trimmed l ∧ '\n' ∉ l ∧ l ≠ [] ∧ l <+: t := by
  obtain ⟨c, rest, rfl, hc, rfl⟩ := value?_spec h
  obtain ⟨hp, hn, hs⟩ := stripRight_firstLine_spec rest
  refine ⟨Trimmed.of_cons hc hs, ?_, by simp, List.cons_prefix_cons.mpr ⟨rfl, hp⟩⟩
  intro hm
  rcases List.mem_cons.mp hm with he | hm
  · rw [← he] at hc
    exact absurd hc (by decide)
  · exact hn hm

/-- A trimmed line is read as a value, whatever lines follow. -/
theorem value?_line {l : Text} (ht : Trimmed l) (hn : '\n' ∉ l) (hne : l ≠ []) {u : Text}
    (hu : ∀ c ∈ u, isGap c = true) (rest : Text) : value? (l ++ u ++ '\n' :: rest) = some l := by
  cases l with
  | nil => exact absurd rfl hne
  | cons c l =>
      have hc : isBlank c = false := ht.head rfl
      have hu' : '\n' ∉ u := fun hm => absurd (hu _ hm) (by decide)
      have hline : '\n' ∉ c :: l ++ u := by
        rw [List.mem_append]
        exact fun hm => hm.elim hn hu'
      have hub : ∀ d ∈ u, isBlank d = true := fun d hd => isBlank_of_isGap (hu d hd)
      have hf : firstLine (c :: (l ++ u ++ '\n' :: rest)) = c :: l ++ u := by
        have := firstLine_append hline rest
        simpa using this
      rw [List.cons_append, List.cons_append, value?, if_neg (by simp [hc]), hf,
        stripRight_append_blank _ hub, ht.stripRight]

/-! ## Kinds -/

theorem endOfLine?_spec {t l : Text} (h : endOfLine? t = some l) :
    ∃ g rest, (∀ c ∈ g, isGap c = true) ∧ t = g ++ '\n' :: rest ∧ l = g ++ ['\n'] := by
  unfold endOfLine? at h
  split at h
  · next rest hd =>
      refine ⟨t.takeWhile isGap, rest, fun c hc => List.mem_takeWhile_imp hc, ?_, ?_⟩
      · rw [← hd, List.takeWhile_append_dropWhile]
      · simpa using h.symm
  · simp at h

theorem gap?_spec {t l : Text} (h : gap? t = some l) : l = t.takeWhile isGap ∧ l ≠ [] := by
  unfold gap? at h
  split at h
  · simp at h
  · next hne =>
      have hl : t.takeWhile isGap = l := by simpa using h
      exact ⟨hl.symm, fun he => hne (hl.trans he)⟩

theorem literal?_spec {word t l : Text} (h : literal? word t = some l) : l = word ∧ word <+: t := by
  unfold literal? at h
  split at h
  · next hp => exact ⟨by simpa using h.symm, List.isPrefixOf_iff_prefix.mp hp⟩
  · simp at h

theorem literal?_append (word rest : Text) : literal? word (word ++ rest) = some word := by
  unfold literal?
  rw [if_pos (List.isPrefixOf_iff_prefix.mpr (List.prefix_append word rest))]

theorem assign?_spec {t l : Text} (h : assign? t = some l) :
    ∃ g rest, (∀ c ∈ g, isGap c = true) ∧ t = g ++ '=' :: rest ∧
      l = g ++ '=' :: rest.takeWhile isGap := by
  unfold assign? at h
  split at h
  · next rest hd =>
      refine ⟨t.takeWhile isGap, rest, fun c hc => List.mem_takeWhile_imp hc, ?_, ?_⟩
      · rw [← hd, List.takeWhile_append_dropWhile]
      · simpa using h.symm
  · simp at h

theorem identifier?_spec {t l : Text} (h : identifier? t = some l) :
    ∃ c rest, t = c :: rest ∧ isIdentifierStart c = true ∧
      l = c :: rest.takeWhile isIdentifierRest := by
  cases t with
  | nil => simp [identifier?] at h
  | cons c rest =>
      rw [identifier?] at h
      split at h
      · next hc => exact ⟨c, rest, rfl, hc, by simpa using h.symm⟩
      · simp at h

/-- An identifier is read up to the first character that may not stand in it. -/
theorem identifier?_append {l : Text} (h : identifier? l = some l) {c : Char}
    (hc : isIdentifierRest c = false) (rest : Text) : identifier? (l ++ c :: rest) = some l := by
  obtain ⟨d, l', rfl, hd, he⟩ := identifier?_spec h
  injection he with _ he
  have hall : ∀ x ∈ l', isIdentifierRest x = true := by
    intro x hx
    rw [he] at hx
    exact List.mem_takeWhile_imp hx
  rw [List.cons_append, identifier?, if_pos hd, takeWhile_append_stop hall hc]

/-- What is read as an identifier is one. -/
theorem identifier?_self {t l : Text} (h : identifier? t = some l) : identifier? l = some l := by
  obtain ⟨c, rest, rfl, hc, rfl⟩ := identifier?_spec h
  rw [identifier?, if_pos hc, List.takeWhile_idem]

theorem solid_of_identifier {l : Text} (h : identifier? l = some l) : Solid l := by
  obtain ⟨c, rest, rfl, hc, he⟩ := identifier?_spec h
  injection he with _ he
  intro d hd
  rcases List.mem_cons.mp hd with rfl | hd
  · exact isBlank_of_isIdentifierStart hc
  · rw [he] at hd
    exact isBlank_of_isIdentifierRest (List.mem_takeWhile_imp hd)

theorem commentMark?_spec {t mark rest : Text} (h : commentMark? t = some (mark, rest)) :
    t = mark ++ rest ∧ (mark = ['#'] ∨ mark = ['/', '/']) := by
  unfold commentMark? at h
  split at h
  · next more =>
      have hm : ['#'] = mark ∧ more = rest := by simpa using h
      exact ⟨by rw [← hm.1, ← hm.2]; rfl, .inl hm.1.symm⟩
  · next more =>
      have hm : ['/', '/'] = mark ∧ more = rest := by simpa using h
      exact ⟨by rw [← hm.1, ← hm.2]; rfl, .inr hm.1.symm⟩
  · simp at h

theorem metadataMark?_spec {t l : Text} (h : metadataMark? t = some l) :
    ∃ mark g c rest, (mark = ['#'] ∨ mark = ['/', '/']) ∧ (∀ x ∈ g, isGap x = true) ∧
      isIdentifierStart c = true ∧ t = mark ++ g ++ '@' :: c :: rest ∧ l = mark ++ g ++ ['@'] := by
  unfold metadataMark? at h
  split at h
  · next mark rest hm =>
      obtain ⟨rfl, hmark⟩ := commentMark?_spec hm
      split at h
      · next c more hd =>
          split at h
          · next hc =>
              refine ⟨mark, rest.takeWhile isGap, c, more, hmark,
                fun x hx => List.mem_takeWhile_imp hx, hc, ?_, by simpa using h.symm⟩
              rw [← hd, List.append_assoc, List.takeWhile_append_dropWhile]
          · simp at h
      · simp at h
  · simp at h

/-- A comment mark, gaps, an at sign and the start of a name are read as the mark of metadata. -/
theorem metadataMark?_append {mark g : Text} {c : Char} (hm : mark = ['#'] ∨ mark = ['/', '/'])
    (hg : ∀ x ∈ g, isGap x = true) (hc : isIdentifierStart c = true) (rest : Text) :
    metadataMark? (mark ++ g ++ '@' :: c :: rest) = some (mark ++ g ++ ['@']) := by
  have hat : isGap '@' = false := by decide
  have hmark : commentMark? (mark ++ g ++ '@' :: c :: rest) = some (mark, g ++ '@' :: c :: rest) := by
    rcases hm with rfl | rfl <;> simp [commentMark?]
  rw [metadataMark?, hmark]
  simp only
  rw [dropWhile_append_stop hg hat, takeWhile_append_stop hg hat]
  simp only
  rw [if_pos hc]

/-- What a start of the text shows to be metadata is metadata. -/
theorem metadataMark?_of_isPrefix {u t l : Text} (hp : u <+: t) (h : metadataMark? u = some l) :
    metadataMark? t = some l := by
  obtain ⟨v, rfl⟩ := hp
  obtain ⟨mark, g, c, rest, hm, hg, hc, rfl, rfl⟩ := metadataMark?_spec h
  have he : mark ++ g ++ '@' :: c :: rest ++ v = mark ++ g ++ '@' :: c :: (rest ++ v) := by simp
  rw [he]
  exact metadataMark?_append hm hg hc (rest ++ v)

theorem comment?_spec {t l : Text} (h : comment? t = some l) :
    ∃ mark rest, commentMark? t = some (mark, rest) ∧ l = firstLine t ∧
      ¬['#', '#', '#'] <+: t := by
  unfold comment? at h
  split at h
  · next mark rest hm =>
      split at h
      · simp at h
      · next hno =>
          obtain ⟨rfl, hmark⟩ := commentMark?_spec hm
          refine ⟨mark, rest, hm, by simpa using h.symm, ?_⟩
          rintro ⟨more, he⟩
          rcases hmark with rfl | rfl
          · have hr : rest = ['#', '#'] ++ more := by simpa using he.symm
            exact hno (by rw [hr]; rfl)
          · simp at he
  · simp at h

theorem preRequestMark?_spec {t l : Text} (h : preRequestMark? t = some l) :
    ∃ rest, t = '<' :: rest ∧ l = '<' :: rest.takeWhile isGap := by
  unfold preRequestMark? at h
  split at h
  · next rest => exact ⟨rest, rfl, by simpa using h.symm⟩
  · simp at h

theorem handlerMark?_spec {t l : Text} (h : handlerMark? t = some l) :
    ∃ rest, t = '>' :: rest ∧ l = '>' :: rest.takeWhile isGap := by
  unfold handlerMark? at h
  split at h
  · simp at h
  · next rest _ => exact ⟨rest, rfl, by simpa using h.symm⟩
  · simp at h

/-- The closing mark of a script. -/
def closing : Text := ['%', '}']

/-- The text through the first closing mark: a start of the text that ends in it, and before which
    there is none. -/
theorem throughScriptEnd?_spec {t l : Text} (h : throughScriptEnd? t = some l) :
    ∃ code rest, t = code ++ closing ++ rest ∧ l = code ++ closing ∧
      occursIn closing (code ++ ['%']) = false := by
  induction t generalizing l with
  | nil => simp [throughScriptEnd?] at h
  | cons c t ih =>
      unfold throughScriptEnd? at h
      split at h
      · simp at *
      · next rest heq =>
          refine ⟨[], rest, heq, by simpa [closing] using h.symm, by decide⟩
      · next d rest hne heq =>
          injection heq with h1 h2
          subst h1 h2
          obtain ⟨u, hu, rfl⟩ := Option.map_eq_some_iff.mp h
          obtain ⟨code, rest, ht, rfl, hno⟩ := ih hu
          refine ⟨c :: code, rest, by rw [ht]; rfl, rfl, ?_⟩
          have hnp : closing.isPrefixOf (c :: (code ++ ['%'])) = false := by
            -- a mark at the first character would have ended the scan there
            rw [Bool.eq_false_iff]
            intro hp
            obtain ⟨more, he⟩ := List.isPrefixOf_iff_prefix.mp hp
            cases code with
            | nil => simp [closing] at he
            | cons e code =>
                have hce : '%' = c ∧ '}' = e := by
                  simp [closing] at he
                  exact ⟨he.1, he.2.1⟩
                exact hne (code ++ closing ++ rest) (by rw [hce.1]) (by rw [ht, hce.2]; rfl)
          simp only [List.cons_append, occursIn, hnp, hno, Bool.or_self]

/-- There is no closing mark exactly when none is found. -/
theorem throughScriptEnd?_eq_none_iff {t : Text} :
    throughScriptEnd? t = none ↔ occursIn closing t = false := by
  induction t with
  | nil => simp [throughScriptEnd?, occursIn, closing]
  | cons c t ih =>
      unfold throughScriptEnd?
      split
      · simp at *
      · next rest heq =>
          rw [heq]
          simp [occursIn, closing]
      · next d rest hne heq =>
          injection heq with h1 h2
          subst h1 h2
          have hnp : closing.isPrefixOf (c :: t) = false := by
            rw [Bool.eq_false_iff]
            intro hp
            obtain ⟨more, he⟩ := List.isPrefixOf_iff_prefix.mp hp
            have hce : '%' = c ∧ '}' :: more = t := by simpa [closing] using he
            exact hne more hce.1.symm hce.2.symm
          rw [Option.map_eq_none_iff, ih]
          simp [occursIn, hnp]

/-- Code without a closing mark is read through the mark that follows it. -/
theorem throughScriptEnd?_append {code : Text} (h : occursIn closing (code ++ ['%']) = false)
    (rest : Text) : throughScriptEnd? (code ++ closing ++ rest) = some (code ++ closing) := by
  cases hs : throughScriptEnd? (code ++ closing ++ rest) with
  | none =>
      have hno := throughScriptEnd?_eq_none_iff.mp hs
      rw [occursIn_eq_false_iff] at hno
      exact absurd ⟨code, rest, rfl⟩ hno
  | some l =>
      obtain ⟨code', rest', he, rfl, hno⟩ := throughScriptEnd?_spec hs
      rw [List.append_assoc, List.append_assoc] at he
      -- of two codes that the mark follows, the longer one would hold the mark of the other
      have hlen : ∀ a b x y : Text, occursIn closing (b ++ ['%']) = false →
          a ++ (closing ++ x) = b ++ (closing ++ y) → b.length ≤ a.length := by
        intro a b x y hb hab
        rcases List.append_eq_append_iff.mp hab with ⟨z, hz, hx⟩ | ⟨z, hz, -⟩
        · cases z with
          | nil => rw [hz]; simp
          | cons c z =>
              rw [occursIn_eq_false_iff] at hb
              refine absurd ?_ hb
              rw [hz]
              have hc : '%' = c ∧ '}' :: x = z ++ (closing ++ y) := by simpa [closing] using hx
              cases z with
              | nil => simp [closing] at hc
              | cons d z =>
                  have hd : '}' = d := by
                    have := hc.2
                    simp at this
                    exact this.1
                  exact ⟨a, z ++ ['%'], by rw [← hc.1, ← hd]; simp [closing]⟩
        · rw [hz]
          simp
      have h1 := hlen code code' _ _ hno he
      have h2 := hlen code' code _ _ h he.symm
      have hcode := (List.append_inj he (by omega)).1
      rw [hcode]

theorem script?_spec {t l : Text} (h : script? t = some l) :
    ∃ code rest, t = '{' :: '%' :: (code ++ closing ++ rest) ∧ l = '{' :: '%' :: (code ++ closing) ∧
      occursIn closing (code ++ ['%']) = false := by
  unfold script? at h
  split at h
  · next rest =>
      obtain ⟨u, hu, rfl⟩ := Option.map_eq_some_iff.mp h
      obtain ⟨code, rest', rfl, rfl, hno⟩ := throughScriptEnd?_spec hu
      exact ⟨code, rest', rfl, rfl, hno⟩
  · simp at h

theorem redirect?_spec {t l : Text} (h : redirect? t = some l) :
    ['>', '>'] <+: t ∧ l = stripRight (firstLine t) ∧ l ≠ [] := by
  unfold redirect? at h
  split at h
  · next hp =>
      obtain ⟨hl, hne⟩ := trimmedLine?_spec h
      exact ⟨List.isPrefixOf_iff_prefix.mp hp, hl, hne⟩
  · simp at h

theorem method?_spec {t l : Text} (h : method? t = some l) :
    l ∈ methods.map String.toList ∧ ∃ c rest, isGap c = true ∧ t = l ++ c :: rest := by
  unfold method? at h
  refine ⟨List.mem_of_find?_eq_some h, ?_⟩
  have hp := List.find?_some h
  split at hp
  · next c rest hl => exact ⟨c, rest, hp, (List.append_eq_of_isPrefixOf?_eq_some hl).symm⟩
  · simp at hp

/-- A method and a space are read as that method. -/
theorem method?_append {l : Text} (h : l ∈ methods.map String.toList) (rest : Text) :
    method? (l ++ ' ' :: rest) = some l := by
  simp only [methods, List.map_cons, List.map_nil, List.mem_cons, List.not_mem_nil, or_false] at h
  rcases h with rfl | rfl | rfl | rfl | rfl | rfl | rfl | rfl | rfl | rfl | rfl <;> rfl

theorem target?_spec {t l : Text} (h : target? t = some l) :
    ∃ c rest, t = c :: rest ∧ isBlank c = false ∧ "#@<>".toList.contains c = false ∧
      ¬['/', '/'] <+: t ∧ l = c :: targetTail false rest := by
  unfold target? at h
  split at h
  · simp at h
  · simp at h
  · next c rest hne =>
      split at h
      · simp at h
      · next hc =>
          rw [Bool.or_eq_true, not_or] at hc
          refine ⟨c, rest, rfl, by simpa using hc.2, by simpa using hc.1, ?_, by simpa using h.symm⟩
          rintro ⟨more, he⟩
          have hm : '/' = c ∧ '/' :: more = rest := by simpa using he
          exact hne more hm.1.symm hm.2.symm

theorem version?_spec {t l : Text} (h : version? t = some l) :
    ∃ major, isDigit major = true ∧ ((∃ minor rest, isDigit minor = true ∧
        t = "HTTP/".toList ++ major :: '.' :: minor :: rest ∧
        l = "HTTP/".toList ++ [major, '.', minor]) ∨
      ∃ rest, t = "HTTP/".toList ++ major :: rest ∧ l = "HTTP/".toList ++ [major]) := by
  unfold version? at h
  split at h
  · next major minor rest hp =>
      have ht := (List.append_eq_of_isPrefixOf?_eq_some hp).symm
      split at h
      · next hd =>
          rw [Bool.and_eq_true] at hd
          exact ⟨major, hd.1, .inl ⟨minor, rest, hd.2, ht, by simpa using h.symm⟩⟩
      · split at h
        · next hd => exact ⟨major, hd, .inr ⟨_, ht, by simpa using h.symm⟩⟩
        · simp at h
  · next major rest _ hp =>
      split at h
      · next hd =>
          exact ⟨major, hd, .inr ⟨rest, (List.append_eq_of_isPrefixOf?_eq_some hp).symm,
            by simpa using h.symm⟩⟩
      · simp at h
  · simp at h

/-- What is read as a version is one. -/
theorem version?_self {t l : Text} (h : version? t = some l) : version? l = some l := by
  obtain ⟨major, hd, ⟨minor, rest, hm, -, rfl⟩ | ⟨rest, -, rfl⟩⟩ := version?_spec h
  · simp [version?, List.isPrefixOf?, hd, hm]
  · simp [version?, List.isPrefixOf?, hd]

/-- A version at the end of its line is read as it stands. -/
theorem version?_append {l : Text} (h : version? l = some l) (rest : Text) :
    version? (l ++ '\n' :: rest) = some l := by
  obtain ⟨major, hd, ⟨minor, -, hm, -, rfl⟩ | ⟨-, -, rfl⟩⟩ := version?_spec h
  · simp [version?, List.isPrefixOf?, hd, hm]
  · simp [version?, List.isPrefixOf?, hd]

theorem header?_spec {t l : Text} (h : header? t = some l) :
    ∃ key g rest, key ≠ [] ∧ (∀ c ∈ key, isHeaderKey c = true) ∧ (∀ c ∈ g, isGap c = true) ∧
      t = key ++ g ++ ':' :: rest ∧ l = firstLine t := by
  unfold header? at h
  split at h
  · next c cs more hk hr =>
      refine ⟨t.takeWhile isHeaderKey, (t.dropWhile isHeaderKey).takeWhile isGap, more, by rw [hk]; simp,
        fun c hc => List.mem_takeWhile_imp hc, fun c hc => List.mem_takeWhile_imp hc, ?_,
        by simpa using h.symm⟩
      rw [← hr, List.append_assoc, List.takeWhile_append_dropWhile, List.takeWhile_append_dropWhile]
  · simp at h

theorem targetTail_isPrefix (inGap : Bool) (t : Text) : targetTail inGap t <+: t := by
  fun_induction targetTail inGap t with
  | case1 => exact List.nil_prefix
  | case2 inGap c rest _ ih => exact List.cons_prefix_cons.mpr ⟨rfl, ih⟩
  | case3 inGap c rest _ _ ih => exact List.cons_prefix_cons.mpr ⟨rfl, ih⟩
  | case4 inGap c rest _ _ _ ih => exact List.cons_prefix_cons.mpr ⟨rfl, ih⟩
  | case5 => exact List.nil_prefix

theorem bodyLines_isPrefix (atLineStart : Bool) (t : Text) : bodyLines atLineStart t <+: t := by
  fun_induction bodyLines atLineStart t with
  | case1 => exact List.nil_prefix
  | case2 => exact List.nil_prefix
  | case3 flag c rest _ ih => exact List.cons_prefix_cons.mpr ⟨rfl, ih⟩

/-- The classes of texts that open a body are classes of texts that are not empty. -/
theorem bodyIf_spec {opens : Text → Bool} (ho : opens [] = false) {t l : Text}
    (h : bodyIf opens t = some l) :
    opens t = true ∧ l = bodyLines false t ∧ ∃ c rest, t = c :: rest ∧ l = c :: bodyLines (c == '\n') rest := by
  unfold bodyIf at h
  split at h
  · next hopen =>
      have hl : bodyLines false t = l := by simpa using h
      refine ⟨hopen, hl.symm, ?_⟩
      cases t with
      | nil => rw [ho] at hopen; simp at hopen
      | cons c rest =>
          refine ⟨c, rest, rfl, ?_⟩
          rw [← hl, bodyLines, if_neg (by simp)]
  · simp at h

/-! ## All kinds -/

/-- A lexeme is a start of the text, and it is not empty. -/
theorem lexeme?_isPrefix {k : Terminal} {t l : Text} (h : k.lexeme? t = some l) :
    l <+: t ∧ l ≠ [] := by
  have body : ∀ {opens : Text → Bool}, opens [] = false → bodyIf opens t = some l →
      l <+: t ∧ l ≠ [] := by
    intro opens ho hb
    obtain ⟨-, hl, c, rest, -, hc⟩ := bodyIf_spec ho hb
    exact ⟨hl ▸ bodyLines_isPrefix false t, by rw [hc]; simp⟩
  cases k with
  | endOfLine =>
      obtain ⟨g, rest, -, rfl, rfl⟩ := endOfLine?_spec h
      exact ⟨⟨rest, by simp⟩, by simp⟩
  | gap =>
      obtain ⟨hl, hne⟩ := gap?_spec h
      exact ⟨hl ▸ List.takeWhile_prefix _, hne⟩
  | separatorMark =>
      obtain ⟨rfl, hp⟩ := literal?_spec h
      exact ⟨hp, by decide⟩
  | separatorText =>
      obtain ⟨hl, hne⟩ := trimmedLine?_spec h
      exact ⟨hl ▸ (stripRight_firstLine_spec t).1, hne⟩
  | variableMark =>
      obtain ⟨rfl, hp⟩ := literal?_spec h
      exact ⟨hp, by decide⟩
  | assign =>
      obtain ⟨g, rest, -, rfl, rfl⟩ := assign?_spec h
      refine ⟨?_, by simp⟩
      rw [List.prefix_append_right_inj, List.cons_prefix_cons]
      exact ⟨rfl, List.takeWhile_prefix _⟩
  | identifier =>
      obtain ⟨c, rest, rfl, -, rfl⟩ := identifier?_spec h
      exact ⟨List.cons_prefix_cons.mpr ⟨rfl, List.takeWhile_prefix _⟩, by simp⟩
  | value =>
      obtain ⟨-, -, hne, hp⟩ := value?_trimmed h
      exact ⟨hp, hne⟩
  | metadataMark =>
      obtain ⟨mark, g, c, rest, -, -, -, rfl, rfl⟩ := metadataMark?_spec h
      exact ⟨⟨c :: rest, by simp⟩, by simp⟩
  | comment =>
      obtain ⟨mark, rest, hm, rfl, -⟩ := comment?_spec h
      refine ⟨firstLine_isPrefix t, ?_⟩
      obtain ⟨rfl, rfl | rfl⟩ := commentMark?_spec hm <;> simp [firstLine]
  | preRequestMark =>
      obtain ⟨rest, rfl, rfl⟩ := preRequestMark?_spec h
      exact ⟨List.cons_prefix_cons.mpr ⟨rfl, List.takeWhile_prefix _⟩, by simp⟩
  | handlerMark =>
      obtain ⟨rest, rfl, rfl⟩ := handlerMark?_spec h
      exact ⟨List.cons_prefix_cons.mpr ⟨rfl, List.takeWhile_prefix _⟩, by simp⟩
  | script =>
      obtain ⟨code, rest, rfl, rfl, -⟩ := script?_spec h
      exact ⟨⟨rest, by simp⟩, by simp⟩
  | path =>
      obtain ⟨-, -, hne, hp⟩ := value?_trimmed h
      exact ⟨hp, hne⟩
  | redirect =>
      obtain ⟨-, hl, hne⟩ := redirect?_spec h
      exact ⟨hl ▸ (stripRight_firstLine_spec t).1, hne⟩
  | method =>
      obtain ⟨hm, c, rest, -, rfl⟩ := method?_spec h
      refine ⟨List.prefix_append _ _, ?_⟩
      rintro rfl
      exact absurd hm (by decide)
  | target =>
      obtain ⟨c, rest, rfl, -, -, -, rfl⟩ := target?_spec h
      exact ⟨List.cons_prefix_cons.mpr ⟨rfl, targetTail_isPrefix _ _⟩, by simp⟩
  | version =>
      obtain ⟨major, -, ⟨minor, rest, -, rfl, rfl⟩ | ⟨rest, rfl, rfl⟩⟩ := version?_spec h
      · exact ⟨⟨rest, by simp⟩, by simp⟩
      · exact ⟨⟨rest, by simp⟩, by simp⟩
  | header =>
      obtain ⟨key, g, rest, hk, hkey, -, ht, rfl⟩ := header?_spec h
      refine ⟨firstLine_isPrefix t, ?_⟩
      cases key with
      | nil => exact absurd rfl hk
      | cons c key =>
          have hc : c ≠ '\n' := by
            rintro rfl
            exact absurd (hkey '\n' (by simp)) (by decide)
          rw [ht]
          simp [firstLine, hc]
  | formBody => exact body rfl h
  | jsonBody => exact body rfl h
  | graphqlBody => exact body (by decide) h
  | xmlBody => exact body rfl h
  | externalBody => exact body rfl h
  | rawBody => exact body rfl h

/-! ## First characters -/

/-- Whether a lexeme of a kind may start with a character. -/
def Terminal.mayOpen (c : Char) : Terminal → Bool
  | .endOfLine => isGap c || c == '\n'
  | .gap => isGap c
  | .separatorMark => c == '#'
  | .separatorText => c != '\n'
  | .variableMark => c == '@'
  | .assign => isGap c || c == '='
  | .identifier => isIdentifierStart c
  | .value | .path => !isBlank c
  | .metadataMark | .comment => c == '#' || c == '/'
  | .preRequestMark => c == '<'
  | .handlerMark | .redirect => c == '>'
  | .script => c == '{'
  | .method => methods.any fun m => m.toList.head? == some c
  | .target => !"#@<>".toList.contains c && !isBlank c
  | .version => c == 'H'
  | .header => isHeaderKey c
  | .formBody => isFormKey c
  | .jsonBody => c == '[' || c == '{'
  | .graphqlBody => c == 'q' || c == 'm' || c == 's' || c == 'f'
  | .xmlBody | .externalBody => c == '<'
  | .rawBody => c != '\n' && c != '>'

theorem mayOpen_comment {c : Char} {t mark rest : Text}
    (h : commentMark? (c :: t) = some (mark, rest)) : (c == '#' || c == '/') = true := by
  obtain ⟨ht, rfl | rfl⟩ := commentMark?_spec h <;> injection ht with hc _ <;> simp [hc]

/-- The first character behind gaps, if there are any, or the first of the gaps. -/
theorem mayOpen_gap {c d : Char} {g t rest : Text} (hg : ∀ x ∈ g, isGap x = true)
    (ht : c :: t = g ++ d :: rest) : (isGap c || c == d) = true := by
  cases g with
  | nil =>
      injection ht with hc _
      simp [hc]
  | cons x g =>
      injection ht with hc _
      simp [hc, hg x (by simp)]

theorem mayOpen_form {c : Char} {t : Text} (h : opensForm (c :: t) = true) : isFormKey c = true := by
  unfold opensForm at h
  split at h
  · next d ds rest hk _ =>
      rw [List.takeWhile_cons] at hk
      by_cases hc : isFormKey c = true
      · exact hc
      · simp [hc] at hk
  · cases h

theorem mayOpen_json {c : Char} {t : Text} (h : opensJson (c :: t) = true) :
    (c == '[' || c == '{') = true := by
  unfold opensJson at h
  split at h
  · next heq =>
      injection heq with hc _
      simp [hc]
  · next heq =>
      injection heq with hc _
      simp [hc]
  · cases h

/-- A query opens with one of the words, so with the first letter of one. -/
theorem mayOpen_graphql {c : Char} {t : Text} (h : opensGraphql (c :: t) = true) :
    (c == 'q' || c == 'm' || c == 's' || c == 'f') = true := by
  unfold opensGraphql at h
  obtain ⟨word, hword, hopens⟩ := List.any_eq_true.mp h
  obtain ⟨rest, hrest⟩ : ∃ rest, word.toList.isPrefixOf? (c :: t) = some rest := by
    split at hopens
    · next hr => exact ⟨_, hr⟩
    · next hr => exact ⟨_, hr⟩
    · cases hopens
  have ht := (List.append_eq_of_isPrefixOf?_eq_some hrest).symm
  simp only [List.mem_cons, List.not_mem_nil, or_false] at hword
  rcases hword with rfl | rfl | rfl | rfl <;> simp at ht <;> simp [ht.1]

theorem mayOpen_xml {c : Char} {t : Text} (h : opensXml (c :: t) = true) : (c == '<') = true := by
  unfold opensXml at h
  split at h
  · next heq =>
      injection heq with hc _
      simp [hc]
  · cases h

theorem mayOpen_external {c : Char} {t : Text} (h : opensExternal (c :: t) = true) :
    (c == '<') = true := by
  unfold opensExternal at h
  split at h
  · next heq =>
      injection heq with hc _
      simp [hc]
  · cases h

theorem mayOpen_raw {c : Char} {t : Text} (h : opensRaw (c :: t) = true) :
    (c != '\n' && c != '>') = true := by
  unfold opensRaw at h
  rw [Bool.and_eq_true] at h
  have hline : c ≠ '\n' := by
    rintro rfl
    simp [firstLine] at h
  have hend : c ≠ '>' := by
    rintro rfl
    simp [endsBody] at h
  simp [hline, hend]

/-- The first character of a lexeme is of its kind's class. -/
theorem mayOpen_of_lexeme? {k : Terminal} {c : Char} {t l : Text}
    (h : k.lexeme? (c :: t) = some l) : k.mayOpen c = true := by
  cases k with
  | endOfLine =>
      obtain ⟨g, rest, hg, ht, -⟩ := endOfLine?_spec h
      exact mayOpen_gap hg ht
  | gap =>
      obtain ⟨hl, hne⟩ := gap?_spec h
      rw [hl, List.takeWhile_cons] at hne
      by_cases hc : isGap c = true
      · exact hc
      · simp [hc] at hne
  | separatorMark =>
      obtain ⟨-, u, hp⟩ := literal?_spec h
      have hc : '#' = c ∧ '#' :: '#' :: u = t := by simpa using hp
      simp [Terminal.mayOpen, ← hc.1]
  | separatorText =>
      obtain ⟨hl, hne⟩ := trimmedLine?_spec h
      have hc : c ≠ '\n' := by
        rintro rfl
        exact hne (by rw [hl]; simp [firstLine])
      simpa [Terminal.mayOpen] using hc
  | variableMark =>
      obtain ⟨-, u, hp⟩ := literal?_spec h
      have hc : '@' = c ∧ u = t := by simpa using hp
      simp [Terminal.mayOpen, ← hc.1]
  | assign =>
      obtain ⟨g, rest, hg, ht, -⟩ := assign?_spec h
      exact mayOpen_gap hg ht
  | identifier =>
      obtain ⟨d, rest, ht, hd, -⟩ := identifier?_spec (t := c :: t) h
      injection ht with hc _
      rw [hc]
      exact hd
  | value =>
      obtain ⟨d, rest, ht, hd, -⟩ := value?_spec (t := c :: t) h
      injection ht with hc _
      simp [Terminal.mayOpen, hc, hd]
  | metadataMark =>
      obtain ⟨mark, g, d, rest, rfl | rfl, -, -, ht, -⟩ := metadataMark?_spec h <;>
        injection ht with hc _ <;> simp [Terminal.mayOpen, hc]
  | comment =>
      obtain ⟨mark, rest, hm, -, -⟩ := comment?_spec h
      exact mayOpen_comment hm
  | preRequestMark =>
      obtain ⟨rest, ht, -⟩ := preRequestMark?_spec (t := c :: t) h
      injection ht with hc _
      simp [Terminal.mayOpen, hc]
  | handlerMark =>
      obtain ⟨rest, ht, -⟩ := handlerMark?_spec (t := c :: t) h
      injection ht with hc _
      simp [Terminal.mayOpen, hc]
  | script =>
      obtain ⟨code, rest, ht, -, -⟩ := script?_spec (t := c :: t) h
      injection ht with hc _
      simp [Terminal.mayOpen, hc]
  | path =>
      obtain ⟨d, rest, ht, hd, -⟩ := value?_spec (t := c :: t) h
      injection ht with hc _
      simp [Terminal.mayOpen, hc, hd]
  | redirect =>
      obtain ⟨⟨u, hp⟩, -, -⟩ := redirect?_spec h
      injection hp with hc _
      simp [Terminal.mayOpen, ← hc]
  | method =>
      obtain ⟨hm, d, rest, -, ht⟩ := method?_spec h
      obtain ⟨m, hmem, rfl⟩ := List.mem_map.mp hm
      refine List.any_eq_true.mpr ⟨m, hmem, ?_⟩
      cases hl : m.toList with
      | nil => rw [hl] at hm; exact absurd hm (by decide)
      | cons e l =>
          rw [hl] at ht
          injection ht with hc _
          simp [hc]
  | target =>
      obtain ⟨d, rest, ht, hd, hno, -, -⟩ := target?_spec (t := c :: t) h
      injection ht with hc _
      rw [hc, Terminal.mayOpen, hd, hno]
      rfl
  | version =>
      obtain ⟨major, -, ⟨minor, rest, -, ht, -⟩ | ⟨rest, ht, -⟩⟩ := version?_spec h
      · simp at ht
        simp [Terminal.mayOpen, ht.1]
      · simp at ht
        simp [Terminal.mayOpen, ht.1]
  | header =>
      obtain ⟨key, g, rest, hk, hkey, -, ht, -⟩ := header?_spec h
      cases key with
      | nil => exact absurd rfl hk
      | cons d key =>
          injection ht with hc _
          rw [hc]
          exact hkey d (by simp)
  | formBody => exact mayOpen_form (bodyIf_spec rfl h).1
  | jsonBody => exact mayOpen_json (bodyIf_spec rfl h).1
  | graphqlBody => exact mayOpen_graphql (bodyIf_spec (by decide) h).1
  | xmlBody => exact mayOpen_xml (bodyIf_spec rfl h).1
  | externalBody => exact mayOpen_external (bodyIf_spec rfl h).1
  | rawBody => exact mayOpen_raw (bodyIf_spec rfl h).1

theorem firstLexeme?_cons (k : Terminal) (ks : List Terminal) (t : Text) :
    firstLexeme? (k :: ks) t = ((k.lexeme? t).map fun l => (k, l)).or (firstLexeme? ks t) := by
  unfold firstLexeme?
  rw [List.findSome?_cons]
  cases k.lexeme? t <;> rfl

/-- Of the kinds that are tried, only those that may start with the character count. -/
theorem firstLexeme?_filter (ks : List Terminal) (c : Char) (t : Text) :
    firstLexeme? ks (c :: t) = firstLexeme? (ks.filter (Terminal.mayOpen c)) (c :: t) := by
  induction ks with
  | nil => rfl
  | cons k ks ih =>
      rw [firstLexeme?_cons, ih, List.filter_cons]
      split
      · rw [firstLexeme?_cons]
      · next hk =>
          cases hl : k.lexeme? (c :: t) with
          | none => rfl
          | some l => exact absurd (mayOpen_of_lexeme? hl) hk

/-- The kinds that are looked for at a place and may start with a character, in the order in which
    they are tried. -/
def Context.kinds (place : Context) (c : Char) : List Terminal :=
  (Terminal.all.filter place.seeks).filter (Terminal.mayOpen c)

theorem Context.lexeme?_cons (place : Context) (c : Char) (t : Text) :
    place.lexeme? (c :: t) = firstLexeme? (place.kinds c) (c :: t) :=
  firstLexeme?_filter _ c t

end HttpFile.Syntax
