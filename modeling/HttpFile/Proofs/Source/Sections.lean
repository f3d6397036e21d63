import HttpFile.Proofs.Text.Line
import HttpFile.Proofs.Text.Replace
import HttpFile.Source.Bruno.Section

/-!
# `HttpFile.Proofs.Source.Sections` — the sections of a file, written and read

A section is written as a line with its name and a bracket, its lines, and a line with the closing bracket.
Inside of a section only that last line counts, whatever the others look like. So the sections of a text
that was written are found again, and without the last line the last section stays open.

## Contents
- **Lines.** `LineEnd`, `IsLine`; `unpaired_intercalate`: ends of lines do not matter.
- **Written sections.** `WrittenSection`, `WrittenSection.IsWritable`.
- **Reading.** `sectionsFrom_blank`, `sectionsFrom_opened`, `sectionsFrom_written`: what each line does.
- **Main result.** `readSections_written`, with an example.
-/

namespace HttpFile.Source.Bruno

open Text Unicode

/-! ## Lines -/

/-- What stands between two lines: a newline, alone or with a carriage return before it. -/
inductive LineEnd where
  | newline
  | pair
deriving DecidableEq, Repr

/-- The end of a line as it is written. -/
def LineEnd.text : LineEnd → Text
  | .newline => ['\n']
  | .pair => ['\r', '\n']

/-- A text that can stand in front of the end of a line and is not read as more or less than it. -/
structure IsLine (line : Text) : Prop where
  newline : '\n' ∉ line
  last : line.getLast? ≠ some '\r'

instance (line : Text) : Decidable (IsLine line) :=
  decidable_of_iff ('\n' ∉ line ∧ line.getLast? ≠ some '\r') ⟨fun h => ⟨h.1, h.2⟩, fun h => ⟨h.1, h.2⟩⟩

/-- Nothing is replaced in a line, whatever stands behind it. -/
theorem unpaired_line {line : Text} (h : IsLine line) (t : Text) :
    replaceAll ['\r', '\n'] ['\n'] (line ++ t) = line ++ replaceAll ['\r', '\n'] ['\n'] t := by
  rw [replaceAll_eq (by simp), replaceAll_eq (by simp)]
  refine replaceFrom_pass fun before rest hsplit hne hp => ?_
  match rest, hne with
  | [c], _ =>
      -- the last character of the line would be a carriage return
      obtain rfl : '\r' = c := (List.cons_prefix_cons.mp hp).1
      exact h.last (by rw [hsplit]; simp)
  | c :: d :: rest, _ =>
      obtain ⟨-, hp⟩ := List.cons_prefix_cons.mp hp
      obtain rfl : '\n' = d := (List.cons_prefix_cons.mp hp).1
      exact h.newline (by rw [hsplit]; simp)

/-- The end of a line becomes a newline. -/
theorem unpaired_lineEnd (e : LineEnd) (t : Text) :
    replaceAll ['\r', '\n'] ['\n'] (e.text ++ t) = '\n' :: replaceAll ['\r', '\n'] ['\n'] t := by
  cases e with
  | newline => exact replaceAll_cons (by simp)
  | pair => exact replaceAll_pattern_append (by simp)

/-- **The ends of lines do not matter.** -/
theorem unpaired_intercalate (e : LineEnd) {lines : List Text} (h : ∀ line ∈ lines, IsLine line) :
    replaceAll ['\r', '\n'] ['\n'] (e.text.intercalate lines) = ['\n'].intercalate lines := by
  induction lines with
  | nil => rfl
  | cons line lines ih =>
      have hline := h line (by simp)
      cases lines with
      | nil => simpa [replaceAll, replaceFrom] using unpaired_line hline []
      | cons next lines =>
          rw [List.intercalate_cons_cons, List.intercalate_cons_cons, List.append_assoc, unpaired_line hline,
            unpaired_lineEnd, ih fun m hm => h m (List.mem_cons_of_mem line hm)]
          simp

/-! ## Written sections -/

/-- The two kinds of brackets. -/
inductive Bracket where
  | curly
  | square
deriving DecidableEq, Repr

/-- The bracket that opens a section. -/
def Bracket.opener : Bracket → Char
  | .curly => '\x7b'
  | .square => '['

/-- The bracket that closes it. -/
def Bracket.closer : Bracket → Char
  | .curly => '\x7d'
  | .square => ']'

/-- A section, the kind of its brackets, and the lines above it that are blank. -/
structure WrittenSection where
  gap : List Text
  bracket : Bracket
  content : Section
deriving DecidableEq, Repr

/-- The line that opens a section. -/
def WrittenSection.opening (w : WrittenSection) : Text := w.content.name ++ [' ', w.bracket.opener]

/-- The lines of a section without the one that closes it. -/
def WrittenSection.opened (w : WrittenSection) : List Text := w.gap ++ w.opening :: w.content.lines

/-- The lines of a section. -/
def WrittenSection.written (w : WrittenSection) : List Text := w.opened ++ [[w.bracket.closer]]

/-- Lines that are blank. -/
def AreBlank (lines : List Text) : Prop := ∀ line ∈ lines, IsLine line ∧ allBlank line = true

instance (lines : List Text) : Decidable (AreBlank lines) := inferInstanceAs (Decidable (∀ line ∈ lines, _))

/-- A section whose name is a name, and of whose lines none closes it. -/
structure WrittenSection.IsWritable (w : WrittenSection) : Prop where
  gap : AreBlank w.gap
  named : w.content.name ≠ []
  name : ∀ c ∈ w.content.name, isNameChar c = true
  line : ∀ line ∈ w.content.lines, IsLine line
  inside : ∀ line ∈ w.content.lines, stripRight line ≠ [w.bracket.closer]

theorem isBlank_bracket (b : Bracket) : isBlank b.opener = false ∧ isBlank b.closer = false := by
  cases b <;> decide

theorem not_isNameChar_space : isNameChar ' ' = false := by decide

/-- A solid character ends no line with a carriage return. -/
theorem isLine_append {t : Text} {c : Char} (ht : '\n' ∉ t) (hc : isBlank c = false) : IsLine (t ++ [c]) where
  newline := by
    rw [List.mem_append, List.mem_singleton]
    rintro (h | rfl)
    · exact ht h
    · exact absurd hc (by decide)
  last := by
    rw [List.getLast?_concat]
    rintro h
    obtain rfl := Option.some.inj h
    exact absurd hc (by decide)

theorem WrittenSection.IsWritable.isLine_opened {w : WrittenSection} (h : w.IsWritable) :
    ∀ line ∈ w.opened, IsLine line := by
  intro line hline
  unfold opened at hline
  rcases List.mem_append.mp hline with hline | hline
  · exact (h.gap line hline).1
  rcases List.mem_cons.mp hline with rfl | hline
  · have hname : '\n' ∉ w.content.name := fun hn => by
      have := h.name _ hn
      revert this
      decide
    have hopening : w.opening = (w.content.name ++ [' ']) ++ [w.bracket.opener] := by simp [opening]
    rw [hopening]
    exact isLine_append (by simpa using hname) (isBlank_bracket w.bracket).1
  · exact h.line line hline

theorem WrittenSection.IsWritable.isLine_written {w : WrittenSection} (h : w.IsWritable) :
    ∀ line ∈ w.written, IsLine line := by
  intro line hline
  rcases List.mem_append.mp hline with hline | hline
  · exact h.isLine_opened line hline
  · obtain rfl := List.mem_singleton.mp hline
    exact isLine_append (t := []) (by simp) (isBlank_bracket w.bracket).2

theorem isLine_flatMap_written {ws : List WrittenSection} (h : ∀ w ∈ ws, w.IsWritable) :
    ∀ line ∈ ws.flatMap (·.written), IsLine line := by
  intro line hline
  obtain ⟨w, hw, hline⟩ := List.mem_flatMap.mp hline
  exact (h w hw).isLine_written line hline

/-! ## Reading -/

theorem AreBlank.stripRight {lines : List Text} (h : AreBlank lines) {line : Text} (hline : line ∈ lines) :
    Text.stripRight line = [] :=
  stripRight_eq_nil_iff.mpr (by simpa [allBlank] using (h line hline).2)

/-- A blank line opens no section. -/
theorem opening?_blank {line : Text} (h : stripRight line = []) : opening? line = none := by
  unfold opening?
  rw [h]
  rfl

/-- The line that opens a section tells its name and what closes it. -/
theorem opening?_opening {w : WrittenSection} (h : w.IsWritable) :
    opening? w.opening = some (w.content.name, w.bracket.closer) := by
  have hsplit : w.opening = w.content.name ++ ' ' :: [w.bracket.opener] := rfl
  have hstrip : stripRight w.opening = w.opening := by
    have hopening : w.opening = (w.content.name ++ [' ']) ++ [w.bracket.opener] := by simp [WrittenSection.opening]
    rw [hopening]
    exact stripRight_append_solid _ (isBlank_bracket w.bracket).1
  have htake : w.opening.takeWhile isNameChar = w.content.name := by
    rw [hsplit]
    exact takeWhile_append_stop h.name not_isNameChar_space
  have hdrop : (w.opening.dropWhile isNameChar).dropWhile isGap = [w.bracket.opener] := by
    rw [hsplit, dropWhile_append_stop h.name not_isNameChar_space]
    cases w.bracket <;> rfl
  unfold opening?
  simp only [hstrip, htake, hdrop]
  rw [if_neg (by simpa using h.named)]
  cases w.bracket <;> rfl

/-- Blank lines outside of a section do not count. -/
theorem sectionsFrom_blank {gap : List Text} (h : AreBlank gap) (rest : List Text) :
    sectionsFrom none (gap ++ rest) = sectionsFrom none rest := by
  induction gap with
  | nil => rfl
  | cons line gap ih =>
      rw [List.cons_append, sectionsFrom, opening?_blank (h.stripRight (by simp))]
      exact ih fun m hm => h m (List.mem_cons_of_mem line hm)

/-- Lines inside of a section are added to it, unless one closes it. -/
theorem sectionsFrom_inside {closer : Char} {lines : List Text} (h : ∀ line ∈ lines, stripRight line ≠ [closer])
    (s : Section) (rest : List Text) :
    sectionsFrom (some (s, closer)) (lines ++ rest) =
      sectionsFrom (some ({ s with lines := s.lines ++ lines }, closer)) rest := by
  induction lines generalizing s with
  | nil => rw [List.nil_append, List.append_nil]
  | cons line lines ih =>
      rw [List.cons_append, sectionsFrom, if_neg (h line (by simp)),
        ih fun m hm => h m (List.mem_cons_of_mem line hm)]
      simp

/-- Without its last line a section is open. -/
theorem sectionsFrom_opened {w : WrittenSection} (h : w.IsWritable) (rest : List Text) :
    sectionsFrom none (w.opened ++ rest) = sectionsFrom (some (w.content, w.bracket.closer)) rest := by
  unfold WrittenSection.opened
  rw [List.append_assoc, sectionsFrom_blank h.gap, List.cons_append, sectionsFrom, opening?_opening h]
  exact sectionsFrom_inside h.inside ⟨w.content.name, []⟩ rest

/-- **A section that was written is read**, and then what is behind it. -/
theorem sectionsFrom_written {w : WrittenSection} (h : w.IsWritable) (rest : List Text) :
    sectionsFrom none (w.written ++ rest) = (sectionsFrom none rest).map (w.content :: ·) := by
  have hcloser : stripRight [w.bracket.closer] = [w.bracket.closer] :=
    stripRight_append_solid [] (isBlank_bracket w.bracket).2
  unfold WrittenSection.written
  rw [List.append_assoc, sectionsFrom_opened h, List.singleton_append, sectionsFrom, if_pos hcloser]

/-- All sections that were written are read, and then what is behind them. -/
theorem sectionsFrom_flatMap_written {ws : List WrittenSection} (h : ∀ w ∈ ws, w.IsWritable) (rest : List Text) :
    sectionsFrom none (ws.flatMap (·.written) ++ rest) =
      (sectionsFrom none rest).map (ws.map (·.content) ++ ·) := by
  induction ws with
  | nil => cases hrest : sectionsFrom none rest <;> simp [hrest, Except.map]
  | cons w ws ih =>
      rw [List.flatMap_cons, List.append_assoc, sectionsFrom_written (h w (by simp)),
        ih fun v hv => h v (List.mem_cons_of_mem w hv)]
      cases sectionsFrom none rest <;> rfl

/-- The lines of a text are read as they were written. -/
theorem readSections_intercalate (e : LineEnd) {lines : List Text} (hne : lines ≠ [])
    (h : ∀ line ∈ lines, IsLine line) : readSections (e.text.intercalate lines) = sectionsFrom none lines := by
  unfold readSections
  obtain ⟨line, lines, rfl⟩ := List.exists_cons_of_ne_nil hne
  rw [unpaired_intercalate e h, fieldsAt_intercalate fun m hm => (h m hm).newline]

/-! ## Main result -/

/-- **Reading sections undoes writing them.** Some sections, blank lines above each of them and behind the
    last one (an empty one behind it ends the text with the end of a line), written with either end of
    lines: reading gives their names and lines in order. Without the line that closes the last section,
    that section is reported as open. -/
theorem readSections_written (e : LineEnd) {ws : List WrittenSection} {last : WrittenSection} {tail : List Text}
    (hws : ∀ w ∈ ws ++ [last], w.IsWritable) (htail : AreBlank tail) :
    readSections (e.text.intercalate ((ws ++ [last]).flatMap (·.written) ++ tail)) =
        .ok ((ws ++ [last]).map (·.content)) ∧
      readSections (e.text.intercalate (ws.flatMap (·.written) ++ last.opened ++ tail)) =
        .error (.openSection last.content.name) := by
  have hlast : last.IsWritable := hws last (by simp)
  have hfirst : ∀ w ∈ ws, w.IsWritable := fun w hw => hws w (by simp [hw])
  have htailLine : ∀ line ∈ tail, IsLine line := fun line hline => (htail line hline).1
  constructor
  · have hlines : ∀ line ∈ (ws ++ [last]).flatMap (·.written) ++ tail, IsLine line :=
      List.forall_mem_append.mpr ⟨isLine_flatMap_written hws, htailLine⟩
    have htailRead : sectionsFrom none tail = .ok [] := by
      rw [← List.append_nil tail, sectionsFrom_blank htail]
      rfl
    rw [readSections_intercalate e (by simp [WrittenSection.written]) hlines, sectionsFrom_flatMap_written hws,
      htailRead]
    simp [Except.map]
  · have hlines : ∀ line ∈ ws.flatMap (·.written) ++ last.opened ++ tail, IsLine line :=
      List.forall_mem_append.mpr
        ⟨List.forall_mem_append.mpr ⟨isLine_flatMap_written hfirst, hlast.isLine_opened⟩, htailLine⟩
    -- the blank lines behind the last section are inside of it now, and none of them closes it
    have hinside : ∀ line ∈ tail, stripRight line ≠ [last.bracket.closer] := by
      intro line hline
      rw [htail.stripRight hline]
      simp
    have htailRead : sectionsFrom (some (last.content, last.bracket.closer)) tail =
        .error (.openSection last.content.name) := by
      rw [← List.append_nil tail, sectionsFrom_inside hinside]
      rfl
    rw [readSections_intercalate e (by simp [WrittenSection.opened]) hlines, List.append_assoc,
      sectionsFrom_flatMap_written hfirst, sectionsFrom_opened hlast, htailRead]
    rfl

/-- A section of which one line looks like the start of another one, and one like the end of the other kind. -/
def nestedSection : WrittenSection :=
  ⟨[[], [' ', '\t']], .curly, ⟨"body:json", ["get [", "  ]", "", " \x7d"]⟩⟩

/-- A list of two items. -/
def listSection : WrittenSection := ⟨[], .square, ⟨"vars:secret", ["  a,", "\x7d"]⟩⟩

/-- Two sections with brackets of both kinds, written with pairs. -/
theorem readSections_written_example :
    (∀ w ∈ [nestedSection] ++ [listSection], w.IsWritable) ∧ AreBlank [[]] ∧
      readSections (LineEnd.pair.text.intercalate
          (([nestedSection] ++ [listSection]).flatMap (·.written) ++ [[]])) =
        .ok [nestedSection.content, listSection.content] ∧
      readSections (LineEnd.pair.text.intercalate
          ([nestedSection].flatMap (·.written) ++ listSection.opened ++ [[]])) =
        .error (.openSection "vars:secret") := by
  have hwritable : ∀ w ∈ [nestedSection] ++ [listSection], w.IsWritable := by
    intro w hw
    simp only [List.singleton_append, List.mem_cons, List.not_mem_nil, or_false] at hw
    rcases hw with rfl | rfl
    · exact ⟨by decide, by decide, by decide, by decide, by decide⟩
    · exact ⟨by decide, by decide, by decide, by decide, by decide⟩
  have hblank : AreBlank [[]] := by decide
  exact ⟨hwritable, hblank, readSections_written .pair hwritable hblank⟩

end HttpFile.Source.Bruno
