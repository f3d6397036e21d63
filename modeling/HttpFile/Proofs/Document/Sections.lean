import HttpFile.Proofs.Document.RequestLines
import HttpFile.Proofs.Syntax.Boundary

/-!
# `HttpFile.Proofs.Document.Sections` — sections are read independently

A file that is cut in front of a line that starts with `###` is read as its two parts are. The scan
comes to that line at a place where the file may end, and there a separator is read as at the start of
a file. No entry takes tokens from both sides, and grouping from the right leaves the sections below
the cut as they are.

## Contents
- **Readings.** `reading_separator`, `reading_boundary`.
- **Entries.** `entries_boundary`, `outline_boundary`.
- **Documents.** `group_append`, `ofEntries_append`.
- **Files.** `normalize_append`, `parse_append`.
-/

namespace HttpFile.Syntax

open Text

/-! ## Readings -/

/-- Where a file may end, a separator is read. -/
theorem lexeme?_separatorMark {place : Context} (hp : place.mayEnd = true) (rest : Text) :
    place.lexeme? (sectionMark ++ rest) = some (.separatorMark, sectionMark) := by
  have hmark : Terminal.separatorMark.lexeme? ('#' :: '#' :: '#' :: rest) =
      some sectionMark :=
    literal?_append sectionMark rest
  show place.lexeme? ('#' :: '#' :: '#' :: rest) = _
  rw [Context.lexeme?_cons]
  cases place with
  | lineStart | headers | beforeBody | afterBody | responses | belowResponses =>
      exact firstLexeme?_here _ hmark _
  | _ => simp [Context.mayEnd] at hp

theorem next_separatorMark {place : Context} (hp : place.mayEnd = true) :
    place.next .separatorMark = some .separatorText := by
  cases place with
  | lineStart | headers | beforeBody | afterBody | responses | belowResponses => rfl
  | _ => simp [Context.mayEnd] at hp

/-- Where a file may end, the next section is read as at the start of a file. -/
theorem reading_separator {place : Context} (hp : place.mayEnd = true) {t : Text} (ht : sectionMark <+: t) :
    reading place t = reading .lineStart t := by
  obtain ⟨rest, rfl⟩ := ht
  rw [reading_step (lexeme?_separatorMark hp rest) (next_separatorMark hp),
    reading_step (lexeme?_separatorMark rfl rest) rfl]

/-- **A reading up to a separator and on.** It is that of the text above, followed by that of the text
    below. -/
theorem reading_boundary {place : Context} {u t : Text} (hu : u = [] ∧ place.mayEnd = true ∨ ['\n'] <:+ u)
    (hc : ClosesScripts u) (ht : sectionMark <+: t) :
    reading place (u ++ t) = (reading place u).bind fun ts => (reading .lineStart t).map (ts ++ ·) := by
  -- the text above gets shorter with each lexeme
  induction hn : u.length using Nat.strongRecOn generalizing place u with
  | ind n ih =>
      rcases hu with ⟨rfl, hend⟩ | ⟨w, rfl⟩
      · rw [List.nil_append, reading_nil, if_pos hend, reading_separator hend ht]
        simp
      · have htext : w ++ ['\n'] ++ t = w ++ '\n' :: t := by simp
        have hsame := place.lexeme?_boundary hc ht
        rw [← htext] at hsame
        cases hl : place.lexeme? (w ++ ['\n']) with
        | none =>
            rw [hl] at hsame
            obtain ⟨c, r, hcr⟩ := List.exists_cons_of_ne_nil (l := w ++ ['\n']) (by simp)
            rw [hcr] at hl hsame ⊢
            rw [List.cons_append] at hsame ⊢
            rw [reading_stuck hsame, reading_stuck hl]
            rfl
        | some kl =>
            obtain ⟨k, l⟩ := kl
            have hk := (Context.lexeme?_spec hl).1
            obtain ⟨⟨v, hv⟩, hne⟩ := lexeme?_isPrefix hk
            rw [hl] at hsame
            rw [← hv] at hl hsame ⊢
            rw [List.append_assoc] at hsame ⊢
            cases hnext : place.next k with
            | none =>
                rw [reading_refused hsame hnext, reading_refused hl hnext]
                rfl
            | some place' =>
                have hshort : v.length < n := by
                  have hpos := List.length_pos_iff.mpr hne
                  rw [← hn, ← hv, List.length_append]
                  omega
                have hrest : v = [] ∧ place'.mayEnd = true ∨ ['\n'] <:+ v := by
                  rcases List.eq_nil_or_concat v with rfl | ⟨v', c, rfl⟩
                  · refine .inl ⟨rfl, mayEnd_of_next (ends_line hk ?_) hnext⟩
                    rw [← List.append_nil l, hv, List.getLast?_concat]
                  · rw [List.concat_eq_append, ← List.append_assoc] at hv
                    have hlast := (List.append_inj' hv rfl).2
                    exact .inr ⟨v', by rw [List.concat_eq_append, hlast]⟩
                have hclosed : ClosesScripts v := by
                  rw [← hv] at hc
                  exact hc.of_append
                rw [reading_step hsame hnext, reading_step hl hnext, ih _ hshort hrest hclosed rfl]
                cases reading place' v <;> cases reading .lineStart t <;> simp

/-! ## Entries -/

/-- A token of another kind does not count as the next one. -/
theorem nextOf_append {k : Terminal} {s : Token} (hk : s.kind ≠ k) (us vs : List Token) :
    nextOf k (us ++ s :: vs) = nextOf k us := by
  cases us with
  | nil => simp [nextOf, Option.filter, hk]
  | cons u us => rfl

/-- Behind a mark that needs a name or a source there is one. -/
theorem ne_nil_of_expects {place place' : Context} {k : Terminal} {us : List Token}
    (hk : k ∈ [Terminal.variableMark, .metadataMark, .preRequestMark, .handlerMark])
    (hn : place.next k = some place') (hx : place'.Expects us) : us ≠ [] := by
  have hplace : place' ∈ [Context.variableName, .metadataName, .preRequestSource, .handlerSource] := by
    simp only [List.mem_cons, List.not_mem_nil, or_false] at hk
    rcases hk with rfl | rfl | rfl | rfl <;> cases place <;>
      simp [Context.next, Context.afterRequest, Terminal.isBody] at hn <;> simp [← hn]
  rintro rfl
  simp only [List.mem_cons, List.not_mem_nil, or_false] at hplace
  rcases hplace with rfl | rfl | rfl | rfl <;> simp [Context.Expects] at hx

/-- A separator does not belong to an entry that was opened before it. -/
theorem opened?_boundary {place place' : Context} {t s : Token} {us : List Token}
    (hn : place.next t.kind = some place') (hx : place'.Expects us) (hs : s.kind = .separatorMark)
    (vs : List Token) : Entry.opened? t (us ++ s :: vs) = Entry.opened? t us := by
  obtain ⟨k, l, p⟩ := t
  have named : us ≠ [] → (us ++ s :: vs).head? = us.head? ∧
      nextOf .value (us ++ s :: vs).tail = nextOf .value us.tail := by
    intro hne
    obtain ⟨u, us, rfl⟩ := List.exists_cons_of_ne_nil hne
    exact ⟨rfl, nextOf_append (by simp [hs]) us vs⟩
  cases k with
  | separatorMark =>
      show some (Entry.separator _) = some (Entry.separator _)
      rw [nextOf_append (by simp [hs])]
  | variableMark | metadataMark =>
      obtain ⟨hhead, htail⟩ := named (ne_nil_of_expects (by simp) hn hx)
      simp only [Entry.opened?, hhead, htail]
  | preRequestMark | handlerMark =>
      obtain ⟨hhead, -⟩ := named (ne_nil_of_expects (by simp) hn hx)
      simp only [Entry.opened?, hhead]
  | _ => rfl

/-- The entries above a separator are what they are without it. -/
theorem entries_boundary {place : Context} {t : Text} {ts : List Token}
    (h : reading place t = some ts) {s : Token} (hs : s.kind = .separatorMark) (vs : List Token) :
    entries (shown ts ++ s :: vs) = entries (shown ts) ++ entries (s :: vs) := by
  obtain ⟨us, hus, rfl⟩ := scan_of_reading h .start
  refine (scan_induction
    (motive := fun place _ us => place.Expects (shown (us.map Token.unplaced)) ∧
      entries (shown (us.map Token.unplaced) ++ s :: vs) =
        entries (shown (us.map Token.unplaced)) ++ entries (s :: vs)) ?_ ?_ hus).2
  · intro place hend
    exact ⟨(Scanned.nil hend).expects, rfl⟩
  · rintro place place' k l rest us p - hn ⟨hx, ih⟩
    refine ⟨expects_cons hn, ?_⟩
    rw [List.map_cons, shown_cons]
    split
    · exact ih
    · rw [List.cons_append, entries, entries, opened?_boundary hn hx hs vs, ih, List.append_assoc]

end HttpFile.Syntax

namespace HttpFile

open Text Syntax

/-- The entries of a text that starts with a separator start with it. -/
theorem outline_sectionMark {t : Text} (ht : sectionMark <+: t) {ts : List Token}
    (h : reading .lineStart t = some ts) :
    ∃ s vs, ts = s :: vs ∧ s.kind = .separatorMark := by
  obtain ⟨rest, rfl⟩ := ht
  rw [reading_step (lexeme?_separatorMark rfl rest) rfl] at h
  obtain ⟨vs, -, rfl⟩ := Option.map_eq_some_iff.mp h
  exact ⟨_, vs, rfl, rfl⟩

/-- **The entries of a text that is cut in front of a separator** are those of its parts. -/
theorem outline_boundary {u t : Text} (hu : u = [] ∨ ['\n'] <:+ u) (hc : ClosesScripts u)
    (ht : sectionMark <+: t) :
    outline .lineStart (u ++ t) =
      (outline .lineStart u).bind fun es => (outline .lineStart t).map (es ++ ·) := by
  have hstart : u = [] ∧ Context.lineStart.mayEnd = true ∨ ['\n'] <:+ u := hu.imp_left fun h => ⟨h, rfl⟩
  unfold outline
  rw [reading_boundary hstart hc ht]
  cases hread : reading .lineStart u with
  | none => rfl
  | some ts =>
      cases hrest : reading .lineStart t with
      | none => rfl
      | some us =>
          -- the text below starts with a separator, which ends every entry above it
          obtain ⟨s, vs, rfl, hs⟩ := outline_sectionMark ht hrest
          have hshown : shown (s :: vs) = s :: shown vs := by
            rw [shown_cons, if_neg (by simp [hs, Terminal.isLayout])]
          have happend : shown (ts ++ s :: vs) = shown ts ++ s :: shown vs := by
            rw [← hshown]
            exact List.filter_append ..
          show some (entries (shown (ts ++ s :: vs))) =
            some (entries (shown ts) ++ entries (shown (s :: vs)))
          rw [happend, hshown, entries_boundary hread hs]

/-! ## Documents -/

/-- Sections below are left as they are. -/
theorem group_append (es : List Entry) {es' : List Entry} {ss : List (Option Token × Section)}
    (h : group es' = { after := ss }) :
    group (es ++ es') = { group es with after := (group es).after ++ ss } := by
  induction es with
  | nil => exact h
  | cons e es ih =>
      show (group (es ++ es')).push e = _
      rw [ih]
      cases e with
      | _ => rfl

/-- What starts with a separator is made of sections. -/
theorem group_sectionMark {t : Text} (ht : sectionMark <+: t) {es : List Entry}
    (h : outline .lineStart t = some es) : ∃ ss, group es = { after := ss } := by
  obtain ⟨ts, hts, rfl⟩ := Option.map_eq_some_iff.mp h
  obtain ⟨⟨k, l, p⟩, vs, rfl, rfl⟩ := outline_sectionMark ht hts
  exact ⟨_, rfl⟩

/-- The document of entries above and below a cut. -/
theorem ofEntries_append (defaults : Defaults) (es : List Entry) {es' : List Entry}
    {ss : List (Option Token × Section)} (h : group es' = { after := ss }) :
    Document.ofEntries defaults (es ++ es') =
      { declarations := (Document.ofEntries defaults es).declarations ++
          (Document.ofEntries defaults es').declarations
        blocks := (Document.ofEntries defaults es).blocks ++ (Document.ofEntries defaults es').blocks } := by
  have hall : (group (es ++ es')).sections = (group es).sections ++ ss := by
    rw [group_append es h]
    rfl
  -- nothing stands in front of the first separator below, so that part adds no block
  have hbelow : Document.ofEntries defaults es' = Document.ofSections defaults ss := by
    unfold Document.ofEntries
    rw [h]
    rfl
  rw [hbelow]
  unfold Document.ofEntries Document.ofSections
  rw [hall, List.flatMap_append, List.map_append, List.filter_append]

/-! ## Files -/

theorem unifyNewlines_append {u : Text} (hu : '\r' ∉ u) (t : Text) :
    unifyNewlines (u ++ t) = u ++ unifyNewlines t := by
  induction u with
  | nil => rfl
  | cons c u ih =>
      have hc : c ≠ '\r' := fun he => hu (by simp [he])
      rw [List.cons_append, unifyNewlines.eq_4 _ _ (by simp [hc]) (by simp [hc]),
        ih fun hm => hu (by simp [hm])]
      rfl

/-- A text without carriage returns stays as it is in front of one that starts a section. -/
theorem normalize_append {u t : Text} (hu : '\r' ∉ u) (ht : sectionMark <+: t) :
    normalize (u ++ t) = u ++ normalize t ∧ sectionMark <+: normalize t := by
  obtain ⟨rest, rfl⟩ := ht
  have hmark : unifyNewlines (sectionMark ++ rest) = sectionMark ++ unifyNewlines rest :=
    unifyNewlines_append (by decide) rest
  have hends : endsWith (u ++ (sectionMark ++ unifyNewlines rest)) ['\n'] =
      endsWith (sectionMark ++ unifyNewlines rest) ['\n'] := by
    unfold endsWith
    rw [Bool.eq_iff_iff, List.isSuffixOf_iff_suffix, List.isSuffixOf_iff_suffix]
    constructor
    · intro h
      exact List.suffix_of_suffix_length_le h (List.suffix_append _ _) (by simp [sectionMark])
    · exact fun h => h.trans (List.suffix_append _ _)
  unfold Syntax.normalize
  simp only [unifyNewlines_append hu, hmark, hends]
  split
  · exact ⟨rfl, List.prefix_append _ _⟩
  · rw [List.append_assoc, List.append_assoc]
    exact ⟨by simp, List.prefix_append _ _⟩

theorem normalize_eq_self {u : Text} (hu : '\r' ∉ u) (hn : ['\n'] <:+ u) : normalize u = u := by
  have hends : endsWith u ['\n'] = true := by
    unfold endsWith
    rwa [List.isSuffixOf_iff_suffix]
  have hsame : unifyNewlines u = u := by simpa [unifyNewlines] using unifyNewlines_append hu []
  unfold Syntax.normalize
  simp only [hsame, if_pos hends]

/-- **Sections are read independently.** Let a text without carriage returns be empty or end in a
    newline, with every inline script closed in it. In front of a text that starts with `###`, the two are
    read exactly if each of them is, and what is read is what stands in the first and then what stands in
    the second. -/
theorem parse_append (defaults : Defaults) (source : Text) {t₁ t₂ : Text} (hr : '\r' ∉ t₁)
    (hn : t₁ = [] ∨ ['\n'] <:+ t₁) (hc : ClosesScripts t₁)
    (h₂ : ['#', '#', '#'] <+: t₂) (d : Document) :
    Document.parse defaults source (t₁ ++ t₂) = .ok d ↔
      ∃ d₁ d₂, Document.parse defaults source t₁ = .ok d₁ ∧ Document.parse defaults source t₂ = .ok d₂ ∧
        d = { declarations := d₁.declarations ++ d₂.declarations, blocks := d₁.blocks ++ d₂.blocks } := by
  obtain ⟨hnormal, hmark⟩ := normalize_append hr h₂
  have hfirst : outline .lineStart (normalize t₁) = outline .lineStart t₁ := by
    rcases hn with rfl | hn
    · rfl
    · rw [normalize_eq_self hr hn]
  -- the outline of the whole is that of the one and then that of the other
  have hboth := outline_boundary hn hc hmark
  rw [← hnormal] at hboth
  constructor
  · intro h
    obtain ⟨es, hes, rfl⟩ := outline_of_parse h
    rw [hboth] at hes
    obtain ⟨es₁, h₁, hrest⟩ := Option.bind_eq_some_iff.mp hes
    obtain ⟨es₂, hes₂, rfl⟩ := Option.map_eq_some_iff.mp hrest
    obtain ⟨ss, hss⟩ := group_sectionMark hmark hes₂
    exact ⟨_, _, parse_of_outline defaults source (hfirst.trans h₁), parse_of_outline defaults source hes₂,
      ofEntries_append defaults es₁ hss⟩
  · rintro ⟨d₁, d₂, hd₁, hd₂, rfl⟩
    obtain ⟨es₁, h₁, rfl⟩ := outline_of_parse hd₁
    obtain ⟨es₂, hes₂, rfl⟩ := outline_of_parse hd₂
    obtain ⟨ss, hss⟩ := group_sectionMark hmark hes₂
    rw [hfirst] at h₁
    rw [← ofEntries_append defaults es₁ hss]
    apply parse_of_outline
    rw [hboth, h₁, hes₂]
    rfl

/-- Two sections, the first with a script over several lines. -/
theorem parse_append_example :
    let t₁ : Text := "@host = h\n< \x7b%\n###\n%\x7d\nGET a\n\nbody\n"
    let t₂ : Text := "### next\nb"
    let d : Document := {
      declarations := [⟨"host", "h"⟩]
      blocks := [
        { request := some { url := "a", body := some "body\n", bodyKind := some .raw }
          preRequestScripts := [.inline "###"] },
        { separatorText := some "next", request := some { url := "b" } }] }
    Document.parse {} [] (t₁ ++ t₂) = .ok d ∧
      ∃ d₁ d₂, Document.parse {} [] t₁ = .ok d₁ ∧ Document.parse {} [] t₂ = .ok d₂ ∧
        d = { declarations := d₁.declarations ++ d₂.declarations, blocks := d₁.blocks ++ d₂.blocks } := by
  refine ⟨?read, (parse_append {} [] (by decide) (.inr (by decide)) (by decide) (by decide) _).mp ?read⟩
  decide +kernel

end HttpFile
