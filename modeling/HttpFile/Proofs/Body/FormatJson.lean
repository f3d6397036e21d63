import HttpFile.Body.Format
import HttpFile.Proofs.Body.Restore

/-!
# `HttpFile.Proofs.Body.FormatJson` — what formatting a JSON body keeps

A body with placeholders says a template, and formatting writes that template: the placeholders are the holes, a key
that comes again has its last value, and nothing else changes. This takes that no text of the template holds a marker.
The markers are chosen for the spelled body, so an escape may bring one in, and a placeholder right behind a backslash
makes a body that says no template at all. An escape may bring in half of a character as well, and it is kept; what
is written with halves is read by letting characters stand in for them.

## Contents
- **Templates of bodies.** `Unmarked`, `render`; `isToken_of_denotes`.
- **One pass.** `formatJson_of_denotes`, `exists_template`.
- **Formatted bodies.** `Says`, `says_render`; `inert_of_render`, `unmarked_of_render`, `unmarked_of_formatted`;
  `formatJson_formatted`.
- **Bodies without code units.** `spelled_of_denotes`, `unmarked_of_denotes`.
- **Main results.** `formatJson_template`, `formatJson_again`.
-/

namespace HttpFile

open Text Json Template Body Syntax

/-! ## Templates of bodies -/

/-- No text of a template holds a marker that is put for a placeholder of a body. -/
def Unmarked (t : Text) (d : Template Text) : Prop :=
  ∀ p ∈ (Guard.of t).placeholders, ∀ s ∈ d.texts, ¬letters p.1 <:+: s

/-- A template as it is written, each hole as its token. -/
def render (d : Template Text) : Wide := filled letters (word 0 d)

theorem unmarked_iff {t : Text} {d : Template Text} :
    Unmarked t d ↔ ∀ a ∈ labels t, ∀ s ∈ d.texts, ¬letters (nameOf t a) <:+: s := by
  unfold Unmarked
  rw [guard_of]
  exact List.forall_mem_map

section
variable {t : Text} {d : Template Text}

theorem labelled_of_denotes (h : Denotes atoms t d) : ∃ d', Denotes labelled t d' ∧ d'.map Prod.snd = d := by
  rw [atoms_eq] at h
  exact h.lift

/-- The placeholders of a body outside quotes are the holes of its template. -/
theorem unquoted_of_denotes (h : Denotes atoms t d) : unquoted t = d.holes := by
  obtain ⟨d', hd', rfl⟩ := labelled_of_denotes h
  rw [unquoted, (denotes_guarded (naming_nameOf t) hd').2, holes_map]

theorem isToken_of_denotes (h : Denotes atoms t d) : ∀ token ∈ d.holes, IsToken token := by
  intro token htoken
  rw [← unquoted_of_denotes h] at htoken
  obtain ⟨a, ha, rfl⟩ := List.mem_map.mp htoken
  exact (isToken_of_mem_labels ha).1

theorem holes_settled_subset (d : Template Text) : d.settled.holes ⊆ d.holes := fun _ h =>
  mem_holes.mpr (leaves_settled_subset d (mem_holes.mp h))

end

/-! ## One pass -/

theorem Body.IsToken.trimmed {token : Text} (h : IsToken token) : Trimmed token := by
  obtain ⟨u, rfl⟩ := h.ends
  exact trimmed_between (by decide) (by decide) u

theorem reading_render (φ : StandIn) (d : Template Text) :
    reading φ (render d) = spell (spelled φ id) (word 0 d) := reading_filled φ id (word 0 d)

/-- A template that is written has no blanks at its ends. -/
theorem stripWide_render {d : Template Text} (hd : ∀ token ∈ d.holes, IsToken token) :
    stripWide (render d) = render d := by
  refine eq_of_readings fun φ => ?_
  rw [stripWide, reading_trimWhere, reading_render]
  exact trimmed_word (h := spelled φ id) (fun token htoken => (hd token htoken).trimmed) 0

/-- **Formatting writes the template of a body.** -/
theorem formatJson_of_denotes {t : Text} {d : Template Text} (h : Denotes atoms t d) (hfresh : Unmarked t d.settled) :
    formatJson t = .ok (render d.settled) := by
  have htokens := isToken_of_denotes h
  obtain ⟨d, hd, rfl⟩ := labelled_of_denotes h
  obtain ⟨hguarded, hlabels⟩ := denotes_guarded (naming_nameOf t) hd
  rw [unmarked_iff, settled_map, texts_map] at hfresh
  -- the names are fresh, so keys that differ with placeholders differ with names
  have hsettled : (d.plain (nameOf t)).settled = d.settled.plain (nameOf t) := by
    refine settled_exchange ?_ fun a ha s hs he => ?_
    · rw [← hlabels]
      refine (pairwise_labelsOf _).imp_of_mem fun {a b} ha hb hlt u hu hv => ?_
      have hsame : nameOf t a = nameOf t b := letters_injective (Sum.inl.inj (hu.trans hv.symm))
      obtain rfl := eq_of_infix_names ha hb (hsame ▸ List.infix_refl _)
      exact Nat.lt_irrefl _ hlt
    · rw [← hlabels] at ha
      exact hfresh a ha s hs (Sum.inl.inj he ▸ List.infix_refl _)
  have hparse : Json.parse (Guard.of t).text = .ok (d.settled.plain (nameOf t)).toValue := by
    rw [guard_of]
    exact parse_iff.mpr ⟨_, hguarded, by rw [hsettled]⟩
  have hprinted : (Json.write? .indented (d.settled.plain (nameOf t)).toValue).getD [] =
      filled (fun a => letters (Body.quoted (nameOf t a))) (word 0 d.settled) := by
    have hnames : ∀ a, writeString false (letters (nameOf t a)) = letters (Body.quoted (nameOf t a)) := fun a =>
      writeString_name (naming_nameOf t a).1
    unfold write?
    rw [writeAt?_written, Option.getD_some, written_indented, Template.plain, filled_exchange]
    simp only [Sum.elim_inl, hnames]
  have hholes : ∀ a ∈ d.settled.holes, a ∈ labels t := by
    intro a ha
    rw [hlabels]
    exact mem_holes.mpr (leaves_settled_subset d (mem_holes.mp ha))
  have hrender : filled (fun a => letters a.2) (word 0 d.settled) = render (d.map Prod.snd).settled := by
    rw [render, settled_map, Template.map, filled_exchange]
    rfl
  -- what is printed is restored, and nothing of it is left to strip
  unfold formatJson
  dsimp only
  rw [hparse]
  dsimp only
  rw [hprinted, restore_word hfresh hholes, hrender]
  exact congrArg Except.ok (stripWide_render fun token htoken => htokens token (holes_settled_subset _ htoken))

/-- A body without a placeholder behind a backslash is formatted only if it says a template. -/
theorem exists_template {t : Text} {out : Wide} (h : formatJson t = .ok out) (hfree : ¬Escaping t) :
    ∃ d, Denotes atoms t d := by
  have hparse : ∃ v, Json.parse (Guard.of t).text = .ok v := by
    unfold formatJson at h
    dsimp only at h
    split at h
    · cases h
    · next v hv => exact ⟨v, hv⟩
  obtain ⟨v, hv⟩ := hparse
  rw [guard_of] at hv
  obtain ⟨d', hd', -⟩ := parse_iff.mp hv
  obtain ⟨d, hd, -⟩ := denotes_of_guarded (naming_nameOf t) hd' hfree
  refine ⟨d.map Prod.snd, ?_⟩
  rw [atoms_eq]
  obtain ⟨r, hread, hr⟩ := hd
  exact ⟨r, hread.map, hr⟩

/-! ## Formatted bodies -/

/-- What a wide text says: whatever characters stand in for its halves, the text is a template with these
    characters in the place of halves. -/
def Says (w : Wide) (d : Template Text) : Prop :=
  ∀ φ, ∃ d', Denotes atoms (reading φ w) d' ∧ d'.reading φ = d.reading φ

/-- A text says the template that it denotes. -/
theorem says_letters {t : Text} {d : Template Text} : Says (letters t) d ↔ Denotes atoms t d := by
  obtain ⟨φ, -, -⟩ := exists_standIns
  constructor
  · intro h
    obtain ⟨d', hd', -⟩ := h φ
    rw [reading_letters] at hd'
    have hsame : d' = d := by
      refine Template.eq_of_readings fun ψ => ?_
      obtain ⟨e, he, hread⟩ := h ψ
      rw [reading_letters] at he
      rw [← hread, hd'.unique braced_atoms he]
    exact hsame ▸ hd'
  · intro h ψ
    exact ⟨d, by rwa [reading_letters], rfl⟩

section
variable {d : Template Text} (hd : ∀ token ∈ d.holes, IsToken token)
include hd

theorem reads_render (φ : StandIn) : Reads atoms (.value (d.reading φ)) (reading φ (render d)) [] := by
  have hspelt : ∀ token ∈ d.holes, Spelt atoms id token := fun token htoken r =>
    atoms_iff.mpr ⟨hd token htoken, rfl⟩
  have hread := reads_word φ braced_atoms.opens_brace hspelt 0 [] Quits.nil
  rwa [List.append_nil, ← reading_render] at hread

theorem denotes_render (φ : StandIn) : Denotes atoms (reading φ (render d)) (d.reading φ) := by
  have hread := reads_render hd φ
  refine ⟨[], ?_, rfl⟩
  rwa [skipBlanks_of_opens (hread.opens braced_atoms.opens_brace)]

/-- **A template that is written says itself**, and nothing else. -/
theorem says_render {d' : Template Text} : Says (render d) d' ↔ d' = d := by
  constructor
  · intro h
    refine Template.eq_of_readings fun φ => ?_
    obtain ⟨e, he, hread⟩ := h φ
    rw [← hread, ← he.unique braced_atoms (denotes_render hd φ), reading_reading]
  · rintro rfl φ
    exact ⟨_, denotes_render hd φ, reading_reading φ _⟩

variable {v : Text} (hv : render d = letters v)
include hv

/-- A template that is written without halves is what the text denotes. -/
theorem denotes_of_render : Denotes atoms v d := by
  rw [← says_letters, ← hv]
  exact (says_render hd).mpr rfl

/-- A template that is written is inert as a body. -/
theorem inert_of_render : Inert v := by
  have hmark : ∀ {c : Char} {u : Text}, c ≠ '#' → c ≠ '>' → endsBody (c :: u) = false := by
    intro c u hhash hgreater
    unfold endsBody
    rw [Bool.or_eq_false_iff, Bool.eq_false_iff, Bool.eq_false_iff, ne_eq, ne_eq, List.isPrefixOf_iff_prefix,
      List.isPrefixOf_iff_prefix]
    exact ⟨fun h => hhash (List.cons_prefix_cons.mp h).1.symm, fun h => hgreater (List.cons_prefix_cons.mp h).1.symm⟩
  obtain ⟨φ, -, -⟩ := exists_standIns
  have hread := reads_render hd φ
  have hspelled := reading_render φ d
  rw [hv, reading_letters] at hread hspelled
  have hindented : Indented v := by
    rw [hspelled]
    refine indented_word (fun token htoken => (hd token htoken).newline_notMem) (fun x => ?_) 0
    show '\n' ∉ [φ.char x]
    rw [List.mem_singleton]
    exact (φ.ne_of_lt (by decide) x).symm
  refine inert_iff.mpr ⟨?_, fun u w huw => ?_⟩
  · obtain ⟨c, u, hstart, hc⟩ := hread.opens braced_atoms.opens_brace
    rw [hstart]
    refine hmark ?_ ?_ <;> rintro rfl <;> exact absurd hc (by decide)
  · obtain ⟨c, x, rfl, rfl | rfl | rfl⟩ := hindented u w huw <;> exact hmark (by decide) (by decide)

end

/-- A name in a text of a template is in the template as it is written. -/
theorem name_in_render {d : Template Text} {m : Text} {s : Wide} (hm : ∀ c ∈ m, isNameChar c = true) (hs : s ∈ d.texts)
    (hin : letters m <:+: s) : letters m <:+: render d := by
  obtain ⟨u, v, rfl⟩ := hin
  have hword : writeString false (u ++ letters m ++ v) <:+: render d := by
    have hraised : raised (writeString false (u ++ letters m ++ v)) <:+: word 0 d := text_infix_word hs
    have hfilled := fill_infix (g := Sum.elim letters fun x => [.inr x]) hraised
    rwa [← filled, filled_raised] at hfilled
  refine List.IsInfix.trans ?_ hword
  have hinside : escaped false (u ++ letters m ++ v) = escaped false u ++ letters m ++ escaped false v := by
    rw [escaped_append, escaped_append, escaped_name hm]
  rw [writeString, hinside]
  exact ⟨.inl '"' :: escaped false u, escaped false v ++ [.inl '"'], by simp⟩

/-- No marker for a layout is in one of its texts, whatever the texts are. -/
theorem unmarked_of_render {d : Template Text} {v : Text} (hv : render d = letters v) : Unmarked v d := by
  rw [unmarked_iff]
  intro a _ s hs hin
  have hname := name_in_render (naming_nameOf v a).1 hs hin
  rw [hv] at hname
  exact name_fresh a (infix_letters hname)

/-- What is written for a template holds a marker where the template is not unmarked, and no formatted body does. -/
theorem unmarked_of_formatted {t : Text} {d : Template Text} (h : formatJson t = .ok (render d)) : Unmarked t d := by
  rw [unmarked_iff]
  intro a ha s hs hin
  have hmarked := name_in_render (naming_nameOf t a).1 hs hin
  unfold formatJson at h
  dsimp only at h
  split at h
  · cases h
  · next v hv =>
      rw [← Except.ok.inj h] at hmarked
      exact name_notIn_restoreWide ha _ (hmarked.trans (trimWhere_isInfix _ _))

/-- **A template that was written is written again as it is.** -/
theorem formatJson_formatted {w v : Text} {d : Template Text} (h : formatJson w = .ok (letters v))
    (hd : Denotes atoms w d) (hfresh : Unmarked w d.settled) : formatJson v = .ok (letters v) := by
  have hv : render d.settled = letters v := Except.ok.inj ((formatJson_of_denotes hd hfresh).symm.trans h)
  have hrender := denotes_of_render (fun token htoken => isToken_of_denotes hd token (holes_settled_subset d htoken)) hv
  have hagain := formatJson_of_denotes hrender (by rw [settled_settled]; exact unmarked_of_render hv)
  rwa [settled_settled, hv] at hagain

/-! ## Bodies without code units -/

/-- A text is spelled somewhere in another one. -/
def SpelledIn (t : Text) (s : Wide) : Prop := ∃ w, Spells w s ∧ w <:+: t

theorem SpelledIn.of_suffix {u t : Text} {s : Wide} (h : SpelledIn u s) (hu : u <:+ t) : SpelledIn t s := by
  obtain ⟨w, hw, hin⟩ := h
  exact ⟨w, hw, hin.trans hu.isInfix⟩

theorem suffix_of_skipBlanks {u v : Text} {c : Char} (h : skipBlanks u = c :: v) : v <:+ u :=
  (List.suffix_cons c v).trans (h ▸ skipBlanks_suffix u)

theorem spelledIn_of_readsKey {k : Key Text} {t r : Text} (h : ReadsKey atoms k t r) :
    r <:+ t ∧ ∀ s, k.leaf = .inr s → SpelledIn t s := by
  cases h with
  | hole h =>
      obtain ⟨-, rfl⟩ := atoms_iff.mp h
      refine ⟨List.suffix_append _ _, fun s hs => ?_⟩
      cases hs
  | @text w s r hw =>
      refine ⟨⟨'"' :: (w ++ ['"']), by simp⟩, fun s' hs => ?_⟩
      obtain rfl := Sum.inr.inj hs
      exact ⟨w, hw, ⟨['"'], '"' :: r, by simp⟩⟩

/-- **Every text of a template is spelled in the body that says it.** -/
theorem spelledIn_of_reads {p : Json.Part Text} {t r : Text} (h : Reads atoms p t r) :
    r <:+ t ∧ ∀ s, .inr s ∈ leavesOf p → SpelledIn t s := by
  -- what is read is an end of the body each time, so a text that is spelled there is spelled in the
  -- body
  induction h with
  | hole h =>
      obtain ⟨-, rfl⟩ := atoms_iff.mp h
      exact ⟨List.suffix_append _ _, fun s hs => by simp [leavesOf, Template.leaves] at hs⟩
  | @text w s r hw =>
      refine ⟨⟨'"' :: (w ++ ['"']), by simp⟩, fun s' hs => ?_⟩
      obtain rfl : s' = s := by simpa [leavesOf, Template.leaves] using hs
      exact ⟨w, hw, ⟨['"'], '"' :: r, by simp⟩⟩
  | scalar h =>
      obtain ⟨⟨u, rfl, -⟩, -, -⟩ := scalar?_spec h
      exact ⟨List.suffix_append _ _, fun s hs => by simp [leavesOf, Template.leaves] at hs⟩
  | @emptyList t r hclose =>
      refine ⟨(suffix_of_skipBlanks hclose).trans (List.suffix_cons _ t), fun s hs => ?_⟩
      simp [leavesOf, Template.leaves, leavesItems] at hs
  | @list ds t r h ih =>
      have ht := (skipBlanks_suffix t).trans (List.suffix_cons '[' t)
      exact ⟨ih.1.trans ht, fun s hs => (ih.2 s hs).of_suffix ht⟩
  | @emptyDict t r hclose =>
      refine ⟨(suffix_of_skipBlanks hclose).trans (List.suffix_cons _ t), fun s hs => ?_⟩
      simp [leavesOf, Template.leaves, leavesEntries] at hs
  | @dict es t r h ih =>
      have ht := (skipBlanks_suffix t).trans (List.suffix_cons '{' t)
      exact ⟨ih.1.trans ht, fun s hs => (ih.2 s hs).of_suffix ht⟩
  | lastItem h hclose ih =>
      refine ⟨(suffix_of_skipBlanks hclose).trans ih.1, fun s hs => ih.2 s ?_⟩
      simpa [leavesOf, leavesItems] using hs
  | @item d ds t u v r h hcomma hmore ih ihmore =>
      have hv := (skipBlanks_suffix v).trans ((suffix_of_skipBlanks hcomma).trans ih.1)
      refine ⟨ihmore.1.trans hv, fun s hs => ?_⟩
      rcases List.mem_append.mp hs with hs | hs
      · exact ih.2 s hs
      · exact (ihmore.2 s hs).of_suffix hv
  | @lastEntry k d t u v x r hkey hcolon h hclose ih =>
      have hk := spelledIn_of_readsKey hkey
      have hv := (skipBlanks_suffix v).trans ((suffix_of_skipBlanks hcolon).trans hk.1)
      refine ⟨(suffix_of_skipBlanks hclose).trans (ih.1.trans hv), fun s hs => ?_⟩
      rcases List.mem_cons.mp hs with hs | hs
      · exact hk.2 s hs.symm
      · exact (ih.2 s (by simpa [leavesOf, leavesEntries] using hs)).of_suffix hv
  | @entry k d es t u v x y r hkey hcolon h hcomma hmore ih ihmore =>
      have hk := spelledIn_of_readsKey hkey
      have hv := (skipBlanks_suffix v).trans ((suffix_of_skipBlanks hcolon).trans hk.1)
      have hy := (skipBlanks_suffix y).trans ((suffix_of_skipBlanks hcomma).trans (ih.1.trans hv))
      refine ⟨ihmore.1.trans hy, fun s hs => ?_⟩
      rcases List.mem_cons.mp hs with hs | hs
      · exact hk.2 s hs.symm
      · rcases List.mem_append.mp hs with hs | hs
        · exact (ih.2 s hs).of_suffix hv
        · exact (ihmore.2 s hs).of_suffix hy

/-- The texts that are left of a template are spelled in the body. -/
theorem spelledIn_of_denotes {t : Text} {d : Template Text} (h : Denotes atoms t d) {s : Wide}
    (hs : s ∈ d.settled.texts) : SpelledIn t s := by
  obtain ⟨r, hread, -⟩ := h
  have hleaf : .inr s ∈ leavesOf (.value d) := leaves_settled_subset d (mem_texts.mp hs)
  exact ((spelledIn_of_reads hread).2 s hleaf).of_suffix (skipBlanks_suffix t)

/-- Without code units no text of a template holds a marker. -/
theorem unmarked_of_denotes {t : Text} {d : Template Text} (h : Denotes atoms t d) (hu : ¬['\\', 'u'] <:+: t) :
    Unmarked t d.settled := by
  rw [unmarked_iff]
  intro a _ s hs hin
  obtain ⟨w, hw, hwt⟩ := spelledIn_of_denotes h hs
  have hspelled := hw.isInfix_spelled (naming_nameOf t a).1 (fun hin => hu (hin.trans hwt)) hin
  exact name_fresh a (hspelled.trans hwt)

/-- Without code units a template is written without halves. -/
theorem render_of_denotes {t : Text} {d : Template Text} (h : Denotes atoms t d) (hu : ¬['\\', 'u'] <:+: t) :
    ∃ v, render d.settled = letters v := by
  refine exists_letters_filled fun x hx => ?_
  obtain ⟨s, hs, hxs⟩ := half_mem_word hx
  obtain ⟨w, hw, hwt⟩ := spelledIn_of_denotes h hs
  obtain ⟨t', rfl⟩ := hw.exists_letters fun hin => hu (hin.trans hwt)
  exact inr_notMem_letters x t' hxs

/-! ## Main results -/

/-- **Formatting keeps what a body says**, each text and each placeholder of it, exactly if no text holds a marker;
only code units bring one in. A body without a placeholder behind a backslash says something if it passes. -/
theorem formatJson_template {t : Text} {out : Wide} (h : formatJson t = .ok out) :
    (∀ d, Denotes atoms t d →
      (out = render d.settled ↔ Unmarked t d.settled) ∧
      (Unmarked t d.settled → ∀ d', Says out d' ↔ d' = d.settled) ∧
      (¬['\\', 'u'] <:+: t → Unmarked t d.settled)) ∧
    (¬Escaping t → ∃ d, Denotes atoms t d) := by
  refine ⟨fun d hd => ⟨⟨?_, fun hfresh => ?_⟩, fun hfresh d' => ?_, unmarked_of_denotes hd⟩, exists_template h⟩
  · rintro rfl
    exact unmarked_of_formatted h
  · exact Except.ok.inj (h.symm.trans (formatJson_of_denotes hd hfresh))
  · obtain rfl : out = render d.settled := Except.ok.inj (h.symm.trans (formatJson_of_denotes hd hfresh))
    exact says_render fun token htoken => isToken_of_denotes hd token (holes_settled_subset d htoken)

/-- A body with a key that comes again. -/
def againKeyed : Text := "\x7b\"k\": [], \"h\": \x7b\x7ba\x7d\x7d, \"k\": \"x\"\x7d"

theorem denotes_againKeyed : Denotes atoms againKeyed
    (.dict [(.text (letters "k"), .list []), (.text (letters "h"), .hole "\x7b\x7ba\x7d\x7d"),
      (.text (letters "k"), .text (letters "x"))]) := by
  have hk : Spells "k" (letters "k") := spells_plain (by decide)
  have hh : Spells "h" (letters "h") := spells_plain (by decide)
  have hx : Spells "x" (letters "x") := spells_plain (by decide)
  refine ⟨[], .dict (.entry (.text _ hk) rfl (.emptyList rfl) rfl ?_), rfl⟩
  exact .entry (.text _ hh) rfl (.hole rfl) rfl (.lastEntry (.text _ hk) rfl (.text _ hx) rfl)

/-- The body in canonical form. -/
def againKeyedLines : Text := "\x7b\n  \"k\": \"x\",\n  \"h\": \x7b\x7ba\x7d\x7d\n\x7d"

/-- The second value of the key stands at the place of the first one, and the placeholder behind it. -/
theorem formatJson_template_example :
    formatJson againKeyed = .ok (letters againKeyedLines) ∧
      ∀ d, Says (letters againKeyedLines) d ↔
        d = .dict [(.text (letters "k"), .text (letters "x")), (.text (letters "h"), .hole "\x7b\x7ba\x7d\x7d")] := by
  have h : formatJson againKeyed = .ok (letters againKeyedLines) :=
    formatJson_of_denotes denotes_againKeyed (unmarked_of_denotes denotes_againKeyed (by decide))
  obtain ⟨-, hsays, hfresh⟩ := (formatJson_template h).1 _ denotes_againKeyed
  exact ⟨h, hsays (hfresh (by decide))⟩

/-- Different halves are different keys, and both are kept. -/
example : formatJson "\x7b\"\\ud800\": 1, \"\\ud801\": 2\x7d" =
    .ok (letters "\x7b\n  \"" ++ .inr ⟨0xD800, rfl⟩ :: letters "\": 1,\n  \"" ++
      .inr ⟨0xD801, rfl⟩ :: letters "\": 2\n\x7d") := by
  decide +kernel

/-- A body that spells the marker of its placeholder with a code unit. -/
def spelledMarker : Text := "[\"\\u005f_HTTPFMT0_0__\", \x7b\x7ba\x7d\x7d]"

/-- A text that decodes to a marker is taken for the placeholder, and becomes a hole. -/
theorem formatJson_template_fails :
    ∃ d out, Denotes atoms spelledMarker d ∧ formatJson spelledMarker = .ok out ∧ ¬Says out d.settled := by
  have hcode : Spells "\\u005f_HTTPFMT0_0__" (letters "__HTTPFMT0_0__") :=
    Spells.unit (u := ['0', '0', '5', 'f']) (n := 0x5f) ⟨rfl, rfl⟩ (fun h => absurd h (by decide))
      (spells_plain (t := "_HTTPFMT0_0__") (by decide))
  have hd : Denotes atoms spelledMarker (.list [.text (letters "__HTTPFMT0_0__"), .hole "\x7b\x7ba\x7d\x7d"]) :=
    ⟨[], .list (.item (.text _ hcode) rfl (.lastItem (.hole rfl) rfl)), rfl⟩
  have hout : Denotes atoms "[\n  \x7b\x7ba\x7d\x7d,\n  \x7b\x7ba\x7d\x7d\n]"
      (.list [.hole "\x7b\x7ba\x7d\x7d", .hole "\x7b\x7ba\x7d\x7d"]) :=
    ⟨[], .list (.item (.hole rfl) rfl (.lastItem (.hole rfl) rfl)), rfl⟩
  have hformatted : formatJson spelledMarker =
      .ok (letters "[\n  \x7b\x7ba\x7d\x7d,\n  \x7b\x7ba\x7d\x7d\n]") := by
    decide +kernel
  refine ⟨_, _, hd, hformatted, fun hsame => ?_⟩
  cases hout.unique braced_atoms (says_letters.mp hsame)

/-- **Formatting a body without code units is stable.** The second pass changes nothing, the placeholders keep their
order where no key comes again, and no line ends the body. -/
theorem formatJson_again {t : Text} {out : Wide} (h : formatJson t = .ok out) (hu : ¬['\\', 'u'] <:+: t) :
    (∀ d, Denotes atoms t d → ∃ o, out = letters o ∧
      formatJson o = .ok (letters o) ∧ (d.Distinct → unquoted o = unquoted t) ∧ Inert o) ∧
    (¬Escaping t → ∃ d, Denotes atoms t d) := by
  refine ⟨fun d hd => ?_, exists_template h⟩
  have hfresh := unmarked_of_denotes hd hu
  have hformatted := formatJson_of_denotes hd hfresh
  have htokens : ∀ token ∈ d.settled.holes, IsToken token := fun token htoken =>
    isToken_of_denotes hd token (holes_settled_subset d htoken)
  obtain ⟨o, ho⟩ := render_of_denotes hd hu
  rw [ho] at hformatted
  refine ⟨o, Except.ok.inj (h.symm.trans hformatted), formatJson_formatted hformatted hd hfresh, fun hdistinct => ?_,
    inert_of_render htokens ho⟩
  rw [unquoted_of_denotes (denotes_of_render htokens ho), unquoted_of_denotes hd, hdistinct.settled_eq]

/-- A list with a placeholder, and an object whose key is one. -/
def holedList : Text := "[\x7b\x7ba\x7d\x7d, \x7b\x7b\x7bb\x7d\x7d: \"#\"\x7d]"

/-- The list in canonical form. -/
def holedLines : Text :=
  "[\n  \x7b\x7ba\x7d\x7d,\n  \x7b\n    \x7b\x7bb\x7d\x7d: \"#\"\n  \x7d\n]"

/-- The placeholders of a list and of a key are where they were. -/
theorem formatJson_again_example :
    formatJson holedList = .ok (letters holedLines) ∧ formatJson holedLines = .ok (letters holedLines) ∧
      unquoted holedLines = unquoted holedList ∧ Inert holedLines := by
  have hhash : Spells "#" (letters "#") := spells_plain (by decide)
  have hentry : Reads atoms (.value (.dict [(.hole "\x7b\x7bb\x7d\x7d", .text (letters "#"))]))
      "\x7b\x7b\x7bb\x7d\x7d: \"#\"\x7d]" "]" :=
    .dict (.lastEntry (.hole rfl) rfl (.text _ hhash) rfl)
  have hd : Denotes atoms holedList (.list [.hole "\x7b\x7ba\x7d\x7d",
      .dict [(.hole "\x7b\x7bb\x7d\x7d", .text (letters "#"))]]) :=
    ⟨[], .list (.item (.hole rfl) rfl (.lastItem hentry rfl)), rfl⟩
  have hformatted : formatJson holedList = .ok (letters holedLines) :=
    formatJson_of_denotes hd (unmarked_of_denotes hd (by decide))
  obtain ⟨o, ho, hagain, htokens, hinert⟩ := (formatJson_again hformatted (by decide)).1 _ hd
  obtain rfl := letters_injective ho
  refine ⟨hformatted, hagain, htokens (.list ?_), hinert⟩
  rintro d (_ | ⟨_, _ | ⟨_, ⟨⟩⟩⟩)
  · exact .hole _
  · refine .dict (List.pairwise_singleton _ _) ?_
    rintro e (_ | ⟨_, ⟨⟩⟩)
    exact .text _

/-- A body whose quotes open behind a placeholder that stands behind a backslash: one text in two lines for the
scanner, one key for the reader. -/
def brokenKey : Text := "\x7b\"\\\x7b\x7bx\x7d\x7d:\n\"\\\x7b\x7by\x7d\x7d\x7d"

/-- What says nothing may pass, and be refused when it comes again. -/
theorem formatJson_again_fails :
    ∃ o, ¬['\\', 'u'] <:+: brokenKey ∧ formatJson brokenKey = .ok (letters o) ∧ formatJson o ≠ .ok (letters o) := by
  have hformatted : formatJson brokenKey =
      .ok (letters "\x7b\n  \"\\\x7b\x7bx\x7d\x7d: \"\\\x7b\x7by\x7d\x7d\n\x7d") := by
    decide +kernel
  exact ⟨_, by decide, hformatted, by decide +kernel⟩

end HttpFile
