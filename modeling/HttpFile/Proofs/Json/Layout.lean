import HttpFile.Proofs.Body.Lines
import HttpFile.Proofs.Json.Reads

/-!
# `HttpFile.Proofs.Json.Layout` — writing JSON with holes

A template is laid out as a word: characters with holes between them, and with halves of characters where its texts
have them. Spelling the holes gives a text, and which text stands for a hole changes nothing else. The word of a
template without holes is what the writer writes, and every spelled word says the template again if the spelled holes
do, whatever stands in for halves.

## Contents
- **Layout.** `raised`, `word`; `filled`, `filled_exchange`.
- **Writing.** `written`, `writeAt?_written`: data are written in every style; `written_indented`: the word is what is
  written on lines; `half_notMem_written`: in ASCII a text is; `writeAt?_dict`.
- **Reading back.** `spelled`, `reading_filled`; `reads_word`.
- **Lines.** `Indented`, `indented_word`: every line but the first starts with a blank or a closing bracket.
- **Leaves.** `mem_word`: what is no character in a word is in a leaf of the template.
- **Names.** `infix_word`: a name stands among the characters of a word only if it stands in a text.
-/

namespace HttpFile.Json

open Text Unicode Template

variable {α β : Type}

/-! ## Layout -/

/-- A wide text in a word that has other holes beside halves. -/
def raised (w : Wide) : Word (α ⊕ Half) := w.map (Sum.map id .inr)

theorem raised_letters (t : Text) : raised (α := α) (letters t) = letters t := by
  unfold raised letters
  rw [List.map_map]
  rfl

theorem spell_raised (h : α ⊕ Half → Text) (w : Wide) : spell h (raised w) = spell (fun x => h (.inr x)) w := by
  induction w with
  | nil => rfl
  | cons x w ih =>
      cases x with
      | inl c => exact congrArg (c :: ·) ih
      | inr x => exact congrArg (h (.inr x) ++ ·) ih

theorem fill_raised (g : α ⊕ Half → Word β) (w : Wide) : fill g (raised w) = fill (fun x => g (.inr x)) w := by
  induction w with
  | nil => rfl
  | cons x w ih =>
      cases x with
      | inl c => exact congrArg (Sum.inl c :: ·) ih
      | inr x => exact congrArg (g (.inr x) ++ ·) ih

/-- A wide text whose halves are put back in their places. -/
theorem fill_half (w : Wide) : fill (fun x => [.inr x]) w = w := by
  induction w with
  | nil => rfl
  | cons x w ih => cases x <;> exact congrArg (_ :: ·) ih

theorem raised_eq_fill (w : Wide) : raised (α := α) w = fill (fun x => [.inr (.inr x)]) w := by
  induction w with
  | nil => rfl
  | cons x w ih => cases x <;> exact congrArg (_ :: ·) ih

/-- A key as it is written. -/
def Key.word : Key α → Word (α ⊕ Half)
  | .hole a => [.inr (.inl a)]
  | .text t => raised (writeString false t)

mutual
/-- A template as it is written at a depth of nesting. -/
def word (depth : Nat) : Template α → Word (α ⊕ Half)
  | .hole a => [.inr (.inl a)]
  | .text t => raised (writeString false t)
  | .scalar s => letters s.text
  | .list items => Style.indented.enclose depth '[' ']' (wordItems (depth + 1) items)
  | .dict entries => Style.indented.enclose depth '{' '}' (wordEntries (depth + 1) entries)

/-- Items as they are written. -/
def wordItems (depth : Nat) : List (Template α) → List (Word (α ⊕ Half))
  | [] => []
  | d :: rest => word depth d :: wordItems depth rest

/-- Entries as they are written. -/
def wordEntries (depth : Nat) : List (Key α × Template α) → List (Word (α ⊕ Half))
  | [] => []
  | (k, d) :: rest => (k.word ++ (letters ": ".toList ++ word depth d)) :: wordEntries depth rest
end

theorem wordItems_eq (depth : Nat) (items : List (Template α)) :
    wordItems depth items = items.map (word depth) := by
  induction items with
  | nil => rfl
  | cons d rest ih => exact congrArg (word depth d :: ·) ih

/-- An entry as it is written. -/
def wordEntry (depth : Nat) (e : Key α × Template α) : Word (α ⊕ Half) :=
  e.1.word ++ (letters ": ".toList ++ word depth e.2)

theorem wordEntries_eq (depth : Nat) (entries : List (Key α × Template α)) :
    wordEntries depth entries = entries.map (wordEntry depth) := by
  induction entries with
  | nil => rfl
  | cons e rest ih => exact congrArg (wordEntry depth e :: ·) ih

theorem word_hole (depth : Nat) (a : α) : word depth (.hole a) = [.inr (.inl a)] := rfl

theorem word_text (depth : Nat) (t : Wide) :
    word depth (.text t : Template α) = raised (writeString false t) := rfl

theorem word_scalar (depth : Nat) (s : Scalar) : word depth (.scalar s : Template α) = letters s.text := rfl

theorem word_list (depth : Nat) (items : List (Template α)) :
    word depth (.list items) = Style.indented.enclose depth '[' ']' (items.map (word (depth + 1))) := by
  rw [← wordItems_eq]
  rfl

theorem word_dict (depth : Nat) (entries : List (Key α × Template α)) :
    word depth (.dict entries) = Style.indented.enclose depth '{' '}' (entries.map (wordEntry (depth + 1))) := by
  rw [← wordEntries_eq]
  rfl

/-- Holes may be filled before the parts are put together. -/
theorem fill_enclose (g : α → Word β) (style : Style) (depth : Nat) (opening closing : Char) (parts : List (Word α)) :
    fill g (style.enclose depth opening closing parts) = style.enclose depth opening closing (parts.map (fill g)) := by
  unfold Style.enclose
  rw [List.isEmpty_map]
  split
  · exact fill_letters g _
  · split
    · rw [fill_append, fill_append, fill_intercalate, fill_letters, fill_letters, fill_letters]
    · rw [fill_append, fill_append, fill_intercalate, fill_letters, fill_letters, fill_letters]

/-- What is written for a hole that was exchanged: a string for a text, or another hole. -/
def exchanged (f : α → Wide ⊕ β) : α ⊕ Half → Word (β ⊕ Half)
  | .inl a => (f a).elim (fun t => raised (writeString false t)) fun b => [.inr (.inl b)]
  | .inr x => [.inr (.inr x)]

theorem fill_exchanged_raised (f : α → Wide ⊕ β) (w : Wide) : fill (exchanged f) (raised w) = raised w := by
  rw [fill_raised, raised_eq_fill]
  rfl

theorem word_key_exchange (f : α → Wide ⊕ β) (k : Key α) : (k.exchange f).word = fill (exchanged f) k.word := by
  cases k with
  | hole a =>
      show ((f a).elim Key.text Key.hole).word =
        (f a).elim (fun t => raised (writeString false t)) (fun b => [.inr (.inl b)]) ++ []
      rw [List.append_nil]
      cases f a <;> rfl
  | text t => exact (fill_exchanged_raised f _).symm

/-- Exchanging holes before the layout is exchanging them behind it. -/
theorem word_exchange (f : α → Wide ⊕ β) (d : Template α) (depth : Nat) :
    word depth (d.exchange f) = fill (exchanged f) (word depth d) := by
  induction d using structuralInduction generalizing depth with
  | hole a =>
      show word depth ((f a).elim Template.text Template.hole) =
        (f a).elim (fun t => raised (writeString false t)) (fun b => [.inr (.inl b)]) ++ []
      rw [List.append_nil]
      cases f a <;> rfl
  | text t => exact (fill_exchanged_raised f _).symm
  | scalar s => exact (fill_letters _ _).symm
  | list items ih =>
      rw [exchange, exchangeItems_eq, word_list, word_list, fill_enclose, List.map_map, List.map_map]
      congr 1
      exact List.map_congr_left fun d hd => ih d hd (depth + 1)
  | dict entries ih =>
      rw [exchange, exchangeEntries_eq, word_dict, word_dict, fill_enclose, List.map_map, List.map_map]
      congr 1
      refine List.map_congr_left fun e he => ?_
      show wordEntry _ _ = fill _ (wordEntry _ _)
      unfold wordEntry
      rw [fill_append, fill_append, fill_letters, word_key_exchange, ih e he (depth + 1)]

/-- A word as a wide text, given what stands in its holes beside halves. -/
def filled (g : α → Wide) (w : Word (α ⊕ Half)) : Wide := fill (Sum.elim g fun x => [.inr x]) w

theorem filled_raised (g : α → Wide) (w : Wide) : filled g (raised w) = w := by
  unfold filled
  rw [fill_raised]
  exact fill_half w

theorem filled_enclose (g : α → Wide) (style : Style) (depth : Nat) (opening closing : Char)
    (parts : List (Word (α ⊕ Half))) :
    filled g (style.enclose depth opening closing parts) =
      style.enclose depth opening closing (parts.map (filled g)) := fill_enclose _ style depth opening closing parts

/-- Where there are no halves there is a text. -/
theorem exists_letters_filled {g : α → Text} {w : Word (α ⊕ Half)} (h : ∀ x, Sum.inr (.inr x) ∉ w) :
    ∃ v, filled (fun a => letters (g a)) w = letters v := by
  induction w with
  | nil => exact ⟨[], rfl⟩
  | cons x w ih =>
      obtain ⟨v, hv⟩ := ih fun x hx => h x (List.mem_cons_of_mem _ hx)
      rcases x with c | a | x
      · exact ⟨c :: v, congrArg (Sum.inl c :: ·) hv⟩
      · refine ⟨g a ++ v, ?_⟩
        rw [letters_append, ← hv]
        rfl
      · exact absurd List.mem_cons_self (h x)

/-- What stands for exchanged holes may be put in behind the layout. -/
theorem filled_exchange (f : α → Wide ⊕ β) (g : β → Wide) (d : Template α) (depth : Nat) :
    filled g (word depth (d.exchange f)) = filled (fun a => (f a).elim (writeString false) g) (word depth d) := by
  unfold filled
  rw [word_exchange, fill_fill]
  refine fill_congr fun x _ => ?_
  cases x with
  | inr x => rfl
  | inl a =>
      show filled g ((f a).elim (fun t => raised (writeString false t)) fun b => [.inr (.inl b)]) =
        (f a).elim (writeString false) g
      cases f a with
      | inl t => exact filled_raised g _
      | inr b => exact List.append_nil _

theorem writeAt?_ofWide (style : Style) (depth : Nat) (w : Wide) :
    writeAt? style depth (.ofWide w) = some (writeString style.asciiOnly w) := by
  unfold Value.ofWide
  split
  · next t ht => rw [text?_eq_some.mp ht, writeAt?]
  · rw [writeAt?]

theorem keyText?_ofWide (w : Wide) : keyText? (.ofWide w) = some w := by
  unfold Value.ofWide
  split
  · next t ht => rw [text?_eq_some.mp ht, keyText?]
  · rw [keyText?]

/-! ## Writing -/

/-- A key as a writer writes it. -/
def Key.written (style : Style) : Key Empty → Wide
  | .text t => writeString style.asciiOnly t

/-- Data without holes as a writer writes them. -/
def written (style : Style) (depth : Nat) (d : Template Empty) : Wide := (writeAt? style depth d.toValue).getD []

/-- An entry as a writer writes it. -/
def writtenEntry (style : Style) (depth : Nat) (e : Key Empty × Template Empty) : Wide :=
  e.1.written style ++ letters ": " ++ written style depth e.2

section
variable {style : Style} {depth : Nat}

theorem writeAt?_of_eq_some {d : Template Empty} {w : Wide} (h : writeAt? style depth d.toValue = some w) :
    writeAt? style depth d.toValue = some (written style depth d) := by
  unfold written
  rw [h]
  rfl

theorem writeItems?_toValues {items : List (Template Empty)}
    (h : ∀ d ∈ items, writeAt? style depth d.toValue = some (written style depth d)) :
    writeItems? style depth (toValues items) = some (items.map (written style depth)) := by
  induction items with
  | nil => rw [toValues, writeItems?, List.map_nil]
  | cons d rest ih =>
      rw [toValues, writeItems?, h d List.mem_cons_self, ih fun x hx => h x (List.mem_cons_of_mem d hx),
        List.map_cons]

theorem writeEntries?_toPairs {entries : List (Key Empty × Template Empty)}
    (h : ∀ e ∈ entries, writeAt? style depth e.2.toValue = some (written style depth e.2)) :
    writeEntries? style depth (toPairs entries) = some (entries.map (writtenEntry style depth)) := by
  induction entries with
  | nil => rw [toPairs, writeEntries?, List.map_nil]
  | cons e rest ih =>
      obtain ⟨k, d⟩ := e
      cases k with
      | hole a => exact a.elim
      | text t =>
          rw [toPairs, writeEntries?, keyText?_ofWide, h (.text t, d) List.mem_cons_self,
            ih fun x hx => h x (List.mem_cons_of_mem _ hx), List.map_cons]
          rfl

end

/-- **Data without holes are written in every style.** -/
theorem writeAt?_written (style : Style) (d : Template Empty) (depth : Nat) :
    writeAt? style depth d.toValue = some (written style depth d) := by
  induction d using structuralInduction generalizing depth with
  | hole a => exact a.elim
  | text t => exact writeAt?_of_eq_some (writeAt?_ofWide style depth t)
  | scalar s => exact writeAt?_of_eq_some (s.writeAt?_eq style depth)
  | list items ih =>
      have hitems := writeItems?_toValues fun d hd => ih d hd (depth + 1)
      refine writeAt?_of_eq_some (w := style.enclose depth '[' ']' (items.map (written style (depth + 1)))) ?_
      rw [toValue, writeAt?, hitems]
      rfl
  | dict entries ih =>
      have hentries := writeEntries?_toPairs fun e he => ih e he (depth + 1)
      refine writeAt?_of_eq_some (w := style.enclose depth '{' '}' (entries.map (writtenEntry style (depth + 1)))) ?_
      rw [toValue, writeAt?, hentries]
      rfl

section
variable (style : Style) (depth : Nat)

theorem written_text (t : Wide) : written style depth (.text t) = writeString style.asciiOnly t :=
  congrArg (·.getD []) (writeAt?_ofWide style depth t)

theorem written_scalar (s : Scalar) : written style depth (.scalar s) = letters s.text :=
  congrArg (·.getD []) (s.writeAt?_eq style depth)

theorem written_list (items : List (Template Empty)) :
    written style depth (.list items) = style.enclose depth '[' ']' (items.map (written style (depth + 1))) := by
  unfold written
  rw [toValue, writeAt?, writeItems?_toValues fun d _ => writeAt?_written style d (depth + 1)]
  rfl

theorem written_dict (entries : List (Key Empty × Template Empty)) :
    written style depth (.dict entries) =
      style.enclose depth '{' '}' (entries.map (writtenEntry style (depth + 1))) := by
  unfold written
  rw [toValue, writeAt?, writeEntries?_toPairs fun e _ => writeAt?_written style e.2 (depth + 1)]
  rfl

end

/-- **The word is what the writer writes** on lines. -/
theorem written_indented (d : Template Empty) (depth : Nat) :
    written .indented depth d = filled Empty.elim (word depth d) := by
  induction d using structuralInduction generalizing depth with
  | hole a => exact a.elim
  | text t =>
      rw [written_text, word_text, filled_raised]
      rfl
  | scalar s =>
      rw [written_scalar, word_scalar]
      exact (fill_letters _ _).symm
  | list items ih =>
      rw [written_list, word_list, filled_enclose, List.map_map]
      congr 1
      exact List.map_congr_left fun d hd => ih d hd (depth + 1)
  | dict entries ih =>
      rw [written_dict, word_dict, filled_enclose, List.map_map]
      congr 1
      refine List.map_congr_left fun e he => ?_
      obtain ⟨k, d⟩ := e
      cases k with
      | hole a => exact a.elim
      | text t =>
          show writeString false t ++ letters ": " ++ written .indented (depth + 1) d =
            filled Empty.elim (raised (writeString false t) ++ (letters ": ".toList ++ word (depth + 1) d))
          unfold filled
          rw [fill_append, fill_append, fill_letters, List.append_assoc, ih (.text t, d) he (depth + 1)]
          exact congrArg (· ++ _) (filled_raised Empty.elim _).symm

theorem mem_enclose {style : Style} {depth : Nat} {opening closing : Char} {parts : List (Word α)} {a : α}
    (h : Sum.inr a ∈ style.enclose depth opening closing parts) : ∃ w ∈ parts, Sum.inr a ∈ w := by
  have hbetween : ∀ start sep close : Text,
      Sum.inr a ∈ letters start ++ (letters sep).intercalate parts ++ letters close → ∃ w ∈ parts, Sum.inr a ∈ w := by
    intro start sep close hin
    rw [List.mem_append, List.mem_append] at hin
    rcases hin with (hin | hin) | hin
    · exact absurd hin (inr_notMem_letters a _)
    · exact (mem_intercalate hin).resolve_left (inr_notMem_letters a _)
    · exact absurd hin (inr_notMem_letters a _)
  unfold Style.enclose at h
  split at h
  · exact absurd h (inr_notMem_letters a _)
  · split at h
    · exact hbetween _ _ _ h
    · exact hbetween _ _ _ h

/-- **In ASCII nothing but a text is written.** -/
theorem half_notMem_written {style : Style} (hascii : style.asciiOnly = true) (d : Template Empty) (depth : Nat)
    (x : Half) : Sum.inr x ∉ written style depth d := by
  have hstring : ∀ t : Wide, Sum.inr x ∉ writeString style.asciiOnly t := by
    intro t hx
    have hnot := (half_mem_writeString hx).1
    rw [hascii] at hnot
    cases hnot
  induction d using structuralInduction generalizing depth with
  | hole a => exact a.elim
  | text t =>
      rw [written_text]
      exact hstring t
  | scalar s =>
      rw [written_scalar]
      exact inr_notMem_letters x _
  | list items ih =>
      rw [written_list]
      intro hx
      obtain ⟨w, hw, hin⟩ := mem_enclose hx
      obtain ⟨d, hd, rfl⟩ := List.mem_map.mp hw
      exact ih d hd (depth + 1) hin
  | dict entries ih =>
      rw [written_dict]
      intro hx
      obtain ⟨w, hw, hin⟩ := mem_enclose hx
      obtain ⟨⟨k, d⟩, he, rfl⟩ := List.mem_map.mp hw
      cases k with
      | hole a => exact a.elim
      | text t =>
          rcases List.mem_append.mp hin with hin | hin
          · rcases List.mem_append.mp hin with hin | hin
            · exact hstring t hin
            · exact inr_notMem_letters x _ hin
          · exact ih (.text t, d) he (depth + 1) hin

/-- An object is written between braces. -/
theorem writeAt?_dict {style : Style} {depth : Nat} {entries : List (Value × Value)} {w : Wide}
    (h : writeAt? style depth (.dict entries) = some w) : ∃ u, w = .inl '{' :: (u ++ [.inl '}']) := by
  rw [writeAt?] at h
  obtain ⟨parts, -, rfl⟩ := Option.map_eq_some_iff.mp h
  unfold Style.enclose
  split
  · exact ⟨[], rfl⟩
  · split
    · exact ⟨letters (newline (depth + 1)) ++ (letters (',' :: newline (depth + 1))).intercalate parts ++
        letters (newline depth), by simp⟩
    · exact ⟨(letters ", ").intercalate parts, rfl⟩

/-! ## Reading back -/

theorem skipBlanks_newline (depth : Nat) (t : Text) : skipBlanks (newline depth ++ t) = skipBlanks t := by
  have hblank : ∀ c ∈ newline depth, isSpace c = true := by
    intro c hc
    rcases List.mem_cons.mp hc with rfl | hc
    · rfl
    · rw [List.eq_of_mem_replicate hc]
      rfl
  exact List.dropWhile_append_of_pos hblank

theorem skipBlanks_of_opens {t : Text} (h : ∃ c u, t = c :: u ∧ isOpening c = true) : skipBlanks t = t := by
  obtain ⟨c, u, rfl, hc⟩ := h
  have hspace : isSpace c = false := by
    rw [Bool.eq_false_iff]
    intro hs
    simp only [isSpace, Bool.or_eq_true, beq_iff_eq] at hs
    rcases hs with ((rfl | rfl) | rfl) | rfl <;> exact absurd hc (by decide)
  exact List.dropWhile_cons_of_neg (by simp [hspace])

theorem skipBlanks_stop {c : Char} (hc : isSpace c = false) (t : Text) : skipBlanks (c :: t) = c :: t :=
  List.dropWhile_cons_of_neg (by simp [hc])

/-- Parts on lines of their own, with what follows them. -/
theorem spell_enclose (h : α → Text) (depth : Nat) (opening closing : Char) (w : Word α) (ws : List (Word α))
    (r : Text) :
    spell h (Style.indented.enclose depth opening closing (w :: ws)) ++ r =
      opening :: (newline (depth + 1) ++ ((',' :: newline (depth + 1)).intercalate ((w :: ws).map (spell h)) ++
        (newline depth ++ closing :: r))) := by
  have hlines : Style.indented.overLines = true := rfl
  unfold Style.enclose
  rw [if_neg (by simp), if_pos hlines, spell_append, spell_append, spell_intercalate]
  simp only [spell_letters, List.cons_append, List.append_assoc, List.nil_append]

theorem spell_enclose_map {γ : Type} (h : α → Text) (depth : Nat) (opening closing : Char) (f : γ → Word α) (x : γ)
    (xs : List γ) (r : Text) :
    spell h (Style.indented.enclose depth opening closing ((x :: xs).map f)) ++ r =
      opening :: (newline (depth + 1) ++ ((',' :: newline (depth + 1)).intercalate
        ((x :: xs).map fun y => spell h (f y)) ++ (newline depth ++ closing :: r))) := by
  rw [List.map_cons, spell_enclose, ← List.map_cons, List.map_map]
  rfl

theorem spell_string (h : α ⊕ Half → Text) (t : Wide) : spell h (raised (writeString false t)) =
    '"' :: (spell (fun x => h (.inr x)) (escaped false t) ++ ['"']) := by
  unfold writeString
  rw [spell_raised, spell_letter, spell_append]
  rfl

theorem quits_newline (depth : Nat) (t : Text) : Quits (newline depth ++ t) :=
  quits_cons.mpr (by decide)

/-- What is spelled for the holes of a word: texts for its own ones, and stand-ins for halves. -/
def spelled (φ : StandIn) (h : α → Text) : α ⊕ Half → Text := Sum.elim h fun x => [φ.char x]

theorem reading_filled (φ : StandIn) (h : α → Text) (w : Word (α ⊕ Half)) :
    reading φ (filled (fun a => letters (h a)) w) = spell (spelled φ h) w := by
  rw [reading_eq, filled, spell_fill]
  refine spell_congr fun x _ => ?_
  cases x with
  | inl a => exact spell_letters _ _
  | inr x => exact List.append_nil _

theorem spell_string_standIn (φ : StandIn) (h : α → Text) (t : Wide) :
    spell (spelled φ h) (raised (writeString false t)) = '"' :: ((reading φ t).flatMap (escape false) ++ ['"']) := by
  have hreading : spell (spelled φ h) (raised (writeString false t)) = reading φ (writeString false t) := by
    rw [spell_raised, reading_eq]
    rfl
  refine hreading.trans (letters_injective (α := Half) ?_)
  rw [reading_writeString, writeString, escaped_letters]
  simp

section
variable {holes : Text → Option (α × Text)} {h : α → Text}

/-- What is spelled for a hole says the hole. -/
def Spelt (holes : Text → Option (α × Text)) (h : α → Text) (a : α) : Prop := ∀ r, holes (h a ++ r) = some (a, r)

/-- A template reads back from its word at every depth, with stand-ins for the halves of both. -/
def ReadsBack (holes : Text → Option (α × Text)) (φ : StandIn) (h : α → Text) (d : Template α) : Prop :=
  ∀ depth r, Quits r → Reads holes (.value (d.reading φ)) (spell (spelled φ h) (word depth d) ++ r) r

variable (φ : StandIn)

theorem reads_string (holes : Text → Option (α × Text)) (h : α → Text) (t : Wide) (r : Text) :
    ReadsKey holes (.text (letters (reading φ t))) (spell (spelled φ h) (raised (writeString false t)) ++ r) r ∧
      Reads holes (.value (.text (letters (reading φ t))))
        (spell (spelled φ h) (raised (writeString false t)) ++ r) r := by
  have hsplit : spell (spelled φ h) (raised (writeString false t)) ++ r =
      '"' :: ((reading φ t).flatMap (escape false) ++ '"' :: r) := by
    rw [spell_string_standIn, List.cons_append, List.append_assoc]
    rfl
  rw [hsplit]
  exact ⟨.text r (spells_written _), .text r (spells_written _)⟩

theorem reads_key {k : Key α} (hk : ∀ a, k = .hole a → Spelt holes h a) (r : Text) :
    ReadsKey holes (k.reading φ) (spell (spelled φ h) k.word ++ r) r := by
  cases k with
  | hole a =>
      refine .hole ?_
      show holes ((h a ++ []) ++ r) = _
      rw [List.append_nil]
      exact hk a rfl r
  | text t => exact (reads_string φ holes h t r).1

variable (hopens : ∀ t a r, holes t = some (a, r) → ∃ u, t = '{' :: u)
include hopens

theorem reads_items {d : Template α} {ds : List (Template α)} (hd : ∀ x ∈ d :: ds, ReadsBack holes φ h x)
    (depth : Nat) (r : Text) :
    Reads holes (.items ((d :: ds).map (Template.reading φ)))
      ((',' :: newline (depth + 1)).intercalate ((d :: ds).map fun x => spell (spelled φ h) (word (depth + 1) x)) ++
        (newline depth ++ ']' :: r)) r := by
  induction ds generalizing d with
  | nil =>
      rw [List.map_singleton, List.map_singleton, List.intercalate_singleton]
      refine .lastItem (hd d List.mem_cons_self (depth + 1) _ (quits_newline depth _)) ?_
      rw [skipBlanks_newline]
      exact skipBlanks_stop (by decide) r
  | cons d' ds ih =>
      have hmore := ih fun x hx => hd x (List.mem_cons_of_mem d hx)
      simp only [List.map_cons, List.intercalate_cons_cons, List.append_assoc, List.cons_append] at hmore ⊢
      refine .item (hd d List.mem_cons_self (depth + 1) _ (quits_cons.mpr (by decide)))
        (skipBlanks_stop (by decide) _) ?_
      rw [skipBlanks_newline, skipBlanks_of_opens (hmore.opens hopens)]
      exact hmore

/-- An entry with stand-ins for its halves. -/
def entryReading (φ : StandIn) (e : Key α × Template α) : Key α × Template α := (e.1.reading φ, e.2.reading φ)

theorem reads_entries {e : Key α × Template α} {es : List (Key α × Template α)}
    (hkeys : ∀ x ∈ e :: es, ∀ a, x.1 = .hole a → Spelt holes h a)
    (he : ∀ x ∈ e :: es, ReadsBack holes φ h x.2) (depth : Nat) (r : Text) :
    Reads holes (.entries ((e :: es).map (entryReading φ)))
      ((',' :: newline (depth + 1)).intercalate
          ((e :: es).map fun x => spell (spelled φ h) (wordEntry (depth + 1) x)) ++
        (newline depth ++ '}' :: r)) r := by
  -- an entry is a key, a colon and a blank, and a value
  have hentry : ∀ (x : Key α × Template α) (t : Text), spell (spelled φ h) (wordEntry (depth + 1) x) ++ t =
      spell (spelled φ h) x.1.word ++ ':' :: ' ' :: (spell (spelled φ h) (word (depth + 1) x.2) ++ t) := by
    intro x t
    simp [wordEntry]
  have hvalue : ∀ x ∈ e :: es, ∀ t, Quits t → Reads holes (.value (x.2.reading φ))
      (skipBlanks (' ' :: (spell (spelled φ h) (word (depth + 1) x.2) ++ t))) t := by
    intro x hx t ht
    have hread := he x hx (depth + 1) t ht
    show Reads holes _ (skipBlanks (spell (spelled φ h) (word (depth + 1) x.2) ++ t)) t
    rwa [skipBlanks_of_opens (hread.opens hopens)]
  induction es generalizing e with
  | nil =>
      rw [List.map_singleton, List.map_singleton, List.intercalate_singleton, hentry]
      refine .lastEntry (reads_key φ (hkeys e List.mem_cons_self) _) (skipBlanks_stop (by decide) _)
        (hvalue e List.mem_cons_self _ (quits_newline depth _)) ?_
      rw [skipBlanks_newline]
      exact skipBlanks_stop (by decide) r
  | cons e' es ih =>
      have hmore := ih (fun x hx => hkeys x (List.mem_cons_of_mem e hx))
        (fun x hx => he x (List.mem_cons_of_mem e hx)) fun x hx => hvalue x (List.mem_cons_of_mem e hx)
      simp only [List.map_cons, List.intercalate_cons_cons, List.append_assoc, List.cons_append] at hmore ⊢
      rw [hentry]
      refine .entry (reads_key φ (hkeys e List.mem_cons_self) _) (skipBlanks_stop (by decide) _)
        (hvalue e List.mem_cons_self _ (quits_cons.mpr (by decide))) (skipBlanks_stop (by decide) _) ?_
      rw [skipBlanks_newline, skipBlanks_of_opens (hmore.opens hopens)]
      exact hmore

/-- **A word that is spelled says its template**, if what is spelled for each hole says the hole, whatever stands in
    for halves. -/
theorem reads_word {d : Template α} (hd : ∀ a ∈ d.holes, Spelt holes h a) : ReadsBack holes φ h d := by
  induction d using structuralInduction with
  | hole a =>
      intro depth r _
      refine .hole ?_
      show holes ((h a ++ []) ++ r) = _
      rw [List.append_nil]
      exact hd a (mem_holes.mpr List.mem_cons_self) r
  | text t =>
      intro depth r _
      exact (reads_string φ holes h t r).2
  | scalar s =>
      intro depth r hr
      refine .scalar ?_
      rw [word_scalar, spell_letters, scalar?_append hr, s.reads]
      rfl
  | list items ih =>
      intro depth r _
      have hitems : ∀ x ∈ items, ReadsBack holes φ h x := fun x hx => ih x hx fun a ha =>
        hd a (mem_holes.mpr (mem_leaves_list.mpr ⟨x, hx, mem_holes.mp ha⟩))
      rw [word_list, reading_list]
      cases items with
      | nil => exact .emptyList (skipBlanks_stop (by decide) r)
      | cons d ds =>
          have hread := reads_items φ hopens hitems depth r
          rw [spell_enclose_map]
          refine .list ?_
          -- what is behind the bracket is a line break with its indentation, up to the first item
          rw [skipBlanks_newline, skipBlanks_of_opens (hread.opens hopens)]
          exact hread
  | dict entries ih =>
      intro depth r _
      have hkeys : ∀ x ∈ entries, ∀ a, x.1 = .hole a → Spelt holes h a := fun x hx a ha =>
        hd a (mem_holes.mpr (mem_leaves_dict.mpr ⟨x, hx, Or.inl (by rw [ha]; rfl)⟩))
      have hvalues : ∀ x ∈ entries, ReadsBack holes φ h x.2 := fun x hx => ih x hx fun a ha =>
        hd a (mem_holes.mpr (mem_leaves_dict.mpr ⟨x, hx, Or.inr (mem_holes.mp ha)⟩))
      rw [word_dict, reading_dict]
      cases entries with
      | nil => exact .emptyDict (skipBlanks_stop (by decide) r)
      | cons e es =>
          have hread := reads_entries φ hopens hkeys hvalues depth r
          rw [spell_enclose_map]
          refine .dict ?_
          rw [skipBlanks_newline, skipBlanks_of_opens (hread.opens hopens)]
          exact hread

end

/-! ## Ends -/

theorem trimmed_between {c d : Char} (hc : isBlank c = false) (hd : isBlank d = false) (u : Text) :
    Trimmed (c :: (u ++ [d])) := by
  refine trimmed_iff.mpr ⟨fun x hx => ?_, fun x hx => ?_⟩
  · rw [List.head?_cons, Option.some.injEq] at hx
    exact hx ▸ hc
  · rw [← List.cons_append, List.getLast?_concat, Option.some.injEq] at hx
    exact hx ▸ hd

theorem isBlank_of_isScalarChar {c : Char} (h : isScalarChar c = true) : isBlank c = false := by
  have hclass : (Syntax.isLetter c || Syntax.isDigit c || ['+', '-', '.'].contains c) = true := by
    simpa [isScalarChar, Char.isAlphanum, or_assoc, Syntax.isLetter, Syntax.isDigit] using h
  exact Syntax.isBlank_of_isGraphic (Syntax.isGraphic_of_class (by decide) hclass)

theorem enclose_ends (h : α → Text) (depth : Nat) (opening closing : Char) (ws : List (Word α)) :
    ∃ u, spell h (Style.indented.enclose depth opening closing ws) = opening :: (u ++ [closing]) := by
  cases ws with
  | nil => exact ⟨[], rfl⟩
  | cons w ws =>
      refine ⟨newline (depth + 1) ++ ((',' :: newline (depth + 1)).intercalate ((w :: ws).map (spell h)) ++
        newline depth), ?_⟩
      have hspelled := spell_enclose h depth opening closing w ws []
      rw [List.append_nil] at hspelled
      rw [hspelled]
      simp

/-- There is no blank at the ends of a word if there is none at the ends of what is spelled for its holes. -/
theorem trimmed_word {h : α ⊕ Half → Text} {d : Template α} (hd : ∀ a ∈ d.holes, Trimmed (h (.inl a))) (depth : Nat) :
    Trimmed (spell h (word depth d)) := by
  cases d with
  | hole a =>
      show Trimmed (h (.inl a) ++ [])
      rw [List.append_nil]
      exact hd a (mem_holes.mpr List.mem_cons_self)
  | text t =>
      rw [word_text, spell_string]
      exact trimmed_between (by decide) (by decide) _
  | scalar s =>
      rw [word_scalar, spell_letters]
      exact Solid.trimmed fun c hc => isBlank_of_isScalarChar (s.isScalarChar_of_mem hc)
  | list items =>
      obtain ⟨u, hu⟩ := enclose_ends h depth '[' ']' (items.map (word (depth + 1)))
      rw [word_list, hu]
      exact trimmed_between (by decide) (by decide) u
  | dict entries =>
      obtain ⟨u, hu⟩ := enclose_ends h depth '{' '}' (entries.map (wordEntry (depth + 1)))
      rw [word_dict, hu]
      exact trimmed_between (by decide) (by decide) u

/-! ## Lines -/

/-- Every newline of a text is followed by a blank or a closing bracket. -/
def Indented (t : Text) : Prop :=
  ∀ u v, t = u ++ '\n' :: v → ∃ c x, v = c :: x ∧ (c = ' ' ∨ c = ']' ∨ c = '}')

theorem Indented.of_notMem {t : Text} (h : '\n' ∉ t) : Indented t := by
  rintro u v rfl
  exact absurd (by simp) h

theorem Indented.append {s t : Text} (hs : Indented s) (ht : Indented t) : Indented (s ++ t) := by
  intro u v huv
  rcases List.append_eq_append_iff.mp huv with ⟨x, rfl, rfl⟩ | ⟨x, rfl, hx⟩
  · exact ht x v rfl
  · cases x with
    | nil => exact ht [] v (by simpa using hx.symm)
    | cons c x =>
        injection hx with hc hx
        subst hc hx
        obtain ⟨c, y, rfl, hc⟩ := hs u x rfl
        exact ⟨c, y ++ t, rfl, hc⟩

theorem indented_newline (depth : Nat) : Indented (newline (depth + 1)) := by
  intro u v huv
  cases u with
  | nil =>
      injection huv with _ hv
      exact ⟨' ', List.replicate (2 * depth + 1) ' ', by rw [← hv]; rfl, Or.inl rfl⟩
  | cons c u =>
      injection huv with _ hv
      have hin : '\n' ∈ List.replicate (2 * (depth + 1)) ' ' := by rw [hv]; simp
      exact absurd (List.eq_of_mem_replicate hin) (by decide)

theorem indented_close (depth : Nat) {closing : Char} (hc : closing = ']' ∨ closing = '}') :
    Indented (newline depth ++ [closing]) := by
  cases depth with
  | zero =>
      intro u v huv
      cases u with
      | nil =>
          injection huv with _ hv
          exact ⟨closing, [], hv.symm, Or.inr hc⟩
      | cons c u =>
          injection huv with _ hv
          have hin : '\n' ∈ [closing] := by
            rw [show [closing] = u ++ '\n' :: v from hv]
            simp
          rcases hc with rfl | rfl <;> exact absurd hin (by decide)
  | succ depth =>
      refine (indented_newline depth).append (Indented.of_notMem ?_)
      rcases hc with rfl | rfl <;> decide

theorem newline_notMem_escape (c : Char) : '\n' ∉ escape false c := by
  have hsmall : ∀ n < 0x20, '\n' ∉ hex 4 n := by decide
  rcases escape_cases c with ⟨e, he, hc⟩ | ⟨hlow, hc⟩ | ⟨-, -, hhigh, hc⟩
  · rw [hc, List.mem_cons, List.mem_singleton, not_or]
    refine ⟨by decide, ?_⟩
    rintro rfl
    cases he
  · rw [hc, List.mem_cons, List.mem_cons, not_or, not_or]
    exact ⟨by decide, by decide, hsmall _ hlow⟩
  · rw [hc, List.mem_singleton]
    rintro rfl
    exact absurd hhigh (by decide)

theorem newline_notMem_string {h : α ⊕ Half → Text} (hh : ∀ x, '\n' ∉ h (.inr x)) (t : Wide) :
    '\n' ∉ spell h (raised (writeString false t)) := by
  have hinside : '\n' ∉ spell (fun x => h (.inr x)) (escaped false t) := by
    intro hin
    obtain ⟨x, hx, hc⟩ := List.mem_flatMap.mp hin
    obtain ⟨y, -, hy⟩ := List.mem_flatMap.mp hx
    cases x with
    | inr a => exact hh a hc
    | inl c =>
        obtain rfl := List.mem_singleton.mp hc
        cases y with
        | inr a => cases List.mem_singleton.mp hy
        | inl d =>
            obtain ⟨e, he, heq⟩ := List.mem_map.mp hy
            obtain rfl := Sum.inl.inj heq
            exact newline_notMem_escape d he
  rw [spell_string, List.mem_cons, List.mem_append, not_or, not_or]
  exact ⟨by decide, hinside, by decide⟩

theorem newline_notMem_text (s : Scalar) : '\n' ∉ s.text := fun hin =>
  absurd (s.isScalarChar_of_mem hin) (by decide)

theorem indented_enclose {h : α → Text} {depth : Nat} {opening closing : Char} (ho : opening ≠ '\n')
    (hc : closing = ']' ∨ closing = '}') {ws : List (Word α)} (hws : ∀ w ∈ ws, Indented (spell h w)) :
    Indented (spell h (Style.indented.enclose depth opening closing ws)) := by
  cases ws with
  | nil =>
      refine Indented.of_notMem ?_
      show '\n' ∉ [opening, closing]
      rcases hc with rfl | rfl <;> simp [ho.symm]
  | cons w ws =>
      have hjoined : Indented ((',' :: newline (depth + 1)).intercalate ((w :: ws).map (spell h))) := by
        have hcomma : Indented (',' :: newline (depth + 1)) :=
          (Indented.of_notMem (t := [',']) (by decide)).append (indented_newline depth)
        induction ws generalizing w with
        | nil =>
            rw [List.map_singleton, List.intercalate_singleton]
            exact hws w List.mem_cons_self
        | cons w' ws ih =>
            rw [List.map_cons, List.map_cons, List.intercalate_cons_cons]
            exact ((hws w List.mem_cons_self).append hcomma).append
              (ih w' fun x hx => hws x (List.mem_cons_of_mem w hx))
      have hopening : Indented [opening] := Indented.of_notMem (by simpa using ho.symm)
      have henclosed := hopening.append ((indented_newline depth).append (hjoined.append (indented_close depth hc)))
      rw [← List.append_nil (spell h _), spell_enclose]
      exact henclosed

/-- **Every line of a spelled word but the first starts with a blank or a closing bracket.** -/
theorem indented_word {h : α ⊕ Half → Text} {d : Template α} (hd : ∀ a ∈ d.holes, '\n' ∉ h (.inl a))
    (hh : ∀ x, '\n' ∉ h (.inr x)) (depth : Nat) : Indented (spell h (word depth d)) := by
  induction d using structuralInduction generalizing depth with
  | hole a =>
      refine Indented.of_notMem ?_
      simpa [word_hole] using hd a (mem_holes.mpr List.mem_cons_self)
  | text t =>
      rw [word_text]
      exact Indented.of_notMem (newline_notMem_string hh t)
  | scalar s =>
      rw [word_scalar, spell_letters]
      exact Indented.of_notMem (newline_notMem_text s)
  | list items ih =>
      rw [word_list]
      refine indented_enclose (by decide) (Or.inl rfl) fun w hw => ?_
      obtain ⟨d, hmem, rfl⟩ := List.mem_map.mp hw
      exact ih d hmem (fun a ha => hd a (mem_holes.mpr (mem_leaves_list.mpr ⟨d, hmem, mem_holes.mp ha⟩))) _
  | dict entries ih =>
      rw [word_dict]
      refine indented_enclose (by decide) (Or.inr rfl) fun w hw => ?_
      obtain ⟨e, hmem, rfl⟩ := List.mem_map.mp hw
      -- a key is on one line, so the line breaks of an entry are those of its value
      have hkey : '\n' ∉ spell h e.1.word := by
        cases hk : e.1 with
        | hole a =>
            have ha := hd a (mem_holes.mpr (mem_leaves_dict.mpr ⟨e, hmem, Or.inl (by rw [hk]; rfl)⟩))
            simpa [Key.word] using ha
        | text t => exact newline_notMem_string hh t
      have hvalue := ih e hmem
        (fun a ha => hd a (mem_holes.mpr (mem_leaves_dict.mpr ⟨e, hmem, Or.inr (mem_holes.mp ha)⟩))) (depth + 1)
      unfold wordEntry
      rw [spell_append, spell_append, spell_letters]
      exact (Indented.of_notMem hkey).append ((Indented.of_notMem (by decide)).append hvalue)

/-! ## Leaves -/

/-- A leaf as it is written. -/
def leafWord : α ⊕ Wide → Word (α ⊕ Half)
  | .inl a => [.inr (.inl a)]
  | .inr t => raised (writeString false t)

theorem word_key (k : Key α) : k.word = leafWord k.leaf := by
  cases k <;> rfl

/-- What is no character in a word is none in one of the leaves. -/
theorem mem_word {d : Template α} {depth : Nat} {x : α ⊕ Half} (h : Sum.inr x ∈ word depth d) :
    ∃ l ∈ d.leaves, Sum.inr x ∈ leafWord l := by
  induction d using structuralInduction generalizing depth with
  | hole a => exact ⟨.inl a, List.mem_cons_self, h⟩
  | text t => exact ⟨.inr t, List.mem_cons_self, h⟩
  | scalar s => exact absurd h (inr_notMem_letters _ _)
  | list items ih =>
      rw [word_list] at h
      obtain ⟨w, hw, hx⟩ := mem_enclose h
      obtain ⟨d, hd, rfl⟩ := List.mem_map.mp hw
      obtain ⟨l, hl, hin⟩ := ih d hd hx
      exact ⟨l, mem_leaves_list.mpr ⟨d, hd, hl⟩, hin⟩
  | dict entries ih =>
      rw [word_dict] at h
      obtain ⟨w, hw, hx⟩ := mem_enclose h
      obtain ⟨e, he, rfl⟩ := List.mem_map.mp hw
      rw [wordEntry, List.mem_append, List.mem_append, word_key] at hx
      rcases hx with hx | hx | hx
      · exact ⟨e.1.leaf, mem_leaves_dict.mpr ⟨e, he, Or.inl rfl⟩, hx⟩
      · exact absurd hx (inr_notMem_letters _ _)
      · obtain ⟨l, hl, hin⟩ := ih e he hx
        exact ⟨l, mem_leaves_dict.mpr ⟨e, he, Or.inr hl⟩, hin⟩

/-- The holes of a word are holes of its template, halves aside. -/
theorem hole_mem_word {d : Template α} {depth : Nat} {a : α} (h : Sum.inr (.inl a) ∈ word depth d) : a ∈ d.holes := by
  obtain ⟨l, hl, hin⟩ := mem_word h
  cases l with
  | inl b =>
      obtain rfl : a = b := by simpa [leafWord] using hin
      exact mem_holes.mpr hl
  | inr t =>
      obtain ⟨x, -, hx⟩ := List.mem_map.mp hin
      cases x with
      | inl c => cases hx
      | inr y => cases hx

/-- The halves of a word are halves in its texts. -/
theorem half_mem_word {d : Template α} {depth : Nat} {x : Half} (h : Sum.inr (.inr x) ∈ word depth d) :
    ∃ t ∈ d.texts, Sum.inr x ∈ t := by
  obtain ⟨l, hl, hin⟩ := mem_word h
  cases l with
  | inl b => simp [leafWord] at hin
  | inr t =>
      refine ⟨t, mem_texts.mpr hl, ?_⟩
      obtain ⟨y, hy, hyx⟩ := List.mem_map.mp hin
      obtain rfl : y = .inr x := by
        cases y with
        | inl c => cases hyx
        | inr z => exact congrArg Sum.inr (Sum.inr.inj (Sum.inr.inj hyx))
      exact (half_mem_writeString hy).2

/-! ## Names -/

/-- What stands in a list around a separator that shares nothing with it stands on one side. -/
theorem infix_of_infix_around {γ : Type} {a : γ} {m u sep v : List γ} (hsep : ∀ x ∈ sep, x ∉ a :: m)
    (hne : sep ≠ []) (h : a :: m <:+: u ++ (sep ++ v)) : a :: m <:+: u ∨ a :: m <:+: v := by
  have ha : a ∉ sep := fun hin => hsep a hin List.mem_cons_self
  cases sep with
  | nil => exact absurd rfl hne
  | cons x sep =>
      have hx := hsep x List.mem_cons_self
      rw [List.cons_append] at h
      rcases List.infix_append_iff.mp h with h | h | ⟨s, t, hst, hs, ht⟩
      · exact Or.inl h
      · exact Or.inr (infix_of_head_notMem ha h)
      · cases t with
        | nil =>
            rw [hst, List.append_nil]
            exact Or.inl hs.isInfix
        | cons y t =>
            obtain rfl : y = x := (List.cons_prefix_cons.mp ht).1
            exact absurd (by rw [hst]; simp) hx

theorem infix_letters {m t : Text} (h : letters (α := α) m <:+: letters t) : m <:+: t :=
  infix_of_infix_map (fun _ _ _ h => Sum.inl_injective h) h

theorem infix_raised {u w : Wide} (h : raised (α := α) u <:+: raised w) : u <:+: w :=
  infix_of_infix_map (fun _ _ _ h => Sum.map_injective.mpr ⟨Function.injective_id, Sum.inr_injective⟩ h) h

theorem isNameChar_newline {c : Char} {depth : Nat} (h : c ∈ newline depth) : isNameChar c = false := by
  rcases List.mem_cons.mp h with rfl | h
  · decide
  · rw [List.eq_of_mem_replicate h]
    decide

section
variable {m : Text} (hm : ∀ c ∈ '_' :: m, isNameChar c = true)
include hm

/-- Marks that are no name characters share nothing with a name. -/
theorem letters_apart {t : Text} (ht : ∀ c ∈ t, isNameChar c = false) :
    ∀ x ∈ letters (α := α) t, x ∉ letters ('_' :: m) := by
  intro x hx hin
  obtain ⟨c, hc, rfl⟩ := List.mem_map.mp hx
  obtain ⟨d, hd, hdc⟩ := List.mem_map.mp hin
  obtain rfl := Sum.inl.inj hdc
  have hname := hm d hd
  rw [ht d hc] at hname
  exact absurd hname (by decide)

theorem infix_intercalate {sep : Text} (hsep : ∀ c ∈ sep, isNameChar c = false) (hne : sep ≠ [])
    {parts : List (Word α)} (h : letters ('_' :: m) <:+: (letters sep).intercalate parts) :
    ∃ w ∈ parts, letters ('_' :: m) <:+: w := by
  induction parts with
  | nil => cases List.infix_nil.mp h
  | cons w rest ih =>
      cases rest with
      | nil =>
          rw [List.intercalate_singleton] at h
          exact ⟨w, List.mem_cons_self, h⟩
      | cons w' rest =>
          rw [List.intercalate_cons_cons, List.append_assoc] at h
          have hletters : letters (α := α) sep ≠ [] := fun he => hne (List.map_eq_nil_iff.mp he)
          rcases infix_of_infix_around (letters_apart hm hsep) hletters h with h | h
          · exact ⟨w, List.mem_cons_self, h⟩
          · obtain ⟨v, hv, hin⟩ := ih h
            exact ⟨v, List.mem_cons_of_mem w hv, hin⟩

theorem infix_enclose {depth : Nat} {opening closing : Char} (ho : isNameChar opening = false)
    (hc : isNameChar closing = false) {parts : List (Word α)}
    (h : letters ('_' :: m) <:+: Style.indented.enclose depth opening closing parts) :
    ∃ w ∈ parts, letters ('_' :: m) <:+: w := by
  have hnewline : ∀ n, ∀ c ∈ newline n, isNameChar c = false := fun n c hc => isNameChar_newline hc
  have hclose : ∀ c ∈ newline depth ++ [closing], isNameChar c = false :=
    List.forall_mem_append.mpr ⟨hnewline depth, List.forall_mem_singleton.mpr hc⟩
  have hsep : ∀ c ∈ ',' :: newline (depth + 1), isNameChar c = false :=
    List.forall_mem_cons.mpr ⟨by decide, hnewline (depth + 1)⟩
  have hopen : ∀ c ∈ opening :: newline (depth + 1), isNameChar c = false :=
    List.forall_mem_cons.mpr ⟨ho, hnewline (depth + 1)⟩
  have hlines : Style.indented.overLines = true := rfl
  unfold Style.enclose at h
  rw [if_pos hlines] at h
  split at h
  · have hempty : ∀ c ∈ [opening, closing], isNameChar c = false :=
      List.forall_mem_cons.mpr ⟨ho, List.forall_mem_singleton.mpr hc⟩
    exact absurd (h.subset List.mem_cons_self) fun hin => letters_apart hm hempty _ hin List.mem_cons_self
  · rw [List.append_assoc] at h
    have hinner := infix_of_head_notMem (fun hin => letters_apart hm hopen _ hin List.mem_cons_self) h
    rw [← List.append_nil (letters (newline depth ++ [closing]))] at hinner
    rcases infix_of_infix_around (letters_apart hm hclose) (by simp [letters]) hinner with hinner | hinner
    · exact infix_intercalate hm hsep (List.cons_ne_nil _ _) hinner
    · cases List.infix_nil.mp hinner

theorem quote_apart : Sum.inl '"' ∉ letters (α := α) ('_' :: m) := by
  intro hin
  obtain ⟨c, hc, hquote⟩ := List.mem_map.mp hin
  have hname := hm c hc
  rw [Sum.inl.inj hquote] at hname
  exact absurd hname (by decide)

/-- The quotes around a word are in no name. -/
theorem infix_between_quotes {w : Word α} (h : letters ('_' :: m) <:+: .inl '"' :: (w ++ [.inl '"'])) :
    letters ('_' :: m) <:+: w := by
  have hquotes : ∀ x ∈ [(Sum.inl '"' : Char ⊕ α)], x ∉ letters ('_' :: m) :=
    List.forall_mem_singleton.mpr (quote_apart hm)
  have hhead : (Sum.inl '_' : Char ⊕ α) ∉ [.inl '"'] := by simp
  have hinner : letters ('_' :: m) <:+: w ++ [.inl '"'] := infix_of_head_notMem hhead h
  rw [← List.append_nil [(Sum.inl '"' : Char ⊕ α)]] at hinner
  rcases infix_of_infix_around hquotes (List.cons_ne_nil _ _) hinner with hinner | hinner
  · exact hinner
  · cases List.infix_nil.mp hinner

theorem infix_writeString {w : Wide} (h : letters ('_' :: m) <:+: writeString false w) : letters ('_' :: m) <:+: w := by
  have hescape : '\\' ∉ m := fun hin => absurd (hm _ (List.mem_cons_of_mem _ hin)) (by decide)
  exact infix_of_infix_written hescape (infix_between_quotes hm h)

theorem infix_raised_writeString {w : Wide} (h : letters ('_' :: m) <:+: raised (α := α) (writeString false w)) :
    letters ('_' :: m) <:+: w := by
  rw [← raised_letters] at h
  exact infix_writeString hm (infix_raised h)

/-- **A name stands among the characters of a word only if it stands in a text.** -/
theorem infix_word {d : Template α} {depth : Nat} (h : letters ('_' :: m) <:+: word depth d) :
    ∃ t ∈ d.texts, letters ('_' :: m) <:+: t := by
  induction d using structuralInduction generalizing depth with
  | hole a =>
      have hin : (Sum.inl '_' : Char ⊕ (α ⊕ Half)) ∈ [Sum.inr (.inl a)] := h.subset List.mem_cons_self
      simp at hin
  | text t => exact ⟨t, mem_texts.mpr List.mem_cons_self, infix_raised_writeString hm h⟩
  | scalar s =>
      have hin : '_' ∈ s.text := (infix_letters h).subset List.mem_cons_self
      exact absurd (s.isScalarChar_of_mem hin) (by decide)
  | list items ih =>
      rw [word_list] at h
      obtain ⟨w, hw, hin⟩ := infix_enclose hm (by decide) (by decide) h
      obtain ⟨d, hd, rfl⟩ := List.mem_map.mp hw
      obtain ⟨t, ht, hmt⟩ := ih d hd hin
      exact ⟨t, mem_texts.mpr (mem_leaves_list.mpr ⟨d, hd, mem_texts.mp ht⟩), hmt⟩
  | dict entries ih =>
      rw [word_dict] at h
      obtain ⟨w, hw, hin⟩ := infix_enclose hm (by decide) (by decide) h
      obtain ⟨e, he, rfl⟩ := List.mem_map.mp hw
      have hcolon : ∀ c ∈ ": ".toList, isNameChar c = false := by decide
      -- no name has a colon or a blank, so it stands in the key or in the value
      rcases infix_of_infix_around (letters_apart hm hcolon) (List.cons_ne_nil _ _) hin with hin | hin
      · cases hk : e.1 with
        | hole a =>
            rw [hk] at hin
            have hmem : (Sum.inl '_' : Char ⊕ (α ⊕ Half)) ∈ [Sum.inr (.inl a)] := hin.subset List.mem_cons_self
            simp at hmem
        | text t =>
            rw [hk] at hin
            refine ⟨t, mem_texts.mpr (mem_leaves_dict.mpr ⟨e, he, Or.inl (by rw [hk]; rfl)⟩), ?_⟩
            exact infix_raised_writeString hm hin
      · obtain ⟨t, ht, hmt⟩ := ih e he hin
        exact ⟨t, mem_texts.mpr (mem_leaves_dict.mpr ⟨e, he, Or.inr (mem_texts.mp ht)⟩), hmt⟩

end

theorem infix_intercalate_of_mem {γ : Type} {w sep : List γ} {ws : List (List γ)} (hw : w ∈ ws) :
    w <:+: sep.intercalate ws := by
  induction ws with
  | nil => cases hw
  | cons v ws ih =>
      cases ws with
      | nil =>
          rw [List.mem_singleton.mp hw, List.intercalate_singleton]
      | cons v' ws =>
          rw [List.intercalate_cons_cons]
          rcases List.mem_cons.mp hw with rfl | hw
          · rw [List.append_assoc]
            exact (List.prefix_append _ _).isInfix
          · exact (ih hw).trans (List.suffix_append _ _).isInfix

theorem infix_enclose_of_mem {depth : Nat} {opening closing : Char} {parts : List (Word α)} {w : Word α}
    (hw : w ∈ parts) : w <:+: Style.indented.enclose depth opening closing parts := by
  have hlines : Style.indented.overLines = true := rfl
  unfold Style.enclose
  rw [if_neg (by simpa using List.ne_nil_of_mem hw), if_pos hlines]
  exact ((infix_intercalate_of_mem hw).trans (List.suffix_append _ _).isInfix).trans (List.prefix_append _ _).isInfix

/-- Every text of a template stands in its word, spelled out. -/
theorem text_infix_word {d : Template α} {depth : Nat} {s : Wide} (hs : s ∈ d.texts) :
    raised (writeString false s) <:+: word depth d := by
  induction d using structuralInduction generalizing depth with
  | hole a => cases hs
  | text t =>
      obtain rfl := List.mem_singleton.mp hs
      exact List.infix_refl _
  | scalar x => cases hs
  | list items ih =>
      obtain ⟨d, hd, hs⟩ := mem_leaves_list.mp (mem_texts.mp hs)
      rw [word_list]
      exact (ih d hd (mem_texts.mpr hs)).trans (infix_enclose_of_mem (List.mem_map_of_mem hd))
  | dict entries ih =>
      obtain ⟨e, he, hs⟩ := mem_leaves_dict.mp (mem_texts.mp hs)
      rw [word_dict]
      refine List.IsInfix.trans ?_ (infix_enclose_of_mem (List.mem_map_of_mem he))
      rw [wordEntry]
      rcases hs with hs | hs
      · cases hk : e.1 with
        | hole a =>
            rw [hk] at hs
            cases hs
        | text t =>
            rw [hk] at hs
            obtain rfl := Sum.inr.inj hs
            exact (List.prefix_append _ _).isInfix
      · have hvalue := @ih e he (depth + 1) (mem_texts.mpr hs)
        refine hvalue.trans ?_
        exact (List.suffix_append _ _).isInfix.trans (List.suffix_append _ _).isInfix

end HttpFile.Json
