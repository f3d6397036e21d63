import HttpFile.Proofs.Text.Line
import HttpFile.Proofs.Text.Replace
import HttpFile.Proofs.Text.Trim
import HttpFile.Text.Surrogate
import Mathlib.Data.List.Basic
import Mathlib.Data.Sum.Basic

/-!
# `HttpFile.Proofs.Text.Wide` — texts with holes and with halves of characters

The holes of a word may be filled with words, or spelled as texts. A wide text is a word whose holes are halves of
characters. It is read as a text by letting a character stand in for each half; a few characters of private
use are enough, and two ways of choosing them tell a wide text completely. So what is known of texts carries
over to wide texts.

## Contents
- **Words.** `spell_append` and its like; `fill`, `spell_fill`.
- **Texts.** `text?_eq_some`: a wide text without halves is a text.
- **Stand-ins.** `StandIn`, `reading`; `eq_of_readings`.
- **Operations.** `reading_replaceAll`, `reading_trimWhere`; `infix_of_infix_map`.
-/

namespace HttpFile.Text

open Unicode

variable {α β γ δ : Type}

/-! ## Words -/

section
variable (h : α → Text)

@[simp] theorem spell_nil : spell h [] = [] := rfl

@[simp] theorem spell_append (u v : Word α) : spell h (u ++ v) = spell h u ++ spell h v :=
  List.flatMap_append

@[simp] theorem spell_letter (c : Char) (w : Word α) : spell h (.inl c :: w) = c :: spell h w := rfl

@[simp] theorem spell_hole (a : α) (w : Word α) : spell h (.inr a :: w) = h a ++ spell h w := rfl

@[simp] theorem spell_letters (t : Text) : spell h (letters t) = t := by
  induction t with
  | nil => rfl
  | cons c t ih => exact congrArg (c :: ·) ih

theorem spell_intercalate (sep : Word α) (parts : List (Word α)) :
    spell h (sep.intercalate parts) = (spell h sep).intercalate (parts.map (spell h)) :=
  apply_intercalate (spell_nil h) (spell_append h)

end

theorem spell_congr {h h' : α → Text} {w : Word α} (hw : ∀ a, Sum.inr a ∈ w → h a = h' a) :
    spell h w = spell h' w := by
  refine List.flatMap_congr fun x hx => ?_
  cases x with
  | inl c => rfl
  | inr a => exact hw a hx

theorem spell_infix {h : α → Text} {u w : Word α} (hu : u <:+: w) : spell h u <:+: spell h w := by
  obtain ⟨x, y, rfl⟩ := hu
  rw [spell_append, spell_append]
  exact ⟨_, _, rfl⟩

@[simp] theorem letters_nil : letters (α := α) [] = [] := rfl

@[simp] theorem letters_cons (c : Char) (t : Text) : letters (α := α) (c :: t) = .inl c :: letters t := rfl

@[simp] theorem letters_append (s t : Text) : letters (α := α) (s ++ t) = letters s ++ letters t := List.map_append

theorem intercalate_letters (sep : Text) (ts : List Text) :
    (letters sep).intercalate (ts.map letters) = (letters (sep.intercalate ts) : Word α) :=
  (apply_intercalate letters_nil letters_append).symm

theorem inr_notMem_letters (a : α) (t : Text) : (Sum.inr a : Char ⊕ α) ∉ letters t := by
  simp [letters]

theorem letters_injective : Function.Injective (letters (α := α)) := List.map_injective_iff.mpr Sum.inl_injective

/-- A word with a word in each hole. -/
def fill (g : α → Word β) (w : Word α) : Word β := w.flatMap (Sum.elim (fun c => [.inl c]) g)

section
variable (g : α → Word β)

@[simp] theorem fill_nil : fill g [] = [] := rfl

@[simp] theorem fill_append (u v : Word α) : fill g (u ++ v) = fill g u ++ fill g v := List.flatMap_append

@[simp] theorem fill_letter (c : Char) (w : Word α) : fill g (.inl c :: w) = .inl c :: fill g w := rfl

@[simp] theorem fill_hole (a : α) (w : Word α) : fill g (.inr a :: w) = g a ++ fill g w := rfl

@[simp] theorem fill_letters (t : Text) : fill g (letters t) = letters t := by
  induction t with
  | nil => rfl
  | cons c t ih => exact congrArg (Sum.inl c :: ·) ih

theorem fill_intercalate (sep : Word α) (parts : List (Word α)) :
    fill g (sep.intercalate parts) = (fill g sep).intercalate (parts.map (fill g)) :=
  apply_intercalate (fill_nil g) (fill_append g)

/-- Filled holes are spelled as what fills them. -/
theorem spell_fill (h : β → Text) (w : Word α) : spell h (fill g w) = spell (fun a => spell h (g a)) w := by
  induction w with
  | nil => rfl
  | cons x w ih =>
      cases x with
      | inl c => rw [fill_letter, spell_letter, spell_letter, ih]
      | inr a => rw [fill_hole, spell_append, spell_hole, ih]

theorem fill_fill (g' : β → Word γ) (w : Word α) : fill g' (fill g w) = fill (fun a => fill g' (g a)) w := by
  induction w with
  | nil => rfl
  | cons x w ih =>
      cases x with
      | inl c => rw [fill_letter, fill_letter, fill_letter, ih]
      | inr a => rw [fill_hole, fill_append, fill_hole, ih]

end

theorem fill_congr {g g' : α → Word β} {w : Word α} (hw : ∀ a, Sum.inr a ∈ w → g a = g' a) :
    fill g w = fill g' w := by
  refine List.flatMap_congr fun x hx => ?_
  cases x with
  | inl c => rfl
  | inr a => exact hw a hx

theorem fill_infix {g : α → Word β} {u w : Word α} (hu : u <:+: w) : fill g u <:+: fill g w := by
  obtain ⟨x, y, rfl⟩ := hu
  rw [fill_append, fill_append]
  exact ⟨_, _, rfl⟩

/-! ## Texts -/

/-- A word without holes is the text of its letters. -/
theorem text?_eq_some {w : Word α} {t : Text} : Word.text? w = some t ↔ w = letters t := by
  unfold Word.text?
  induction w generalizing t with
  | nil => cases t <;> simp
  | cons x w ih =>
      cases x with
      | inr a => cases t <;> simp
      | inl c =>
          cases t with
          | nil => simp [Option.bind_eq_some_iff]
          | cons d t =>
              simp only [List.mapM_cons, Sum.getLeft?_inl, Option.bind_eq_bind, Option.bind_some,
                Option.bind_eq_some_iff, Option.pure_def, Option.some.injEq, letters_cons, List.cons.injEq,
                Sum.inl.injEq]
              constructor
              · rintro ⟨t', ht', rfl, rfl⟩
                exact ⟨rfl, ih.mp ht'⟩
              · rintro ⟨rfl, hw⟩
                exact ⟨t, ih.mpr hw, rfl, rfl⟩

theorem exists_letters_iff {w : Word α} : (∃ t, w = letters t) ↔ ∀ a, Sum.inr a ∉ w := by
  constructor
  · rintro ⟨t, rfl⟩ a
    exact inr_notMem_letters a t
  · intro h
    induction w with
    | nil => exact ⟨[], rfl⟩
    | cons x w ih =>
        obtain ⟨t, rfl⟩ := ih fun a ha => h a (List.mem_cons_of_mem x ha)
        cases x with
        | inl c => exact ⟨c :: t, rfl⟩
        | inr a => exact absurd List.mem_cons_self (h a)

theorem text?_eq_none {w : Word α} : Word.text? w = none ↔ ∃ a, Sum.inr a ∈ w := by
  rw [Option.eq_none_iff_forall_ne_some]
  constructor
  · intro h
    by_contra hnone
    obtain ⟨t, ht⟩ := exists_letters_iff.mpr fun a ha => hnone ⟨a, ha⟩
    exact h t (text?_eq_some.mpr ht)
  · rintro ⟨a, ha⟩ t ht
    rw [text?_eq_some.mp ht] at ha
    exact inr_notMem_letters a t ha

/-- What goes on with the text of a word is right with that text exactly if the word is one. -/
theorem elim_text?_eq_ok {w : Word α} {e : ε} {t : Text} :
    (match Word.text? w with
      | some u => Except.ok u
      | none => .error e) = .ok t ↔ w = letters t := by
  cases hw : Word.text? w with
  | none =>
      simp only [reduceCtorEq, false_iff]
      rintro rfl
      rw [text?_eq_some.mpr rfl] at hw
      cases hw
  | some u =>
      obtain rfl := text?_eq_some.mp hw
      simp only [Except.ok.injEq, letters_injective.eq_iff]

@[simp] theorem text?_letters (t : Text) : Word.text? (letters (α := α) t) = some t := text?_eq_some.mpr rfl

@[simp] theorem readable_letters (t : Text) : Wide.readable (letters t) = t := by
  induction t with
  | nil => rfl
  | cons c t ih => exact congrArg (c :: ·) ih

/-! ## Stand-ins -/

/-- A character for each half, out of those that are for private use. -/
structure StandIn where
  char : Half → Char
  injective : Function.Injective char
  isPrivate : ∀ h, 0xE000 ≤ (char h).toNat ∧ (char h).toNat < 0xF000

/-- What a wide text looks like with characters for its halves. -/
def reading (φ : StandIn) (w : Wide) : Text := w.map (Sum.elim id φ.char)

section
variable (φ : StandIn)

theorem reading_eq (w : Wide) : reading φ w = spell (fun h => [φ.char h]) w := by
  induction w with
  | nil => rfl
  | cons x w ih =>
      cases x with
      | inl c => exact congrArg (c :: ·) ih
      | inr h => exact congrArg (φ.char h :: ·) ih

@[simp] theorem reading_append (u v : Wide) : reading φ (u ++ v) = reading φ u ++ reading φ v := List.map_append

@[simp] theorem reading_letters (t : Text) : reading φ (letters t) = t := by
  rw [reading_eq, spell_letters]

/-- No character below those for private use stands in for a half. -/
theorem StandIn.ne_of_lt {c : Char} (hc : c.toNat < 0xE000) (h : Half) : φ.char h ≠ c := by
  rintro rfl
  exact absurd hc (Nat.not_lt_of_le (φ.isPrivate h).1)

end

theorem code_lt (h : Half) : 0xD800 ≤ h.code ∧ h.code < 0xE000 := by
  have hcode := h.isSurrogate
  simp only [isSurrogate, isHighSurrogate, isLowSurrogate, Bool.or_eq_true, Bool.and_eq_true, decide_eq_true_eq]
    at hcode
  omega

theorem toNat_ofNat_of_valid {n : Nat} (h : n.isValidChar) : (Char.ofNat n).toNat = n := by
  unfold Char.ofNat
  rw [dif_pos h]
  rfl

theorem toNat_ofNat_private {n : Nat} (h : 0xE000 ≤ n) (h' : n < 0xF000) : (Char.ofNat n).toNat = n :=
  toNat_ofNat_of_valid (Or.inr ⟨by omega, by omega⟩)

/-- The stand-ins from a code point on. -/
def standInFrom (start : Nat) (h : 0xE000 ≤ start) (h' : start + 0x800 ≤ 0xF000) : StandIn where
  char x := Char.ofNat (start + (x.code - 0xD800))
  injective x y hxy := by
    have hx := code_lt x
    have hy := code_lt y
    have hcodes := congrArg Char.toNat hxy
    rw [toNat_ofNat_private (by omega) (by omega), toNat_ofNat_private (by omega) (by omega)] at hcodes
    obtain ⟨m, hm⟩ := x
    obtain ⟨n, hn⟩ := y
    obtain rfl : m = n := by
      simp only at hcodes hx hy
      omega
    rfl
  isPrivate x := by
    have hx := code_lt x
    rw [toNat_ofNat_private (by omega) (by omega)]
    omega

/-- There are two choices of stand-ins that share none. -/
theorem exists_standIns : ∃ φ ψ : StandIn, ∀ x y, φ.char x ≠ ψ.char y := by
  refine ⟨standInFrom 0xE000 (by decide) (by decide), standInFrom 0xE800 (by decide) (by decide), fun x y hxy => ?_⟩
  have hx := code_lt x
  have hy := code_lt y
  have hcodes := congrArg Char.toNat hxy
  unfold standInFrom at hcodes
  simp only at hcodes
  rw [toNat_ofNat_private (by omega) (by omega), toNat_ofNat_private (by omega) (by omega)] at hcodes
  omega

/-- **A wide text is told by how it reads.** A character that another choice of stand-ins changes is one, and every
    other character stands for itself. -/
theorem eq_of_readings {u v : Wide} (h : ∀ φ, reading φ u = reading φ v) : u = v := by
  obtain ⟨φ, ψ, hother⟩ := exists_standIns
  have hφ := h φ
  have hψ := h ψ
  clear h
  induction u generalizing v with
  | nil =>
      cases v with
      | nil => rfl
      | cons y v => cases hφ
  | cons x u ih =>
      cases v with
      | nil => cases hφ
      | cons y v =>
          obtain ⟨hx, hφs⟩ := List.cons.inj hφ
          obtain ⟨hy, hψs⟩ := List.cons.inj hψ
          obtain rfl := ih hφs hψs
          congr 1
          cases x with
          | inl c =>
              cases y with
              | inl d => exact congrArg Sum.inl hx
              | inr b => exact absurd (hx.symm.trans hy) (hother b b)
          | inr a =>
              cases y with
              | inl d => exact absurd (hx.trans hy.symm) (hother a a)
              | inr b => exact congrArg Sum.inr (φ.injective hx)

/-! ## Operations -/

/-- **Replacing letters and reading go together.** -/
theorem reading_replaceAll (φ : StandIn) {m : Text} (hm : ∀ c ∈ m, c.toNat < 0xE000) (token : Text) (w : Wide) :
    reading φ (replaceAll (letters m) (letters token) w) = replaceAll m token (reading φ w) := by
  have hletter : ∀ x : Char ⊕ Half, ∀ y ∈ letters m, Sum.elim id φ.char x = Sum.elim id φ.char y → x = y := by
    intro x y hy hxy
    obtain ⟨c, hc, rfl⟩ := List.mem_map.mp hy
    cases x with
    | inl d => exact congrArg Sum.inl hxy
    | inr h => exact absurd hxy (φ.ne_of_lt (hm c hc) h)
  have hpattern : (letters m).map (Sum.elim id φ.char) = m := reading_letters φ m
  have htoken : (letters token).map (Sum.elim id φ.char) = token := reading_letters φ token
  show (replaceAll (letters m) (letters token) w).map (Sum.elim id φ.char) = _
  rw [replaceAll_map hletter, hpattern, htoken]
  rfl

theorem isBlank_standIn (φ : StandIn) (h : Half) : isBlank (φ.char h) = false := by
  have hranges : ∀ r ∈ blankRanges, r.2 < 0xE000 := by decide
  unfold isBlank
  rw [Bool.eq_false_iff]
  intro hblank
  obtain ⟨r, hr, -, hle⟩ := exists_of_inRanges hblank
  have hlow := hranges r hr
  have hhigh := (φ.isPrivate h).1
  omega

theorem mem_trimWhere {p : γ → Bool} {t : List γ} {x : γ} (hx : x ∈ t) (hp : p x = false) : x ∈ trimWhere p t := by
  have hdrop : ∀ l : List γ, x ∈ l → x ∈ l.dropWhile p := by
    intro l hl
    rw [← List.takeWhile_append_dropWhile (p := p) (l := l)] at hl
    refine (List.mem_append.mp hl).resolve_left fun htake => ?_
    have hclass := List.mem_takeWhile_imp htake
    rw [hp] at hclass
    cases hclass
  unfold trimWhere trimRightWhere trimLeftWhere
  exact List.mem_reverse.mpr (hdrop _ (List.mem_reverse.mpr (hdrop t hx)))

theorem trimWhere_map (p : δ → Bool) (f : γ → δ) (t : List γ) :
    (trimWhere (fun x => p (f x)) t).map f = trimWhere p (t.map f) := by
  have hleft : ∀ l : List γ, (l.map f).dropWhile p = (l.dropWhile fun x => p (f x)).map f := fun _ => List.dropWhile_map
  unfold trimWhere trimRightWhere trimLeftWhere
  rw [hleft, ← List.map_reverse, hleft, List.map_reverse]

/-- **Trimming and reading go together**, for no half is blank and nothing blank stands in for one. -/
theorem reading_trimWhere (φ : StandIn) (w : Wide) :
    reading φ (trimWhere (Sum.elim isBlank fun _ => false) w) = strip (reading φ w) := by
  have hclass : (Sum.elim isBlank fun _ => false) = fun x => isBlank (Sum.elim id φ.char x) := by
    funext x
    cases x with
    | inl c => rfl
    | inr h => exact (isBlank_standIn φ h).symm
  rw [hclass]
  exact trimWhere_map isBlank (Sum.elim id φ.char) w

theorem eq_of_map_eq {f : γ → δ} {m t : List γ} (hf : ∀ x, ∀ y ∈ m, f x = f y → x = y) (h : t.map f = m.map f) :
    t = m := by
  induction m generalizing t with
  | nil => exact List.map_eq_nil_iff.mp h
  | cons y m ih =>
      obtain ⟨x, t, rfl, hx, ht⟩ := List.map_eq_cons_iff.mp h
      rw [hf x y List.mem_cons_self hx, ih (fun x y hy => hf x y (List.mem_cons_of_mem _ hy)) ht]

/-- What stands in a list stood there before other elements were put in the place of all. -/
theorem infix_of_infix_map {f : γ → δ} {m t : List γ} (hf : ∀ x, ∀ y ∈ m, f x = f y → x = y)
    (h : m.map f <:+: t.map f) : m <:+: t := by
  obtain ⟨u, v, huv⟩ := h
  obtain ⟨p, v', rfl, hp, -⟩ := List.append_eq_map_iff.mp huv
  obtain ⟨u', m', rfl, -, hm⟩ := List.append_eq_map_iff.mp hp.symm
  obtain rfl := eq_of_map_eq hf hm
  exact ⟨u', v', rfl⟩

end HttpFile.Text
