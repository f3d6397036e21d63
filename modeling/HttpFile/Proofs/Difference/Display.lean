import HttpFile.Proofs.Difference.Longest
import HttpFile.Proofs.Text.Wide

/-!
# `HttpFile.Proofs.Difference.Display` — what is displayed tells both texts

Around the longest stretch that two texts share, what is left of them on either side is compared in the same
way, and what has nothing in common is removed and added. The display holds both texts: without what is on
green, and without the marks of red, it is the first one; the other way round it is the second one.

## Contents
- **Edits.** `Splits`: edits around longest stretches; `splits_edits`, `Splits.unique`.
- **Reading colours.** `Ansi.outside`: a text without what is in a colour; `Ansi.unmarked`: a text without the
  marks of a colour; `Ansi.outside_paint`, `Ansi.outside_paint_other`, `Ansi.unmarked_paint`.
- **Display.** `Edit.Plain`; `read_flatMap`, `outside_render_green`, `outside_render_red`, `unmarked_shown`.
- **Wide texts.** `editsWithin_map`, `renderWide_letters`: between texts nothing else is displayed.
- **Main result.** `render_tells`, with an example.
-/

namespace HttpFile

open Text

namespace Difference

/-! ## Edits -/

/-- Edits between two texts: the longest stretch that they share is kept, and what is before it and behind it
    in the one text is edited to what is there in the other. Where they share nothing, everything is changed. -/
inductive Splits : Text → Text → List (Edit Char) → Prop
  | apart {a b : Text} (h : ∀ c ∈ a, c ∉ b) : Splits a b [.change a b]
  | around {a b : Text} {m : Match} {es fs : List (Edit Char)} (h : IsLongest a b m) (hsize : 0 < m.size)
      (front : Splits (a.take m.left) (b.take m.right) es)
      (behind : Splits (a.drop (m.left + m.size)) (b.drop (m.right + m.size)) fs) :
      Splits a b (es ++ .keep ((a.drop m.left).take m.size) :: fs)

/-- A character of both texts is a stretch of its own. -/
theorem exists_shares {a b : Text} {c : Char} (ha : c ∈ a) (hb : c ∈ b) :
    ∃ m, Shares a b m ∧ m.size = 1 := by
  obtain ⟨u, v, rfl⟩ := List.append_of_mem ha
  obtain ⟨s, t, rfl⟩ := List.append_of_mem hb
  exact ⟨⟨1, u.length, s.length⟩, ⟨by simp, by simp, by simp⟩, rfl⟩

/-- The bound on the splits is not met: each split takes a character out of the first text. -/
theorem splits_editsWithin {depth : Nat} {a b : Text} (h : a.length < depth) :
    Splits a b (editsWithin depth a b) := by
  induction depth generalizing a b with
  | zero => omega
  | succ depth ih =>
      have hlongest := isLongest_longestMatch a b
      unfold editsWithin
      simp only
      generalize longestMatch a b = m at hlongest ⊢
      split
      · next hnone =>
          -- the stretch is the same in both texts, so there is none
          have hsize : m.size = 0 := hnone.resolve_right fun hkept => hkept hlongest.shares.same
          refine .apart fun c ha hb => ?_
          obtain ⟨m', hshares, hsize'⟩ := exists_shares ha hb
          have hbeats := hlongest.beats m' hshares (by omega)
          unfold Match.Beats at hbeats
          omega
      · next hsome =>
          have hsize : 0 < m.size := Nat.pos_of_ne_zero fun hzero => hsome (.inl hzero)
          have hleft := hlongest.shares.left
          refine .around hlongest hsize (ih ?_) (ih ?_)
          · rw [List.length_take]
            omega
          · rw [List.length_drop]
            omega

theorem splits_edits (a b : Text) : Splits a b (edits a b) := splits_editsWithin (Nat.lt_succ_self a.length)

/-- Texts that share a stretch have a character in common. -/
theorem exists_mem_of_shares {a b : Text} {m : Match} (h : Shares a b m) (hsize : 0 < m.size) :
    ∃ c ∈ a, c ∈ b := by
  have hlength : 0 < ((a.drop m.left).take m.size).length := by
    have hleft := h.left
    rw [List.length_take, List.length_drop]
    omega
  obtain ⟨c, hc⟩ := List.exists_mem_of_length_pos hlength
  refine ⟨c, List.mem_of_mem_drop (List.mem_of_mem_take hc), ?_⟩
  rw [h.same] at hc
  exact List.mem_of_mem_drop (List.mem_of_mem_take hc)

/-- There is one way to split two texts. -/
theorem Splits.unique {a b : Text} {es es' : List (Edit Char)} (h : Splits a b es) (h' : Splits a b es') : es = es' := by
  induction h generalizing es' with
  | apart hapart =>
      cases h' with
      | apart => rfl
      | around hlongest hsize =>
          obtain ⟨c, ha, hb⟩ := exists_mem_of_shares hlongest.shares hsize
          exact absurd hb (hapart c ha)
  | around hlongest hsize _ _ ihFront ihBehind =>
      cases h' with
      | apart hapart =>
          obtain ⟨c, ha, hb⟩ := exists_mem_of_shares hlongest.shares hsize
          exact absurd hb (hapart c ha)
      | around hlongest' hsize' front behind =>
          obtain rfl := hlongest.unique hlongest' hsize
          rw [ihFront front, ihBehind behind]

end Difference

/-! ## Reading colours -/

namespace Ansi

/-- A text without what stands in a colour, its marks included; the first argument says whether the place at
    hand is inside of the colour, the second one how many characters of a mark are still to be passed over. -/
def outsideFrom (p : Paint) : Bool → Nat → Text → Text
  | _, _, [] => []
  | inside, skip + 1, _ :: rest => outsideFrom p inside skip rest
  | false, 0, c :: rest =>
    if p.on.isPrefixOf (c :: rest) then outsideFrom p true (p.on.length - 1) rest
    else c :: outsideFrom p false 0 rest
  | true, 0, c :: rest =>
    if reset.isPrefixOf (c :: rest) then outsideFrom p false (reset.length - 1) rest
    else outsideFrom p true 0 rest

/-- A text without what stands in a colour. -/
def outside (p : Paint) (t : Text) : Text := outsideFrom p false 0 t

/-- A text without the marks of a colour. -/
def unmarked (p : Paint) (t : Text) : Text := replaceAll reset [] (replaceAll p.on [] t)

variable {p q : Paint} {u t : Text}

theorem Paint.on_ne_nil (p : Paint) : p.on ≠ [] := List.cons_ne_nil _ _

theorem Paint.head_on (p : Paint) : p.on.head? = some escapeChar := rfl

theorem reset_ne_nil : reset ≠ [] := List.cons_ne_nil _ _

theorem head_reset : reset.head? = some escapeChar := rfl

theorem outsideFrom_skip (inside : Bool) (u t : Text) :
    outsideFrom p inside u.length (u ++ t) = outsideFrom p inside 0 t := by
  induction u with
  | nil => rfl
  | cons c u ih => cases inside <;> exact ih

theorem outsideFrom_on (t : Text) : outsideFrom p false 0 (p.on ++ t) = outsideFrom p true 0 t := by
  have hon : p.on.isPrefixOf (p.on ++ t) = true := List.isPrefixOf_iff_prefix.mpr (List.prefix_append p.on t)
  show (if p.on.isPrefixOf (p.on ++ t) then outsideFrom p true (p.on.length - 1) (p.on.tail ++ t) else _) = _
  rw [if_pos hon]
  exact outsideFrom_skip true p.on.tail t

theorem outsideFrom_reset (t : Text) : outsideFrom p true 0 (reset ++ t) = outsideFrom p false 0 t := rfl

/-- A place that opens no mark is kept outside of the colour and left out inside of it. -/
theorem outsideFrom_of_ne {c : Char} (hc : c ≠ escapeChar) (inside : Bool) (t : Text) :
    outsideFrom p inside 0 (c :: t) = (if inside then [] else [c]) ++ outsideFrom p inside 0 t := by
  have hne : (escapeChar == c) = false := beq_false_of_ne hc.symm
  cases inside with
  | false =>
      have hon : p.on.isPrefixOf (c :: t) = false := by simp [Paint.on, List.isPrefixOf, hne]
      rw [outsideFrom, hon]
      rfl
  | true =>
      have hreset : reset.isPrefixOf (c :: t) = false := by simp [reset, List.isPrefixOf, hne]
      rw [outsideFrom, hreset]
      rfl

theorem outsideFrom_append (hu : escapeChar ∉ u) (inside : Bool) (t : Text) :
    outsideFrom p inside 0 (u ++ t) = (if inside then [] else u) ++ outsideFrom p inside 0 t := by
  induction u with
  | nil => cases inside <;> rfl
  | cons c u ih =>
      have hc : c ≠ escapeChar := fun he => hu (by simp [he])
      rw [List.cons_append, outsideFrom_of_ne hc, ih fun hm => hu (by simp [hm])]
      cases inside <;> rfl

theorem outside_append (hu : escapeChar ∉ u) (t : Text) : outside p (u ++ t) = u ++ outside p t :=
  outsideFrom_append hu false t

/-- What is in the colour is left out. -/
theorem outside_paint (hu : escapeChar ∉ u) (t : Text) : outside p (paint p u ++ t) = outside p t := by
  unfold outside paint
  rw [List.append_assoc, List.append_assoc, outsideFrom_on, outsideFrom_append hu]
  exact outsideFrom_reset t

theorem Paint.length_on (p : Paint) : p.on.length = 5 := by
  cases p <;> rfl

theorem Paint.code_inj (h : p.code = q.code) : p = q := by
  cases p <;> cases q <;> first | rfl | exact absurd h (by decide)

/-- Marks of different colours are different, and none is longer than another one. -/
theorem eq_of_prefix_on (h : p.on <+: q.on ++ t) : p = q := by
  obtain ⟨rest, hrest⟩ := h
  have hon : p.on = q.on := (List.append_inj hrest (p.length_on.trans q.length_on.symm)).1
  have hcode : p.code ++ ['m'] = q.code ++ ['m'] := (List.cons.inj (List.cons.inj hon).2).2
  exact Paint.code_inj (List.append_cancel_right hcode)

/-- The mark of another colour is kept, and so is the mark that ends it. -/
theorem outside_on_other (h : p ≠ q) (t : Text) : outside p (q.on ++ t) = q.on ++ outside p t := by
  have hother : ¬p.on.isPrefixOf (q.on ++ t) = true := fun hp => h (eq_of_prefix_on (List.isPrefixOf_iff_prefix.mp hp))
  have hfree : escapeChar ∉ q.on.tail := by cases q <;> decide
  show (if p.on.isPrefixOf (q.on ++ t) then _ else escapeChar :: outsideFrom p false 0 (q.on.tail ++ t)) = _
  rw [if_neg hother, outsideFrom_append hfree]
  rfl

theorem outside_reset (t : Text) : outside p (reset ++ t) = reset ++ outside p t := by
  cases p <;> rfl

/-- What is in another colour is kept. -/
theorem outside_paint_other (h : p ≠ q) (hu : escapeChar ∉ u) (t : Text) :
    outside p (paint q u ++ t) = paint q u ++ outside p t := by
  unfold paint
  rw [List.append_assoc, List.append_assoc, outside_on_other h, outside_append hu, outside_reset,
    ← List.append_assoc, ← List.append_assoc]

theorem unmarked_append (hu : escapeChar ∉ u) (t : Text) : unmarked p (u ++ t) = u ++ unmarked p t := by
  unfold unmarked
  rw [replaceAll_append p.head_on hu, replaceAll_append head_reset hu]

/-- What is in the colour stays, without its marks. -/
theorem unmarked_paint (hu : escapeChar ∉ u) (t : Text) : unmarked p (paint p u ++ t) = u ++ unmarked p t := by
  have hreset : replaceAll p.on [] (reset ++ t) = reset ++ replaceAll p.on [] t := by
    cases p <;> rfl
  have hon : replaceAll p.on [] (p.on ++ (u ++ (reset ++ t))) = u ++ (reset ++ replaceAll p.on [] t) := by
    rw [replaceAll_pattern_append p.on_ne_nil, List.nil_append, replaceAll_append p.head_on hu, hreset]
  unfold unmarked paint
  rw [List.append_assoc, List.append_assoc, hon, replaceAll_append head_reset hu,
    replaceAll_pattern_append reset_ne_nil, List.nil_append]

end Ansi

namespace Difference

/-! ## Display -/

/-- An edit without escape characters. -/
def Edit.Plain : Edit Char → Prop
  | .keep t => Ansi.escapeChar ∉ t
  | .change removed added => Ansi.escapeChar ∉ removed ∧ Ansi.escapeChar ∉ added

/-- Edits between texts without escape characters have none. -/
theorem plain_of_before_after {es : List (Edit Char)} (hbefore : Ansi.escapeChar ∉ before es)
    (hafter : Ansi.escapeChar ∉ after es) : ∀ e ∈ es, e.Plain := by
  induction es with
  | nil => simp
  | cons e es ih =>
      cases e with
      | keep t =>
          simp only [before, after, List.mem_append, not_or] at hbefore hafter
          exact List.forall_mem_cons.mpr ⟨hbefore.1, ih hbefore.2 hafter.2⟩
      | change removed added =>
          simp only [before, after, List.mem_append, not_or] at hbefore hafter
          exact List.forall_mem_cons.mpr ⟨⟨hbefore.1, hafter.1⟩, ih hbefore.2 hafter.2⟩

/-- What is kept as it is, and of what is changed one side in a colour. -/
def Edit.shown (p : Ansi.Paint) (side : Text → Text → Text) : Edit Char → Text
  | .keep t => t
  | .change removed added => paintSome p (side removed added)

/-- What is kept, and one side of what is changed. -/
def Edit.onSide (side : Text → Text → Text) : Edit Char → Text
  | .keep t => t
  | .change removed added => side removed added

theorem outside_paintSome {p : Ansi.Paint} {u : Text} (hu : Ansi.escapeChar ∉ u) (t : Text) :
    Ansi.outside p (paintSome p u ++ t) = Ansi.outside p t := by
  cases u with
  | nil => rfl
  | cons c u => exact Ansi.outside_paint hu t

theorem outside_paintSome_other {p q : Ansi.Paint} (h : p ≠ q) {u : Text} (hu : Ansi.escapeChar ∉ u) (t : Text) :
    Ansi.outside p (paintSome q u ++ t) = paintSome q u ++ Ansi.outside p t := by
  cases u with
  | nil => rfl
  | cons c u => exact Ansi.outside_paint_other h hu t

theorem unmarked_paintSome {p : Ansi.Paint} {u : Text} (hu : Ansi.escapeChar ∉ u) (t : Text) :
    Ansi.unmarked p (paintSome p u ++ t) = u ++ Ansi.unmarked p t := by
  cases u with
  | nil => rfl
  | cons c u => exact Ansi.unmarked_paint hu t

/-- What a reading makes of each edit in front of whatever follows, it makes of all of them. -/
theorem read_flatMap {read : Text → Text} {f g : Edit Char → Text} {es : List (Edit Char)} (hnil : read [] = [])
    (h : ∀ e ∈ es, ∀ t, read (f e ++ t) = g e ++ read t) : read (es.flatMap f) = es.flatMap g := by
  induction es with
  | nil => exact hnil
  | cons e es ih =>
      rw [List.flatMap_cons, List.flatMap_cons, h e List.mem_cons_self,
        ih fun e' he' => h e' (List.mem_cons_of_mem e he')]

/-- Without what was added, what was removed is still in its colour. -/
theorem outside_render_green {es : List (Edit Char)} (h : ∀ e ∈ es, e.Plain) :
    Ansi.outside .greenGround (es.flatMap Edit.render) =
      es.flatMap (Edit.shown .redGround fun removed _ => removed) := by
  refine read_flatMap rfl fun e he t => ?_
  have hplain := h e he
  cases e with
  | keep u => exact Ansi.outside_append hplain t
  | change removed added =>
      rw [Edit.render, List.append_assoc, outside_paintSome_other (by decide) hplain.1, outside_paintSome hplain.2]
      rfl

/-- Without what was removed, what was added is still in its colour. -/
theorem outside_render_red {es : List (Edit Char)} (h : ∀ e ∈ es, e.Plain) :
    Ansi.outside .redGround (es.flatMap Edit.render) =
      es.flatMap (Edit.shown .greenGround fun _ added => added) := by
  refine read_flatMap rfl fun e he t => ?_
  have hplain := h e he
  cases e with
  | keep u => exact Ansi.outside_append hplain t
  | change removed added =>
      rw [Edit.render, List.append_assoc, outside_paintSome hplain.1, outside_paintSome_other (by decide) hplain.2]
      rfl

/-- One side of the edits, without its marks. -/
theorem unmarked_shown {p : Ansi.Paint} {side : Text → Text → Text} {es : List (Edit Char)} (h : ∀ e ∈ es, e.Plain)
    (hside : ∀ removed added, Edit.Plain (.change removed added) → Ansi.escapeChar ∉ side removed added) :
    Ansi.unmarked p (es.flatMap (Edit.shown p side)) = es.flatMap (Edit.onSide side) := by
  refine read_flatMap rfl fun e he t => ?_
  have hplain := h e he
  cases e with
  | keep u => exact Ansi.unmarked_append hplain t
  | change removed added => exact unmarked_paintSome (hside removed added hplain) t

theorem before_eq (es : List (Edit Char)) : before es = es.flatMap (Edit.onSide fun removed _ => removed) := by
  induction es with
  | nil => rfl
  | cons e es ih => cases e <;> rw [before, ih, List.flatMap_cons] <;> rfl

theorem after_eq (es : List (Edit Char)) : after es = es.flatMap (Edit.onSide fun _ added => added) := by
  induction es with
  | nil => rfl
  | cons e es ih => cases e <;> rw [after, ih, List.flatMap_cons] <;> rfl

/-! ## Wide texts -/

section
variable {γ δ : Type} [DecidableEq γ] [DecidableEq δ] {f : γ → δ} (hf : Function.Injective f)
include hf

theorem matchRow_map (x : γ) (above : List Nat) (b : List γ) :
    matchRow (f x) above (b.map f) = matchRow x above b := by
  induction b generalizing above with
  | nil => cases above <;> rfl
  | cons c b ih =>
      cases above with
      | nil => rfl
      | cons up above =>
          rw [List.map_cons, matchRow, matchRow, ih]
          simp only [hf.eq_iff]

theorem longestMatch_map (a b : List γ) : longestMatch (a.map f) (b.map f) = longestMatch a b := by
  have hrows : ∀ (i : Nat) (above : List Nat) (a : List γ) (best : Match),
      bestFrom (b.map f) i above (a.map f) best = bestFrom b i above a best := by
    intro i above a best
    induction a generalizing i above best with
    | nil => rfl
    | cons x a ih => rw [List.map_cons, bestFrom, bestFrom, matchRow_map hf, ih]
  unfold longestMatch
  rw [List.length_map, hrows]

/-- Characters are told apart by the comparison, and nothing else. -/
theorem editsWithin_map (depth : Nat) (a b : List γ) :
    editsWithin depth (a.map f) (b.map f) = (editsWithin depth a b).map (Edit.map (List.map f)) := by
  induction depth generalizing a b with
  | zero => rfl
  | succ depth ih =>
      unfold editsWithin
      simp only [longestMatch_map hf, ← List.map_drop, ← List.map_take, ih, (List.map_injective_iff.mpr hf).ne_iff]
      split
      · rfl
      · rw [List.map_append, List.map_cons]
        rfl

end

/-- **Between texts the way is the same**, whether the second one might have had halves of characters or not. -/
theorem renderWide_letters (a b : Text) : renderWide a (letters b) = render a b := by
  have hletters : ∀ t : Text, spell Half.escape (t.map Sum.inl) = t := spell_letters _
  have hedits : edits (letters a : Wide) (letters b) = (edits a b).map (Edit.map letters) := by
    unfold edits letters
    rw [List.length_map]
    exact editsWithin_map Sum.inl_injective _ a b
  unfold renderWide render
  rw [hedits, List.flatMap_map]
  congr 1
  funext e
  cases e with
  | keep t => exact congrArg Edit.render (congrArg Edit.keep (hletters t))
  | change removed added => exact congrArg Edit.render (congrArg₂ Edit.change (hletters removed) (hletters added))

/-! ## Main result -/

/-- **What is displayed tells both texts.** For all texts without escape characters, the display without what is
    on green and without the marks of red is the first text, and the display without what is on red and
    without the marks of green is the second one. There is one way to split the texts around longest stretches,
    and its edits are what is displayed. -/
theorem render_tells {a b : Text} (ha : Ansi.escapeChar ∉ a) (hb : Ansi.escapeChar ∉ b) :
    Ansi.unmarked .redGround (Ansi.outside .greenGround (render a b)) = a ∧
      Ansi.unmarked .greenGround (Ansi.outside .redGround (render a b)) = b ∧
      (∀ es, Splits a b es ↔ es = edits a b) ∧ ∀ es, Splits a b es → render a b = es.flatMap Edit.render := by
  have hbefore : before (edits a b) = a := before_editsWithin _ a b
  have hafter : after (edits a b) = b := after_editsWithin _ a b
  have hplain : ∀ e ∈ edits a b, e.Plain := plain_of_before_after (hbefore.symm ▸ ha) (hafter.symm ▸ hb)
  have hunique : ∀ es, Splits a b es → es = edits a b := fun es h => h.unique (splits_edits a b)
  refine ⟨?_, ?_, fun es => ⟨hunique es, fun h => h ▸ splits_edits a b⟩, fun es h => by rw [hunique es h, render]⟩
  · rw [render, outside_render_green hplain, unmarked_shown hplain fun _ _ h => h.1, ← before_eq, hbefore]
  · rw [render, outside_render_red hplain, unmarked_shown hplain fun _ _ h => h.2, ← after_eq, hafter]

/-- Two words with a stretch of three characters in common, and a character before and behind it. -/
theorem render_tells_example :
    Ansi.escapeChar ∉ "kitten".toList ∧ Ansi.escapeChar ∉ "sitting".toList ∧
      Ansi.unmarked .redGround (Ansi.outside .greenGround (render "kitten" "sitting")) = "kitten".toList ∧
      Ansi.unmarked .greenGround (Ansi.outside .redGround (render "kitten" "sitting")) = "sitting".toList ∧
      (∀ es, Splits "kitten" "sitting" es ↔ es = edits "kitten".toList "sitting".toList) ∧
      ∀ es, Splits "kitten" "sitting" es → render "kitten" "sitting" = es.flatMap Edit.render := by
  have ha : Ansi.escapeChar ∉ "kitten".toList := by decide
  have hb : Ansi.escapeChar ∉ "sitting".toList := by decide
  exact ⟨ha, hb, render_tells ha hb⟩

end Difference

end HttpFile
