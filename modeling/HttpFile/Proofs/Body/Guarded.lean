import HttpFile.Proofs.Body.Scan
import HttpFile.Proofs.Json.Reads

/-!
# `HttpFile.Proofs.Body.Guarded` — reading a body with names for its placeholders

A body says JSON with placeholders exactly if the guarded body says it with a string for each of them. One way
always holds: the scan agrees with the grammar about what is in quotes. Back it holds unless a placeholder stands
right behind a backslash, where the quote in front of its name is escaped.

## Contents
- **Placeholders as holes.** `atoms`, `labelled`; `atoms_eq`, `braced_atoms`.
- **Lexemes.** `skipBlanks_guarded`, `scalar?_guarded`, `guarded_string`.
- **There.** `reads_guarded`, `denotes_guarded`.
- **Back.** `Escaping`, `quote_opens_name`, `reads_of_guarded`, `denotes_of_guarded`.
-/

namespace HttpFile.Body

open Text Json Template

variable {α : Type}

/-! ## Placeholders as holes -/

/-- A placeholder at the start of a text, and what is behind it. -/
def atoms (t : Text) : Option (Text × Text) := (placeholder? t).map fun token => (token, t.drop token.length)

/-- A placeholder at the start of a text, with the number of those behind it. -/
def labelled (t : Text) : Option ((Nat × Text) × Text) :=
  (atoms t).map fun (token, r) => (((labels r).length, token), r)

theorem atoms_iff {t token r : Text} : atoms t = some (token, r) ↔ IsToken token ∧ t = token ++ r := by
  unfold atoms
  constructor
  · intro h
    obtain ⟨token', hp, heq⟩ := Option.map_eq_some_iff.mp h
    injection heq with htoken hr
    subst htoken
    obtain ⟨htoken, r', rfl⟩ := placeholder?_iff.mp hp
    rw [List.drop_left] at hr
    exact ⟨htoken, by rw [hr]⟩
  · rintro ⟨htoken, rfl⟩
    rw [placeholder?_token htoken, Option.map_some, List.drop_left]

theorem labelled_iff {t r : Text} {a : Nat × Text} :
    labelled t = some (a, r) ↔ IsToken a.2 ∧ t = a.2 ++ r ∧ a.1 = (labels r).length := by
  unfold labelled
  rw [Option.map_eq_some_iff]
  constructor
  · rintro ⟨⟨token, r'⟩, h, heq⟩
    injection heq with ha hr
    subst ha hr
    obtain ⟨htoken, rfl⟩ := atoms_iff.mp h
    exact ⟨htoken, rfl, rfl⟩
  · rintro ⟨htoken, rfl, hnumber⟩
    refine ⟨(a.2, r), atoms_iff.mpr ⟨htoken, rfl⟩, ?_⟩
    show (((labels r).length, a.2), r) = _
    rw [← hnumber]

theorem atoms_eq : atoms = renamed labelled Prod.snd := by
  funext t
  unfold renamed labelled
  cases atoms t <;> rfl

theorem braced_atoms : Braced atoms where
  opens := by
    intro t token r h
    obtain ⟨⟨u, -, rfl⟩, rfl⟩ := atoms_iff.mp h
    exact ⟨_, rfl⟩
  only := by
    intro t token r h
    obtain ⟨⟨u, -, rfl⟩, rfl⟩ := atoms_iff.mp h
    rw [Option.eq_none_iff_forall_ne_some]
    rintro ⟨token', r'⟩ h'
    obtain ⟨⟨u', hu', rfl⟩, heq⟩ := atoms_iff.mp h'
    -- the third brace would stand inside the placeholder
    have hthird := (List.cons.inj (List.cons.inj heq).2).2
    cases u' with
    | nil => cases hthird
    | cons c u' =>
        have hc := hu' c List.mem_cons_self
        rw [← (List.cons.inj hthird).1] at hc
        exact absurd hc (by decide)

theorem atoms_eq_none {t : Text} : atoms t = none ↔ placeholder? t = none := Option.map_eq_none_iff

theorem labelled_eq_none {t : Text} : labelled t = none ↔ placeholder? t = none :=
  Option.map_eq_none_iff.trans atoms_eq_none

theorem atoms_of_labelled {t r : Text} {a : Nat × Text} (h : labelled t = some (a, r)) :
    atoms t = some (a.2, r) := by
  obtain ⟨htoken, ht, -⟩ := labelled_iff.mp h
  exact atoms_iff.mpr ⟨htoken, ht⟩

theorem braced_labelled : Braced labelled where
  opens _ _ _ h := braced_atoms.opens _ _ _ (atoms_of_labelled h)
  only _ _ _ h := labelled_eq_none.mpr (atoms_eq_none.mp (braced_atoms.only _ _ _ (atoms_of_labelled h)))

/-- The names for placeholders are words that start with an underscore. -/
def Naming (name : Nat × Text → Text) : Prop :=
  ∀ a, (∀ c ∈ name a, isNameChar c = true) ∧ ∃ u, name a = '_' :: u

/-- A name is spelled as it is. -/
theorem spells_name {t : Text} (h : ∀ c ∈ t, isNameChar c = true) : Spells t (letters t) := by
  refine spells_plain fun c hc => ⟨?_, ?_, toNat_of_isNameChar (h c hc)⟩
  · rintro rfl
    exact absurd (h _ hc) (by decide)
  · rintro rfl
    exact absurd (h _ hc) (by decide)

/-! ## Lexemes -/

section
variable (name : Nat × Text → Text)

theorem isSpace_plain {c : Char} (h : isSpace c = true) : c ≠ '{' ∧ c ≠ '"' := by
  constructor <;> rintro rfl <;> exact absurd h (by decide)

theorem isScalarChar_plain {c : Char} (h : isScalarChar c = true) : c ≠ '{' ∧ c ≠ '"' := by
  constructor <;> rintro rfl <;> exact absurd h (by decide)

theorem skipBlanks_guarded (t : Text) : skipBlanks (guarded name t) = guarded name (skipBlanks t) := by
  have hsplit := List.takeWhile_append_dropWhile (p := isSpace) (l := t)
  have hblank : ∀ c ∈ t.takeWhile isSpace, isSpace c = true := fun c hc => List.mem_takeWhile_imp hc
  have hstart : guarded name t = t.takeWhile isSpace ++ guarded name (skipBlanks t) := by
    rw [← guarded_append name fun c hc => isSpace_plain (hblank c hc)]
    exact congrArg (guarded name) hsplit.symm
  rw [hstart]
  show ((t.takeWhile isSpace) ++ _).dropWhile isSpace = _
  rw [List.dropWhile_append_of_pos hblank]
  cases hd : skipBlanks t with
  | nil => rfl
  | cons c u =>
      have hc : isSpace c = false := dropWhile_cons_stop (p := isSpace) hd
      rcases guarded_cons name c u with ⟨g, hg, -⟩ | ⟨-, -, hg⟩
      · rw [hg]
        rfl
      · rw [hg]
        exact List.dropWhile_cons_of_neg (by simp [hc])

theorem labels_skipBlanks (t : Text) : labels (skipBlanks t) = labels t := by
  have hsplit := List.takeWhile_append_dropWhile (p := isSpace) (l := t)
  have happend := labels_append (t := skipBlanks t) (u := t.takeWhile isSpace)
    fun c hc => isSpace_plain (List.mem_takeWhile_imp hc)
  rw [← happend]
  exact congrArg labels hsplit

theorem quits_guarded {t : Text} (h : Quits t) : Quits (guarded name t) := by
  cases t with
  | nil => exact h
  | cons c t =>
      rcases guarded_cons name c t with ⟨g, hg, -⟩ | ⟨-, -, hg⟩
      · rw [hg]
        exact quits_cons.mpr (by decide)
      · rw [hg]
        exact quits_cons.mpr (quits_cons.mp h)

/-- A scalar reads the same in a guarded text. -/
theorem scalar?_guarded (t : Text) :
    scalar? (guarded name t) = (scalar? t).map fun (v, r) => (v, guarded name r) := by
  have hsplit := List.takeWhile_append_dropWhile (p := isScalarChar) (l := t)
  have hrun : ∀ c ∈ t.takeWhile isScalarChar, isScalarChar c = true := fun c hc => List.mem_takeWhile_imp hc
  have hquits := quits_dropWhile t
  obtain ⟨p, hp⟩ : ∃ p, t.takeWhile isScalarChar = p := ⟨_, rfl⟩
  obtain ⟨q, hq⟩ : ∃ q, t.dropWhile isScalarChar = q := ⟨_, rfl⟩
  rw [hp, hq] at hsplit
  rw [hp] at hrun
  rw [hq] at hquits
  rw [← hsplit, guarded_append name fun c hc => isScalarChar_plain (hrun c hc), scalar?_append hquits,
    scalar?_append (quits_guarded name hquits), Option.map_map]
  cases hs : scalar? p with
  | none => rfl
  | some found =>
      obtain ⟨v, r⟩ := found
      obtain ⟨⟨u, rfl, -⟩, -, -⟩ := scalar?_spec hs
      have hr : ∀ c ∈ r, isScalarChar c = true := fun c hc => hrun c (List.mem_append_right u hc)
      show some (v, r ++ guarded name q) = some (v, guarded name (r ++ q))
      rw [guarded_append name fun c hc => isScalarChar_plain (hr c hc)]

theorem labels_scalar {t r : Text} {v : Value} (h : scalar? t = some (v, r)) : labels t = labels r := by
  obtain ⟨⟨u, rfl, hu⟩, -, -⟩ := scalar?_spec h
  exact labels_append fun c hc => isScalarChar_plain (hu c hc)

/-- A quote that is not escaped is in no spelling. -/
theorem spells_cons_ne {c : Char} {w : Text} {s : Wide} (h : Spells (c :: w) s) : c ≠ '"' := by
  rintro rfl
  cases h with
  | plain hquote => exact hquote rfl

/-- A string that no third quote follows is passed over as a whole. -/
theorem guarded_string {w r : Text} {s : Wide} (hw : Spells w s) (hr : r.head? ≠ some '"') :
    guarded name ('"' :: (w ++ '"' :: r)) = '"' :: (w ++ '"' :: guarded name r) ∧
      labels ('"' :: (w ++ '"' :: r)) = labels r := by
  have htriple : ∀ u, w ++ '"' :: r ≠ '"' :: '"' :: u := by
    intro u hu
    cases w with
    | nil => exact hr (by rw [(List.cons.inj hu).2]; rfl)
    | cons c w => exact spells_cons_ne hw (List.cons.inj hu).1
  have hrun := quotedRun?_single htriple (throughQuote?_spelled hw r)
  have hsplit : '"' :: (w ++ '"' :: r) = ('"' :: (w ++ ['"'])) ++ r := by simp
  refine ⟨?_, labels_run hrun hsplit⟩
  rw [guarded_run name hrun hsplit]
  simp

end

/-! ## There -/

section
variable {t u v r : Text} {c : Char}

theorem head_ne_of_skipBlanks (h : skipBlanks u = c :: v) (hc : c ≠ '"') : u.head? ≠ some '"' := by
  intro hu
  obtain ⟨u', rfl⟩ := List.head?_eq_some_iff.mp hu
  exact hc (List.cons.inj h).1.symm

theorem guarded_behind (name : Nat × Text → Text) (h : skipBlanks u = c :: v) (hbrace : c ≠ '{') (hquote : c ≠ '"') :
    skipBlanks (guarded name u) = c :: guarded name v := by
  rw [skipBlanks_guarded, h, guarded_plain name hbrace hquote]

theorem labels_behind (h : skipBlanks u = c :: v) (hbrace : c ≠ '{') (hquote : c ≠ '"') : labels u = labels v := by
  rw [← labels_skipBlanks, h, labels_plain hbrace hquote]

end

/-- The holes and the texts of a part. -/
def leavesOf : Json.Part α → List (α ⊕ Wide)
  | .value d => d.leaves
  | .items ds => leavesItems ds
  | .entries es => leavesEntries es

/-- The holes of a part. -/
def holesOf (p : Json.Part α) : List α := (leavesOf p).filterMap Sum.getLeft?

theorem holesOf_entries (k : Key α) (d : Template α) (es : List (Key α × Template α)) :
    holesOf (.entries ((k, d) :: es)) =
      [k.leaf].filterMap Sum.getLeft? ++ (holesOf (.value d) ++ holesOf (.entries es)) := by
  unfold holesOf
  rw [← List.filterMap_append, ← List.filterMap_append]
  rfl

/-- A name is put for a placeholder as a string. -/
def named (name : Nat × Text → Text) (a : Nat × Text) : Wide ⊕ Empty := .inl (letters (name a))

section
variable {name : Nat × Text → Text} (hname : Naming name)
include hname

theorem readsKey_guarded {k : Key (Nat × Text)} {t r : Text} (h : ReadsKey labelled k t r)
    (hr : r.head? ≠ some '"') :
    ReadsKey unholed (k.exchange (named name)) (guarded name t) (guarded name r) ∧
      labels t = [k.leaf].filterMap Sum.getLeft? ++ labels r := by
  cases h with
  | @hole a _ _ h =>
      obtain ⟨htoken, rfl, hnumber⟩ := labelled_iff.mp h
      rw [guarded_token name htoken, labels_token htoken, ← hnumber]
      exact ⟨.text _ (spells_name (hname a).1), rfl⟩
  | text r hw =>
      obtain ⟨hguarded, hlabels⟩ := guarded_string name hw hr
      rw [hguarded, hlabels]
      exact ⟨.text _ hw, rfl⟩

/-- **What a body says with placeholders the guarded body says with names for them**, and the placeholders of the
    body are the holes, in order. -/
theorem reads_guarded {p : Json.Part (Nat × Text)} {t r : Text} (h : Reads labelled p t r) (hr : r.head? ≠ some '"') :
    Reads unholed (p.exchange (named name)) (guarded name t) (guarded name r) ∧
      labels t = holesOf p ++ labels r := by
  -- each case reads its own lexeme in the guarded text and counts the placeholders that it holds
  induction h with
  | @hole a _ _ h =>
      obtain ⟨htoken, rfl, hnumber⟩ := labelled_iff.mp h
      rw [guarded_token name htoken, labels_token htoken, ← hnumber]
      exact ⟨.text _ (spells_name (hname a).1), rfl⟩
  | text r hw =>
      obtain ⟨hguarded, hlabels⟩ := guarded_string name hw hr
      rw [hguarded, hlabels]
      exact ⟨.text _ hw, rfl⟩
  | @scalar s t r h =>
      refine ⟨.scalar ?_, labels_scalar h⟩
      rw [scalar?_guarded, h]
      rfl
  | @emptyList t r hclose =>
      rw [guarded_plain name (by decide) (by decide), labels_plain (by decide) (by decide)]
      exact ⟨.emptyList (guarded_behind name hclose (by decide) (by decide)),
        labels_behind hclose (by decide) (by decide)⟩
  | @list ds t r h ih =>
      obtain ⟨hread, hlabels⟩ := ih hr
      rw [guarded_plain name (by decide) (by decide), labels_plain (by decide) (by decide)]
      rw [← skipBlanks_guarded] at hread
      rw [labels_skipBlanks] at hlabels
      exact ⟨.list hread, hlabels⟩
  | @emptyDict t r hclose =>
      have hp := labelled_eq_none.mp (braced_labelled.none_of_skip (by decide) hclose)
      have hq : quotedRun? ('{' :: t) = none := quotedRun?_ne (by decide) t
      rw [guarded_char name hp hq, labels_char hp hq]
      exact ⟨.emptyDict (guarded_behind name hclose (by decide) (by decide)),
        labels_behind hclose (by decide) (by decide)⟩
  | @dict es t r h ih =>
      obtain ⟨hread, hlabels⟩ := ih hr
      have hp := labelled_eq_none.mp (braced_labelled.none_of_entries h)
      have hq : quotedRun? ('{' :: t) = none := quotedRun?_ne (by decide) t
      rw [guarded_char name hp hq, labels_char hp hq]
      rw [← skipBlanks_guarded] at hread
      rw [labels_skipBlanks] at hlabels
      exact ⟨.dict hread, hlabels⟩
  | @lastItem d t u r h hclose ih =>
      obtain ⟨hread, hlabels⟩ := ih (head_ne_of_skipBlanks hclose (by decide))
      refine ⟨.lastItem hread (guarded_behind name hclose (by decide) (by decide)), ?_⟩
      rw [hlabels, labels_behind hclose (by decide) (by decide)]
      simp [holesOf, leavesOf, leavesItems]
  | @item d ds t u v r h hcomma hmore ih ihmore =>
      obtain ⟨hread, hlabels⟩ := ih (head_ne_of_skipBlanks hcomma (by decide))
      obtain ⟨hreadmore, hlabelsmore⟩ := ihmore hr
      rw [← skipBlanks_guarded] at hreadmore
      rw [labels_skipBlanks] at hlabelsmore
      refine ⟨.item hread (guarded_behind name hcomma (by decide) (by decide)) hreadmore, ?_⟩
      rw [hlabels, labels_behind hcomma (by decide) (by decide), hlabelsmore]
      simp [holesOf, leavesOf, leavesItems]
  | @lastEntry k d t u v x r hkey hcolon h hclose ih =>
      obtain ⟨hreadkey, hlabelskey⟩ := readsKey_guarded hname hkey (head_ne_of_skipBlanks hcolon (by decide))
      obtain ⟨hread, hlabels⟩ := ih (head_ne_of_skipBlanks hclose (by decide))
      rw [← skipBlanks_guarded] at hread
      rw [labels_skipBlanks] at hlabels
      refine ⟨.lastEntry hreadkey (guarded_behind name hcolon (by decide) (by decide)) hread
        (guarded_behind name hclose (by decide) (by decide)), ?_⟩
      rw [hlabelskey, labels_behind hcolon (by decide) (by decide), hlabels,
        labels_behind hclose (by decide) (by decide)]
      rw [holesOf_entries, List.append_assoc, List.append_assoc]
      rfl
  | @entry k d es t u v x y r hkey hcolon h hcomma hmore ih ihmore =>
      obtain ⟨hreadkey, hlabelskey⟩ := readsKey_guarded hname hkey (head_ne_of_skipBlanks hcolon (by decide))
      obtain ⟨hread, hlabels⟩ := ih (head_ne_of_skipBlanks hcomma (by decide))
      obtain ⟨hreadmore, hlabelsmore⟩ := ihmore hr
      rw [← skipBlanks_guarded] at hread hreadmore
      rw [labels_skipBlanks] at hlabels hlabelsmore
      refine ⟨.entry hreadkey (guarded_behind name hcolon (by decide) (by decide)) hread
        (guarded_behind name hcomma (by decide) (by decide)) hreadmore, ?_⟩
      rw [hlabelskey, labels_behind hcolon (by decide) (by decide), hlabels,
        labels_behind hcomma (by decide) (by decide), hlabelsmore, holesOf_entries, List.append_assoc,
        List.append_assoc]

theorem denotes_guarded {d : Template (Nat × Text)} {t : Text} (h : Denotes labelled t d) :
    Denotes unholed (guarded name t) (d.plain name) ∧ labels t = d.holes := by
  obtain ⟨r, hread, hend⟩ := h
  have hr : r.head? ≠ some '"' := by
    intro hr
    obtain ⟨u, rfl⟩ := List.head?_eq_some_iff.mp hr
    cases hend
  obtain ⟨hguarded, hlabels⟩ := reads_guarded hname hread hr
  have hnone : labels r = [] := by
    rw [← labels_skipBlanks, hend]
    rfl
  refine ⟨⟨guarded name r, ?_, ?_⟩, ?_⟩
  · rw [skipBlanks_guarded]
    exact hguarded
  · rw [skipBlanks_guarded, hend]
    rfl
  · rw [labels_skipBlanks, hnone, List.append_nil] at hlabels
    exact hlabels

end

/-! ## Back -/

/-- A placeholder right behind a backslash. -/
def Escaping (t : Text) : Prop := ['\\', '{', '{'] <:+: t

/-- What stands behind a string that guarding has cut short: a name, or a third quote. -/
def Stuck (r : Text) : Prop := ∃ c u, r = c :: u ∧ (c = '_' ∨ c = '"')

/-- A body says the part that was read in the guarded body, up to the same place. -/
def Aligned (name : Nat × Text → Text) (t : Text) (p' : Json.Part Empty) (r' : Text) : Prop :=
  ∃ p r, Reads labelled p t r ∧ r <:+ t ∧ r' = guarded name r ∧ p' = p.exchange (named name)

/-- What is read up to a separator or a bracket is not stuck. -/
theorem not_stuck {u v : Text} {c : Char} (h : skipBlanks u = c :: v) (hline : c ≠ '_') (hquote : c ≠ '"') :
    ¬Stuck u := by
  rintro ⟨d, x, rfl, rfl | rfl⟩
  · exact hline (List.cons.inj h).1.symm
  · exact hquote (List.cons.inj h).1.symm

theorem Escaping.of_suffix {r t : Text} (h : r <:+ t) (hfree : ¬Escaping t) : ¬Escaping r := fun hin =>
  hfree (hin.trans h.isInfix)

theorem skipBlanks_suffix (t : Text) : skipBlanks t <:+ t := List.dropWhile_suffix _

/-- What stands behind blanks in a guarded text stands behind blanks in the text. -/
theorem behind_of_guarded {name : Nat × Text → Text} {u v' : Text} {c : Char} (hc : c ≠ '"')
    (h : skipBlanks (guarded name u) = c :: v') : ∃ v, skipBlanks u = c :: v ∧ v <:+ u ∧ v' = guarded name v := by
  rw [skipBlanks_guarded] at h
  obtain ⟨v, hv, -, rfl⟩ := guarded_inv name hc h
  exact ⟨v, hv, (List.suffix_cons c v).trans (hv ▸ skipBlanks_suffix u), rfl⟩

section
variable {name : Nat × Text → Text} (hname : Naming name)
include hname

/-- **Where a string does not end, the next quote that guarding brings in is the one in front of a name.** -/
theorem quote_opens_name {t run : Text} (h : throughQuote? t = none) (hfree : ¬Escaping t)
    (hrun : throughQuote? (guarded name t) = some run) :
    ∃ u y, run = u ++ ['"'] ∧ guarded name t = u ++ '"' :: '_' :: y := by
  induction hn : t.length using Nat.strongRecOn generalizing t run with
  | ind n ih =>
      subst hn
      -- what is passed over is the same in both texts, so the claim is that of the shorter rest
      have hbehind : ∀ {u v : Text}, t = u ++ v → u ≠ [] → Passed u → guarded name t = u ++ guarded name v →
          ∃ u y, run = u ++ ['"'] ∧ guarded name t = u ++ '"' :: '_' :: y := by
        rintro u v rfl hu hpassed hguarded
        rw [hpassed, Option.map_eq_none_iff] at h
        rw [hguarded, hpassed] at hrun
        obtain ⟨run', hrun', rfl⟩ := Option.map_eq_some_iff.mp hrun
        have hshort : v.length < (u ++ v).length := by
          rw [List.length_append]
          exact Nat.lt_add_of_pos_left (List.length_pos_iff.mpr hu)
        obtain ⟨w, y, rfl, hw⟩ := ih _ hshort h (fun hin => hfree (hin.trans (List.suffix_append u v).isInfix)) hrun' rfl
        exact ⟨u ++ w, y, by simp, by rw [hguarded, hw]; simp⟩
      unfold throughQuote? at h
      split at h
      · -- the cases are those of the scan: the end, a quote, a newline, a lone backslash, an
        -- escape, a plain character
        rw [guarded_nil] at hrun
        cases hrun
      · cases h
      · rw [guarded_plain name (by decide) (by decide)] at hrun
        cases hrun
      · rw [guarded_plain name (by decide) (by decide)] at hrun
        cases hrun
      · next c rest =>
          have hstart : guarded name ('\\' :: c :: rest) = '\\' :: guarded name (c :: rest) :=
            guarded_plain name (by decide) (by decide) _
          by_cases hline : c = '\n'
          · subst hline
            rw [hstart, guarded_plain name (by decide) (by decide)] at hrun
            cases hrun
          rw [if_neg hline, Option.map_eq_none_iff] at h
          cases hp : placeholder? (c :: rest) with
          | some token =>
              obtain ⟨⟨x, -, rfl⟩, r, hr⟩ := placeholder?_iff.mp hp
              -- the name's quote would be escaped; this is what the hypothesis excludes
              exact absurd ⟨[], x ++ ['}', '}'] ++ r, by rw [hr]; simp⟩ hfree
          | none =>
              -- a run that starts here would end the string
              have hquoted : quotedRun? (c :: rest) = none := by
                rw [Option.eq_none_iff_forall_ne_some]
                intro run' hrun'
                by_cases hc : c = '"'
                · subst hc
                  rcases quotedRun?_cases hrun' with ⟨x, r, -, rfl⟩ | ⟨x, hx, -⟩
                  · cases h
                  · rw [h] at hx
                    cases hx
                · rw [quotedRun?_ne hc] at hrun'
                  cases hrun'
              exact hbehind (u := ['\\', c]) rfl (List.cons_ne_nil _ _) (Passed.escape hline)
                (by rw [hstart, guarded_char name hp hquoted]; rfl)
      · next c rest hquote hline hescape hescape' =>
          have hc : Passed [c] := by
            refine Passed.singleton hquote hline fun he => ?_
            cases hrest : rest with
            | nil => exact hescape he hrest
            | cons d v => exact hescape' d v he hrest
          cases hp : placeholder? (c :: rest) with
          | some token =>
              -- the quote that ends the run is the first character that guarding puts here
              obtain ⟨htoken, r, hr⟩ := placeholder?_iff.mp hp
              rw [hr, guarded_token name htoken] at hrun ⊢
              obtain ⟨y, hy⟩ := (hname ((labels r).length, token)).2
              injection hrun with hrun
              exact ⟨[], y ++ '"' :: guarded name r, hrun.symm, by rw [hy]; rfl⟩
          | none =>
              exact hbehind (u := [c]) rfl (List.cons_ne_nil _ _) hc (guarded_char name hp (quotedRun?_ne hquote rest))

theorem string_of_guarded {t w r' : Text} {s : Wide} (hw : Spells w s) (hfree : ¬Escaping t)
    (h : guarded name t = '"' :: (w ++ '"' :: r')) :
    (∃ token r, IsToken token ∧ t = token ++ r ∧ s = letters (name ((labels r).length, token)) ∧ r' = guarded name r) ∨
      (∃ r, t = '"' :: (w ++ '"' :: r) ∧ r' = guarded name r) ∨ Stuck r' := by
  cases t with
  | nil => cases h
  | cons c t =>
      cases hp : placeholder? (c :: t) with
      | some token =>
          obtain ⟨htoken, r, hr⟩ := placeholder?_iff.mp hp
          rw [hr, guarded_token name htoken] at h
          obtain ⟨-, hs, hbehind⟩ := (spells_name (hname _).1).unique hw (List.cons.inj h).2
          exact Or.inl ⟨token, r, htoken, hr, hs.symm, hbehind.symm⟩
      | none =>
          refine Or.inr ?_
          have hc : c = '"' := by
            rcases guarded_cons name c t with ⟨g, hg, rfl | rfl⟩ | ⟨hne, -, hg⟩
            · rfl
            · rw [guarded_char name hp (quotedRun?_ne (by decide) t)] at h
              cases h
            · rw [hg] at h
              exact (List.cons.inj h).1
          subst hc
          cases hq : quotedRun? ('"' :: t) with
          | some run =>
              rcases quotedRun?_cases hq with ⟨x, r, rfl, rfl⟩ | ⟨x, hx, rfl⟩
              · -- in three quotes the first two are a string
                rw [guarded_run name hq (r := r) rfl] at h
                have hempty : w = [] := by
                  cases w with
                  | nil => rfl
                  | cons d w => exact absurd (List.cons.inj (List.cons.inj h).2).1.symm (spells_cons_ne hw)
                subst hempty
                exact Or.inr ⟨'"', x ++ guarded name r, (List.cons.inj (List.cons.inj h).2).2.symm, Or.inr rfl⟩
              · obtain ⟨u, r, rfl, rfl, hspec⟩ := throughQuote?_spec hx
                rw [guarded_run name hq (r := r) (by simp), List.cons_append, List.append_assoc,
                  List.singleton_append] at h
                have hsame : u ++ '"' :: guarded name r = w ++ '"' :: r' := (List.cons.inj h).2
                have hrun := hspec (guarded name r)
                rw [hsame, throughQuote?_spelled hw] at hrun
                obtain rfl : w = u := List.append_cancel_right (Option.some.inj hrun)
                refine Or.inl ⟨r, rfl, ?_⟩
                exact (List.cons.inj (List.append_cancel_left hsame)).2.symm
          | none =>
              -- the quote is the body's own and its string does not end, so a name's quote ends it
              rw [guarded_char name hp hq] at h
              have hrest := (List.cons.inj h).2
              have hfree' : ¬Escaping t := fun hin => hfree (hin.trans (List.suffix_cons '"' t).isInfix)
              obtain ⟨u, y, hrun, hu⟩ := quote_opens_name hname (throughQuote?_of_quotedRun?_none hq) hfree'
                (by rw [hrest]; exact throughQuote?_spelled hw r')
              obtain rfl : w = u := List.append_cancel_right hrun
              rw [hrest] at hu
              exact Or.inr ⟨'_', y, (List.cons.inj (List.append_cancel_left hu)).2, Or.inl rfl⟩

theorem readsKey_of_guarded {k' : Key Empty} {t g r' : Text} (h : ReadsKey unholed k' g r')
    (hg : g = guarded name t) (hfree : ¬Escaping t) :
    (∃ k r, ReadsKey labelled k t r ∧ r <:+ t ∧ r' = guarded name r ∧ k' = k.exchange (named name)) ∨ Stuck r' := by
  cases h with
  | hole h => cases h
  | @text w s r' hw =>
      rcases string_of_guarded hname hw hfree hg.symm with ⟨token, r, htoken, rfl, rfl, rfl⟩ | ⟨r, rfl, rfl⟩ | hstuck
      · exact Or.inl ⟨.hole _, r, .hole (labelled_iff.mpr ⟨htoken, rfl, rfl⟩), List.suffix_append _ r, rfl, rfl⟩
      · exact Or.inl ⟨.text _, r, .text r hw, ⟨'"' :: (w ++ ['"']), by simp⟩, rfl, rfl⟩
      · exact Or.inr hstuck

/-- **What the guarded body says the body says with placeholders**, or what was read is stuck. -/
theorem reads_of_guarded {p' : Json.Part Empty} {g r' : Text} (h : Reads unholed p' g r') {t : Text}
    (hg : g = guarded name t) (hfree : ¬Escaping t) : Aligned name t p' r' ∨ Stuck r' := by
  -- by induction on the reading of the guarded body; `behind_of_guarded` finds each separator in
  -- the body itself, and as nothing stuck is in front of one, only a string at the very end can be
  induction h generalizing t with
  | hole h => cases h
  | @text w s r' hw =>
      rcases string_of_guarded hname hw hfree hg.symm with ⟨token, r, htoken, rfl, rfl, rfl⟩ | ⟨r, rfl, rfl⟩ | hstuck
      · exact Or.inl ⟨.value (.hole _), r, .hole (labelled_iff.mpr ⟨htoken, rfl, rfl⟩), List.suffix_append _ r, rfl,
          rfl⟩
      · exact Or.inl ⟨.value (.text _), r, .text r hw, ⟨'"' :: (w ++ ['"']), by simp⟩, rfl, rfl⟩
      · exact Or.inr hstuck
  | @scalar s g r' h =>
      rw [hg, scalar?_guarded] at h
      obtain ⟨⟨v, r⟩, hs, heq⟩ := Option.map_eq_some_iff.mp h
      injection heq with hv hr
      subst hv
      obtain ⟨⟨u, rfl, -⟩, -, -⟩ := scalar?_spec hs
      exact Or.inl ⟨.value (.scalar s), r, .scalar hs, List.suffix_append u r, hr.symm, rfl⟩
  | @emptyList g r' hclose =>
      obtain ⟨t, rfl, -, rfl⟩ := guarded_inv name (by decide) hg.symm
      obtain ⟨r, hr, hsuffix, rfl⟩ := behind_of_guarded (by decide) hclose
      exact Or.inl ⟨.value (.list []), r, .emptyList hr, hsuffix.trans (List.suffix_cons _ t), rfl, rfl⟩
  | @list ds' g r' h ih =>
      obtain ⟨t, rfl, -, rfl⟩ := guarded_inv name (by decide) hg.symm
      have hsuffix := (skipBlanks_suffix t).trans (List.suffix_cons '[' t)
      refine (ih (skipBlanks_guarded name t) (Escaping.of_suffix hsuffix hfree)).imp_left ?_
      rintro ⟨p, r, hread, hr, rfl, hp⟩
      obtain ⟨ds, rfl, rfl⟩ := Part.exchange_eq_items hp.symm
      exact ⟨.value (.list ds), r, .list hread, hr.trans hsuffix, rfl, rfl⟩
  | @emptyDict g r' hclose =>
      obtain ⟨t, rfl, -, rfl⟩ := guarded_inv name (by decide) hg.symm
      obtain ⟨r, hr, hsuffix, rfl⟩ := behind_of_guarded (by decide) hclose
      exact Or.inl ⟨.value (.dict []), r, .emptyDict hr, hsuffix.trans (List.suffix_cons _ t), rfl, rfl⟩
  | @dict es' g r' h ih =>
      obtain ⟨t, rfl, -, rfl⟩ := guarded_inv name (by decide) hg.symm
      have hsuffix := (skipBlanks_suffix t).trans (List.suffix_cons '{' t)
      refine (ih (skipBlanks_guarded name t) (Escaping.of_suffix hsuffix hfree)).imp_left ?_
      rintro ⟨p, r, hread, hr, rfl, hp⟩
      obtain ⟨es, rfl, rfl⟩ := Part.exchange_eq_entries hp.symm
      exact ⟨.value (.dict es), r, .dict hread, hr.trans hsuffix, rfl, rfl⟩
  | @lastItem d' g u' r' h hclose ih =>
      obtain ⟨p, u, hread, hu, rfl, hp⟩ := (ih hg hfree).resolve_right (not_stuck hclose (by decide) (by decide))
      obtain ⟨d, rfl, rfl⟩ := Part.exchange_eq_value hp.symm
      obtain ⟨r, hr, hsuffix, rfl⟩ := behind_of_guarded (by decide) hclose
      exact Or.inl ⟨.items [d], r, .lastItem hread hr, hsuffix.trans hu, rfl, rfl⟩
  | @item d' ds' g u' v' r' h hcomma hmore ih ihmore =>
      obtain ⟨p, u, hread, hu, rfl, hp⟩ := (ih hg hfree).resolve_right (not_stuck hcomma (by decide) (by decide))
      obtain ⟨d, rfl, rfl⟩ := Part.exchange_eq_value hp.symm
      obtain ⟨v, hv, hsuffix, rfl⟩ := behind_of_guarded (by decide) hcomma
      have hskip := (skipBlanks_suffix v).trans (hsuffix.trans hu)
      refine (ihmore (skipBlanks_guarded name v) (Escaping.of_suffix hskip hfree)).imp_left ?_
      rintro ⟨q, r, hreadmore, hr, rfl, hq⟩
      obtain ⟨ds, rfl, rfl⟩ := Part.exchange_eq_items hq.symm
      exact ⟨.items (d :: ds), r, .item hread hv hreadmore, hr.trans hskip, rfl, rfl⟩
  | @lastEntry k' d' g u' v' x' r' hkey hcolon h hclose ih =>
      obtain ⟨k, u, hreadkey, hu, rfl, rfl⟩ := (readsKey_of_guarded hname hkey hg hfree).resolve_right
        (not_stuck hcolon (by decide) (by decide))
      obtain ⟨v, hv, hsuffix, rfl⟩ := behind_of_guarded (by decide) hcolon
      have hskip := (skipBlanks_suffix v).trans (hsuffix.trans hu)
      obtain ⟨p, x, hread, hx, rfl, hp⟩ := (ih (skipBlanks_guarded name v)
        (Escaping.of_suffix hskip hfree)).resolve_right (not_stuck hclose (by decide) (by decide))
      obtain ⟨d, rfl, rfl⟩ := Part.exchange_eq_value hp.symm
      obtain ⟨r, hr, hend, rfl⟩ := behind_of_guarded (by decide) hclose
      exact Or.inl ⟨.entries [(k, d)], r, .lastEntry hreadkey hv hread hr, hend.trans (hx.trans hskip), rfl, rfl⟩
  | @entry k' d' es' g u' v' x' y' r' hkey hcolon h hcomma hmore ih ihmore =>
      obtain ⟨k, u, hreadkey, hu, rfl, rfl⟩ := (readsKey_of_guarded hname hkey hg hfree).resolve_right
        (not_stuck hcolon (by decide) (by decide))
      obtain ⟨v, hv, hsuffix, rfl⟩ := behind_of_guarded (by decide) hcolon
      have hskip := (skipBlanks_suffix v).trans (hsuffix.trans hu)
      obtain ⟨p, x, hread, hx, rfl, hp⟩ := (ih (skipBlanks_guarded name v)
        (Escaping.of_suffix hskip hfree)).resolve_right (not_stuck hcomma (by decide) (by decide))
      obtain ⟨d, rfl, rfl⟩ := Part.exchange_eq_value hp.symm
      obtain ⟨y, hy, hbehind, rfl⟩ := behind_of_guarded (by decide) hcomma
      have hskip' := (skipBlanks_suffix y).trans (hbehind.trans (hx.trans hskip))
      refine (ihmore (skipBlanks_guarded name y) (Escaping.of_suffix hskip' hfree)).imp_left ?_
      rintro ⟨q, r, hreadmore, hr, rfl, hq⟩
      obtain ⟨es, rfl, rfl⟩ := Part.exchange_eq_entries hq.symm
      exact ⟨.entries ((k, d) :: es), r, .entry hreadkey hv hread hy hreadmore, hr.trans hskip', rfl, rfl⟩

theorem denotes_of_guarded {d' : Template Empty} {t : Text} (h : Denotes unholed (guarded name t) d')
    (hfree : ¬Escaping t) : ∃ d, Denotes labelled t d ∧ d' = d.plain name := by
  obtain ⟨r', hread, hend⟩ := h
  have hsuffix := skipBlanks_suffix t
  rcases reads_of_guarded hname hread (skipBlanks_guarded name t) (Escaping.of_suffix hsuffix hfree) with
    ⟨p, r, hread', -, rfl, hp⟩ | ⟨c, u, rfl, rfl | rfl⟩
  · obtain ⟨d, rfl, rfl⟩ := Part.exchange_eq_value hp.symm
    rw [skipBlanks_guarded] at hend
    exact ⟨d, ⟨r, hread', guarded_ne_nil name hend⟩, rfl⟩
  · cases hend
  · cases hend

end

end HttpFile.Body
