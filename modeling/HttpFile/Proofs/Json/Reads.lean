import HttpFile.Proofs.Json.Spelling
import HttpFile.Proofs.Json.Template

/-!
# `HttpFile.Proofs.Json.Reads` — what a text says

What a text with holes says is a relation between the text, a template and the text behind it: one rule for each
way a value, an item or an entry may start. Where holes begin is left open. Without holes the relation is the
reader: the reader finds a template exactly if the text says it, and gives the data that it settles to.

## Contents
- **The relation.** `Part`, `ReadsKey`, `Reads`, `Denotes`.
- **Holes.** `Reads.map`, `Reads.lift`: other names for the holes.
- **The reader is sound.** `Sound`, `sound`.
- **Starts.** `isOpening`, `Reads.opens`.
- **The reader is complete.** `Runs`, `runs_of_reads`: the length of a text is fuel enough.
- **Texts.** `parse_iff`.
- **One template.** `Braced`, `Reads.only`, `Denotes.unique`: a text says one thing only.
-/

namespace HttpFile.Json

open Text Template

variable {α β : Type}

/-! ## The relation -/

/-- What is read: a value, or the items of a list or the entries of an object up to the closing bracket. -/
inductive Part (α : Type) where
  | value (d : Template α)
  | items (ds : List (Template α))
  | entries (es : List (Key α × Template α))

/-- The text starts with a key. -/
inductive ReadsKey (holes : Text → Option (α × Text)) : Key α → Text → Text → Prop
  | hole {a : α} {t r : Text} (h : holes t = some (a, r)) : ReadsKey holes (.hole a) t r
  | text {w : Text} {s : Wide} (r : Text) (h : Spells w s) : ReadsKey holes (.text s) ('"' :: (w ++ '"' :: r)) r

/-- The text starts with a part, and the second text is what is behind it. -/
inductive Reads (holes : Text → Option (α × Text)) : Part α → Text → Text → Prop
  | hole {a : α} {t r : Text} (h : holes t = some (a, r)) : Reads holes (.value (.hole a)) t r
  | text {w : Text} {s : Wide} (r : Text) (h : Spells w s) :
      Reads holes (.value (.text s)) ('"' :: (w ++ '"' :: r)) r
  | scalar {s : Scalar} {t r : Text} (h : scalar? t = some (s.val, r)) : Reads holes (.value (.scalar s)) t r
  | emptyList {t r : Text} (hclose : skipBlanks t = ']' :: r) : Reads holes (.value (.list [])) ('[' :: t) r
  | list {ds : List (Template α)} {t r : Text} (h : Reads holes (.items ds) (skipBlanks t) r) :
      Reads holes (.value (.list ds)) ('[' :: t) r
  | emptyDict {t r : Text} (hclose : skipBlanks t = '}' :: r) : Reads holes (.value (.dict [])) ('{' :: t) r
  | dict {es : List (Key α × Template α)} {t r : Text} (h : Reads holes (.entries es) (skipBlanks t) r) :
      Reads holes (.value (.dict es)) ('{' :: t) r
  | lastItem {d : Template α} {t u r : Text} (h : Reads holes (.value d) t u)
      (hclose : skipBlanks u = ']' :: r) : Reads holes (.items [d]) t r
  | item {d : Template α} {ds : List (Template α)} {t u v r : Text} (h : Reads holes (.value d) t u)
      (hcomma : skipBlanks u = ',' :: v) (hmore : Reads holes (.items ds) (skipBlanks v) r) :
      Reads holes (.items (d :: ds)) t r
  | lastEntry {k : Key α} {d : Template α} {t u v x r : Text} (hkey : ReadsKey holes k t u)
      (hcolon : skipBlanks u = ':' :: v) (h : Reads holes (.value d) (skipBlanks v) x)
      (hclose : skipBlanks x = '}' :: r) : Reads holes (.entries [(k, d)]) t r
  | entry {k : Key α} {d : Template α} {es : List (Key α × Template α)} {t u v x y r : Text}
      (hkey : ReadsKey holes k t u) (hcolon : skipBlanks u = ':' :: v)
      (h : Reads holes (.value d) (skipBlanks v) x) (hcomma : skipBlanks x = ',' :: y)
      (hmore : Reads holes (.entries es) (skipBlanks y) r) : Reads holes (.entries ((k, d) :: es)) t r

/-- The whole text says a template, blanks aside. -/
def Denotes (holes : Text → Option (α × Text)) (t : Text) (d : Template α) : Prop :=
  ∃ r, Reads holes (.value d) (skipBlanks t) r ∧ skipBlanks r = []

/-- No hole anywhere. -/
def unholed (_ : Text) : Option (Empty × Text) := none

/-! ## Holes -/

/-- A part with something else for each hole. -/
def Part.exchange (f : α → Wide ⊕ β) : Part α → Part β
  | .value d => .value (d.exchange f)
  | .items ds => .items (exchangeItems f ds)
  | .entries es => .entries (exchangeEntries f es)

section
variable {f : α → Wide ⊕ β} {p : Part α}

theorem Part.exchange_eq_value {d : Template β} (h : p.exchange f = .value d) :
    ∃ d', p = .value d' ∧ d'.exchange f = d := by
  cases p with
  | value d' => exact ⟨d', rfl, Part.value.inj h⟩
  | items => cases h
  | entries => cases h

theorem Part.exchange_eq_items {ds : List (Template β)} (h : p.exchange f = .items ds) :
    ∃ ds', p = .items ds' ∧ exchangeItems f ds' = ds := by
  cases p with
  | value => cases h
  | items ds' => exact ⟨ds', rfl, Part.items.inj h⟩
  | entries => cases h

theorem Part.exchange_eq_entries {es : List (Key β × Template β)} (h : p.exchange f = .entries es) :
    ∃ es', p = .entries es' ∧ exchangeEntries f es' = es := by
  cases p with
  | value => cases h
  | items => cases h
  | entries es' => exact ⟨es', rfl, Part.entries.inj h⟩

end

section
variable {holes : Text → Option (α × Text)} {f : α → β}

/-- Holes by other names. -/
def renamed (holes : Text → Option (α × Text)) (f : α → β) (t : Text) : Option (β × Text) :=
  (holes t).map fun (a, r) => (f a, r)

theorem renamed_eq_some {t r : Text} {b : β} (h : renamed holes f t = some (b, r)) :
    ∃ a, holes t = some (a, r) ∧ f a = b := by
  obtain ⟨⟨a, r'⟩, ha, heq⟩ := Option.map_eq_some_iff.mp h
  injection heq with hb hr
  exact ⟨a, by rw [ha, hr], hb⟩

theorem ReadsKey.map {k : Key α} {t r : Text} (h : ReadsKey holes k t r) :
    ReadsKey (renamed holes f) (k.exchange fun a => .inr (f a)) t r := by
  cases h with
  | hole h => exact .hole (by rw [renamed, h]; rfl)
  | text r h => exact .text r h

/-- A text says the same with other names for its holes. -/
theorem Reads.map {p : Part α} {t r : Text} (h : Reads holes p t r) :
    Reads (renamed holes f) (p.exchange fun a => .inr (f a)) t r := by
  induction h with
  | hole h => exact .hole (by rw [renamed, h]; rfl)
  | text r h => exact .text r h
  | scalar h => exact .scalar h
  | emptyList hclose => exact .emptyList hclose
  | list h ih => exact .list ih
  | emptyDict hclose => exact .emptyDict hclose
  | dict h ih => exact .dict ih
  | lastItem h hclose ih => exact .lastItem ih hclose
  | item h hcomma hmore ih ihmore => exact .item ih hcomma ihmore
  | lastEntry hkey hcolon h hclose ih => exact .lastEntry hkey.map hcolon ih hclose
  | entry hkey hcolon h hcomma hmore ih ihmore => exact .entry hkey.map hcolon ih hcomma ihmore

theorem ReadsKey.lift {k : Key β} {t r : Text} (h : ReadsKey (renamed holes f) k t r) :
    ∃ k', ReadsKey holes k' t r ∧ k'.exchange (fun a => .inr (f a)) = k := by
  cases h with
  | hole h =>
      obtain ⟨a, ha, rfl⟩ := renamed_eq_some h
      exact ⟨.hole a, .hole ha, rfl⟩
  | text r h => exact ⟨.text _, .text r h, rfl⟩

/-- What a text says with other names for its holes it says with their own. -/
theorem Reads.lift {p : Part β} {t r : Text} (h : Reads (renamed holes f) p t r) :
    ∃ q, Reads holes q t r ∧ q.exchange (fun a => .inr (f a)) = p := by
  -- the part is built anew from the holes that were renamed
  induction h with
  | hole h =>
      obtain ⟨a, ha, rfl⟩ := renamed_eq_some h
      exact ⟨.value (.hole a), .hole ha, rfl⟩
  | text r h => exact ⟨.value (.text _), .text r h, rfl⟩
  | scalar h => exact ⟨.value (.scalar _), .scalar h, rfl⟩
  | emptyList hclose => exact ⟨.value (.list []), .emptyList hclose, rfl⟩
  | list h ih =>
      obtain ⟨q, hq, heq⟩ := ih
      obtain ⟨ds, rfl, rfl⟩ := Part.exchange_eq_items heq
      exact ⟨.value (.list ds), .list hq, rfl⟩
  | emptyDict hclose => exact ⟨.value (.dict []), .emptyDict hclose, rfl⟩
  | dict h ih =>
      obtain ⟨q, hq, heq⟩ := ih
      obtain ⟨es, rfl, rfl⟩ := Part.exchange_eq_entries heq
      exact ⟨.value (.dict es), .dict hq, rfl⟩
  | lastItem h hclose ih =>
      obtain ⟨q, hq, heq⟩ := ih
      obtain ⟨d, rfl, rfl⟩ := Part.exchange_eq_value heq
      exact ⟨.items [d], .lastItem hq hclose, rfl⟩
  | item h hcomma hmore ih ihmore =>
      obtain ⟨q, hq, heq⟩ := ih
      obtain ⟨d, rfl, rfl⟩ := Part.exchange_eq_value heq
      obtain ⟨q', hq', heq'⟩ := ihmore
      obtain ⟨ds, rfl, rfl⟩ := Part.exchange_eq_items heq'
      exact ⟨.items (d :: ds), .item hq hcomma hq', rfl⟩
  | lastEntry hkey hcolon h hclose ih =>
      obtain ⟨k, hk, rfl⟩ := hkey.lift
      obtain ⟨q, hq, heq⟩ := ih
      obtain ⟨d, rfl, rfl⟩ := Part.exchange_eq_value heq
      exact ⟨.entries [(k, d)], .lastEntry hk hcolon hq hclose, rfl⟩
  | entry hkey hcolon h hcomma hmore ih ihmore =>
      obtain ⟨k, hk, rfl⟩ := hkey.lift
      obtain ⟨q, hq, heq⟩ := ih
      obtain ⟨d, rfl, rfl⟩ := Part.exchange_eq_value heq
      obtain ⟨q', hq', heq'⟩ := ihmore
      obtain ⟨es, rfl, rfl⟩ := Part.exchange_eq_entries heq'
      exact ⟨.entries ((k, d) :: es), .entry hk hcolon hq hcomma hq', rfl⟩

theorem Denotes.lift {d : Template β} {t : Text} (h : Denotes (renamed holes f) t d) :
    ∃ d', Denotes holes t d' ∧ d'.map f = d := by
  obtain ⟨r, hread, hr⟩ := h
  obtain ⟨q, hq, heq⟩ := hread.lift
  obtain ⟨d', rfl, rfl⟩ := Part.exchange_eq_value heq
  exact ⟨d', ⟨r, hq, hr⟩, rfl⟩

end

/-! ## The reader is sound -/

/-- What the reader finds without error is what the text says. -/
def Sound (n : Nat) : Prop :=
  (∀ t v r, value n t = .ok (v, r) → ∃ d, Reads unholed (.value d) t r ∧ v = d.settled.toValue) ∧
    (∀ t vs r, elements n t = .ok (vs, r) →
      ∃ ds, Reads unholed (.items ds) t r ∧ vs = toValues (settledItems ds)) ∧
    ∀ t (acc : List (Key Empty × Template Empty)) pairs r, members n (toPairs acc) t = .ok (pairs, r) →
      ∃ es, Reads unholed (.entries es) t r ∧ pairs = toPairs (putAll acc (settledEntries es))

theorem sound_value {n : Nat} (h : Sound n) {t r : Text} {v : Value} (hrun : value (n + 1) t = .ok (v, r)) :
    ∃ d, Reads unholed (.value d) t r ∧ v = d.settled.toValue := by
  -- the first character says whether a text, an object, a list or a scalar is read
  unfold value at hrun
  split at hrun
  · obtain ⟨⟨s, r'⟩, hs, heq⟩ := map_eq_ok hrun
    injection heq with hv hr
    subst hv hr
    obtain ⟨w, rfl, hw⟩ := string_iff.mp hs
    exact ⟨.text s, .text r' hw, rfl⟩
  · split at hrun
    · next hclose =>
        injection hrun with hrun
        injection hrun with hv hr
        subst hv hr
        exact ⟨.dict [], .emptyDict hclose, rfl⟩
    · obtain ⟨⟨pairs, r'⟩, hs, heq⟩ := map_eq_ok hrun
      injection heq with hv hr
      subst hv hr
      obtain ⟨es, hread, rfl⟩ := h.2.2 _ [] pairs r' hs
      exact ⟨.dict es, .dict hread, rfl⟩
  · split at hrun
    · next hclose =>
        injection hrun with hrun
        injection hrun with hv hr
        subst hv hr
        exact ⟨.list [], .emptyList hclose, rfl⟩
    · obtain ⟨⟨vs, r'⟩, hs, heq⟩ := map_eq_ok hrun
      injection heq with hv hr
      subst hv hr
      obtain ⟨ds, hread, rfl⟩ := h.2.1 _ vs r' hs
      exact ⟨.list ds, .list hread, rfl⟩
  · split at hrun
    · next hscalar =>
        split at hrun
        · next hshort =>
            injection hrun with hrun
            injection hrun with hv hr
            subst hv hr
            exact ⟨.scalar (Scalar.ofRead hshort hscalar), .scalar hscalar, rfl⟩
        · simp at hrun
    · simp at hrun

theorem sound_elements {n : Nat} (h : Sound n) {t r : Text} {vs : List Value}
    (hrun : elements (n + 1) t = .ok (vs, r)) :
    ∃ ds, Reads unholed (.items ds) t r ∧ vs = toValues (settledItems ds) := by
  unfold elements at hrun
  split at hrun
  · simp at hrun
  · next v after hvalue =>
      obtain ⟨d, hread, rfl⟩ := h.1 _ _ _ hvalue
      split at hrun
      · next hclose =>
          injection hrun with hrun
          injection hrun with hvs hr
          subst hvs hr
          exact ⟨[d], .lastItem hread hclose, rfl⟩
      · next rest hcomma =>
          obtain ⟨⟨vs', r'⟩, hs, heq⟩ := map_eq_ok hrun
          injection heq with hvs hr
          subst hvs hr
          obtain ⟨ds, hmore, rfl⟩ := h.2.1 _ vs' r' hs
          exact ⟨d :: ds, .item hread hcomma hmore, rfl⟩
      · simp at hrun

theorem sound_members {n : Nat} (h : Sound n) {t r : Text} {acc : List (Key Empty × Template Empty)}
    {pairs : List (Value × Value)} (hrun : members (n + 1) (toPairs acc) t = .ok (pairs, r)) :
    ∃ es, Reads unholed (.entries es) t r ∧ pairs = toPairs (putAll acc (settledEntries es)) := by
  unfold members at hrun
  split at hrun
  · split at hrun
    · simp at hrun
    · next key after hstring =>
        obtain ⟨w, rfl, hw⟩ := string_iff.mp hstring
        have hkey : ReadsKey unholed (.text key) ('"' :: (w ++ '"' :: after)) after := .text after hw
        split at hrun
        · next body hcolon =>
            split at hrun
            · simp at hrun
            · next v more hvalue =>
                obtain ⟨d, hread, rfl⟩ := h.1 _ _ _ hvalue
                dsimp only at hrun
                rw [← toPairs_put] at hrun
                split at hrun
                · next hclose =>
                    injection hrun with hrun
                    injection hrun with hpairs hr
                    subst hpairs hr
                    exact ⟨[(.text key, d)], .lastEntry hkey hcolon hread hclose, rfl⟩
                · next rest hcomma =>
                    obtain ⟨es, hmore, rfl⟩ := h.2.2 _ _ _ _ hrun
                    exact ⟨(.text key, d) :: es, .entry hkey hcolon hread hcomma hmore, rfl⟩
                · simp at hrun
        · simp at hrun
  · simp at hrun

/-- **The reader is sound.** -/
theorem sound (n : Nat) : Sound n := by
  induction n with
  | zero =>
      refine ⟨fun t v r h => ?_, fun t vs r h => ?_, fun t acc pairs r h => ?_⟩
      · simp [value] at h
      · simp [elements] at h
      · simp [members] at h
  | succ n ih =>
      exact ⟨fun _ _ _ => sound_value ih, fun _ _ _ => sound_elements ih, fun _ _ _ _ => sound_members ih⟩

/-! ## Starts -/

/-- A character that a part may start with. -/
def isOpening (c : Char) : Bool := c == '"' || c == '[' || c == '{' || isScalarChar c

theorem scalar?_opens {t r : Text} {v : Value} (h : scalar? t = some (v, r)) :
    ∃ c u, t = c :: u ∧ isScalarChar c = true := by
  obtain ⟨⟨p, rfl, hp⟩, hlength, -⟩ := scalar?_spec h
  cases p with
  | nil => exact absurd hlength (lt_irrefl _)
  | cons c p => exact ⟨c, p ++ r, rfl, hp c List.mem_cons_self⟩

theorem scalar?_cons {c : Char} {t r : Text} {v : Value} (h : scalar? (c :: t) = some (v, r)) :
    isScalarChar c = true := by
  obtain ⟨d, u, ht, hd⟩ := scalar?_opens h
  rw [(List.cons.inj ht).1]
  exact hd

section
variable {holes : Text → Option (α × Text)}
  (hholes : ∀ t a r, holes t = some (a, r) → ∃ u, t = '{' :: u)
include hholes

theorem ReadsKey.opens {k : Key α} {t r : Text} (h : ReadsKey holes k t r) :
    ∃ c u, t = c :: u ∧ isOpening c = true := by
  cases h with
  | hole h =>
      obtain ⟨u, rfl⟩ := hholes _ _ _ h
      exact ⟨'{', u, rfl, rfl⟩
  | text => exact ⟨'"', _, rfl, rfl⟩

/-- A part starts with a visible character that is no closing bracket and no separator. -/
theorem Reads.opens {p : Part α} {t r : Text} (h : Reads holes p t r) :
    ∃ c u, t = c :: u ∧ isOpening c = true := by
  induction h with
  | hole h =>
      obtain ⟨u, rfl⟩ := hholes _ _ _ h
      exact ⟨'{', u, rfl, rfl⟩
  | text => exact ⟨'"', _, rfl, rfl⟩
  | scalar h =>
      obtain ⟨c, u, rfl, hc⟩ := scalar?_opens h
      exact ⟨c, u, rfl, by rw [isOpening, hc, Bool.or_true]⟩
  | emptyList => exact ⟨'[', _, rfl, rfl⟩
  | list => exact ⟨'[', _, rfl, rfl⟩
  | emptyDict => exact ⟨'{', _, rfl, rfl⟩
  | dict => exact ⟨'{', _, rfl, rfl⟩
  | lastItem h hclose ih => exact ih
  | item h hcomma hmore ih ihmore => exact ih
  | lastEntry hkey => exact hkey.opens hholes
  | entry hkey => exact hkey.opens hholes

end

/-! ## The reader is complete -/

/-- The reader finds a part with the given fuel. -/
def Runs (n : Nat) (t r : Text) : Part Empty → Prop
  | .value d => value n t = .ok (d.settled.toValue, r)
  | .items ds => elements n t = .ok (toValues (settledItems ds), r)
  | .entries es => ∀ acc, members n (toPairs acc) t = .ok (toPairs (putAll acc (settledEntries es)), r)

/-- The fuel that a part takes beyond twice the length of its text. -/
def Part.surplus : Part α → Nat
  | .value _ => 0
  | .items _ | .entries _ => 1

theorem length_skipBlanks (t : Text) : (skipBlanks t).length ≤ t.length :=
  (List.dropWhile_sublist _).length_le

theorem value_scalar {n : Nat} {t r : Text} {v : Value} (hshort : isShort v = true) (h : scalar? t = some (v, r)) :
    value (n + 1) t = .ok (v, r) := by
  obtain ⟨c, u, rfl, hc⟩ := scalar?_opens h
  unfold value
  split
  · next he => exact absurd hc (by rw [(List.cons.inj he).1]; decide)
  · next he => exact absurd hc (by rw [(List.cons.inj he).1]; decide)
  · next he => exact absurd hc (by rw [(List.cons.inj he).1]; decide)
  · rw [h]
    exact if_pos hshort

theorem value_string (n : Nat) (t : Text) :
    value (n + 1) ('"' :: t) = (string ('"' :: t) 0 t).map fun (s, r) => (.ofWide s, r) := by
  rw [value]

theorem value_bracket (n : Nat) (t : Text) :
    value (n + 1) ('[' :: t) = match skipBlanks t with
      | ']' :: after => .ok (.list [], after)
      | inner => (elements n inner).map fun (items, r) => (.list items, r) := rfl

theorem value_brace (n : Nat) (t : Text) :
    value (n + 1) ('{' :: t) = match skipBlanks t with
      | '}' :: after => .ok (.dict [], after)
      | inner => (members n [] inner).map fun (entries, r) => (.dict entries, r) := rfl

theorem members_quote (n : Nat) (pairs : List (Value × Value)) (t : Text) :
    members (n + 1) pairs ('"' :: t) = match string ('"' :: t) 0 t with
      | .error e => .error e
      | .ok (key, after) =>
        match skipBlanks after with
        | ':' :: body =>
          match value n (skipBlanks body) with
          | .error e => .error e
          | .ok (v, more) =>
            match skipBlanks more with
            | '}' :: rest => .ok (Value.put pairs (.ofWide key) v, rest)
            | ',' :: rest => members n (Value.put pairs (.ofWide key) v) (skipBlanks rest)
            | other => .error ⟨.comma, other⟩
        | other => .error ⟨.colon, other⟩ := rfl

theorem value_list {n : Nat} {t r : Text} {vs : List Value} (hopen : ∀ u, skipBlanks t ≠ ']' :: u)
    (h : elements n (skipBlanks t) = .ok (vs, r)) : value (n + 1) ('[' :: t) = .ok (.list vs, r) := by
  rw [value_bracket]
  split
  · next hclose => exact absurd hclose (hopen _)
  · rw [h]
    rfl

theorem value_dict {n : Nat} {t r : Text} {pairs : List (Value × Value)} (hopen : ∀ u, skipBlanks t ≠ '}' :: u)
    (h : members n [] (skipBlanks t) = .ok (pairs, r)) : value (n + 1) ('{' :: t) = .ok (.dict pairs, r) := by
  rw [value_brace]
  split
  · next hclose => exact absurd hclose (hopen _)
  · rw [h]
    rfl

theorem ne_of_opens {t : Text} {c : Char} (h : ∃ c u, t = c :: u ∧ isOpening c = true)
    (hc : isOpening c = false) (u : Text) : t ≠ c :: u := by
  rintro rfl
  obtain ⟨d, v, heq, hd⟩ := h
  rw [← (List.cons.inj heq).1, hc] at hd
  exact absurd hd (by decide)

theorem unholed_opens (t : Text) (a : Empty) (r : Text) : unholed t = some (a, r) → ∃ u, t = '{' :: u :=
  a.elim

/-- What is behind a lexeme is shorter than what starts with it. -/
theorem length_behind {t u : Text} {c : Char} (h : skipBlanks t = c :: u) : u.length < t.length := by
  have hle := length_skipBlanks t
  rw [h] at hle
  exact hle

theorem elements_item {n : Nat} {t u : Text} {v : Value} (hvalue : value n t = .ok (v, u)) :
    elements (n + 1) t = match skipBlanks u with
      | ']' :: rest => .ok ([v], rest)
      | ',' :: rest => (elements n (skipBlanks rest)).map fun (vs, r) => (v :: vs, r)
      | other => .error ⟨.comma, other⟩ := by
  have hread := elements.eq_2 t n
  rw [hvalue] at hread
  exact hread

theorem members_entry {n : Nat} {w u v x : Text} {key : Wide} {d : Template Empty} (hkey : Spells w key)
    (hcolon : skipBlanks u = ':' :: v) (hvalue : value n (skipBlanks v) = .ok (d.settled.toValue, x))
    (acc : List (Key Empty × Template Empty)) :
    members (n + 1) (toPairs acc) ('"' :: (w ++ '"' :: u)) =
      match skipBlanks x with
      | '}' :: rest => .ok (toPairs (put acc (.text key) d.settled), rest)
      | ',' :: rest => members n (toPairs (put acc (.text key) d.settled)) (skipBlanks rest)
      | other => .error ⟨.comma, other⟩ := by
  rw [members_quote, string_of_spells hkey]
  dsimp only
  rw [hcolon]
  simp only [hvalue, ← toPairs_put]

/-- **The reader is complete**: it finds what the text says, with fuel for twice the length. -/
theorem runs_of_reads {p : Part Empty} {t r : Text} (h : Reads unholed p t r) :
    r.length < t.length ∧ ∀ n, 2 * t.length + p.surplus ≤ n + 2 * r.length → Runs n t r p := by
  -- the fuel is twice what is read, so that some is left for each step inside
  induction h with
  | hole h => exact absurd h (by simp [unholed])
  | @text w s r h =>
      refine ⟨by simp; omega, fun n hn => ?_⟩
      obtain ⟨n, rfl⟩ : ∃ m, n = m + 1 := ⟨n - 1, by simp [Part.surplus] at hn; omega⟩
      show value (n + 1) _ = _
      rw [value_string, string_of_spells h]
      rfl
  | @scalar s t r h =>
      obtain ⟨-, hlength, -⟩ := scalar?_spec h
      refine ⟨hlength, fun n hn => ?_⟩
      obtain ⟨n, rfl⟩ : ∃ m, n = m + 1 := ⟨n - 1, by simp only [Part.surplus] at hn; omega⟩
      exact value_scalar s.property.1 h
  | @emptyList t r hclose =>
      have hlength := length_behind hclose
      refine ⟨by rw [List.length_cons]; omega, fun n hn => ?_⟩
      obtain ⟨n, rfl⟩ : ∃ m, n = m + 1 := ⟨n - 1, by simp only [Part.surplus, List.length_cons] at hn; omega⟩
      show value (n + 1) _ = _
      rw [value_bracket, hclose]
      rfl
  | @list ds t r h ih =>
      have hlength := length_skipBlanks t
      refine ⟨by rw [List.length_cons]; omega, fun n hn => ?_⟩
      simp only [Part.surplus, List.length_cons] at hn ih
      obtain ⟨n, rfl⟩ : ∃ m, n = m + 1 := ⟨n - 1, by omega⟩
      exact value_list (ne_of_opens (h.opens unholed_opens) rfl) (ih.2 n (by omega))
  | @emptyDict t r hclose =>
      have hlength := length_behind hclose
      refine ⟨by rw [List.length_cons]; omega, fun n hn => ?_⟩
      obtain ⟨n, rfl⟩ : ∃ m, n = m + 1 := ⟨n - 1, by simp only [Part.surplus, List.length_cons] at hn; omega⟩
      show value (n + 1) _ = _
      rw [value_brace, hclose]
      rfl
  | @dict es t r h ih =>
      have hlength := length_skipBlanks t
      refine ⟨by rw [List.length_cons]; omega, fun n hn => ?_⟩
      simp only [Part.surplus, List.length_cons] at hn ih
      obtain ⟨n, rfl⟩ : ∃ m, n = m + 1 := ⟨n - 1, by omega⟩
      exact value_dict (ne_of_opens (h.opens unholed_opens) rfl) (ih.2 n (by omega) [])
  | @lastItem d t u r h hclose ih =>
      have hlength := length_behind hclose
      refine ⟨by omega, fun n hn => ?_⟩
      simp only [Part.surplus] at hn ih
      obtain ⟨n, rfl⟩ : ∃ m, n = m + 1 := ⟨n - 1, by omega⟩
      have hvalue : value n t = .ok (d.settled.toValue, u) := ih.2 n (by omega)
      show elements (n + 1) t = _
      rw [elements_item hvalue, hclose]
      rfl
  | @item d ds t u v r h hcomma hmore ih ihmore =>
      have hlength := length_behind hcomma
      have hskip := length_skipBlanks v
      refine ⟨by omega, fun n hn => ?_⟩
      simp only [Part.surplus] at hn ih ihmore
      obtain ⟨n, rfl⟩ : ∃ m, n = m + 1 := ⟨n - 1, by omega⟩
      have hvalue : value n t = .ok (d.settled.toValue, u) := ih.2 n (by omega)
      have hrest : elements n (skipBlanks v) = .ok (toValues (settledItems ds), r) := ihmore.2 n (by omega)
      show elements (n + 1) t = _
      rw [elements_item hvalue, hcomma]
      show (elements n (skipBlanks v)).map _ = _
      rw [hrest]
      rfl
  | @lastEntry k d t u v x r hkey hcolon h hclose ih =>
      have hv := length_behind hcolon
      have hr := length_behind hclose
      have hskip := length_skipBlanks v
      cases hkey with
      | hole h => exact absurd h (by simp [unholed])
      | @text w s _ hw =>
          refine ⟨by simp; omega, fun n hn acc => ?_⟩
          simp only [Part.surplus, List.length_cons, List.length_append] at hn ih
          obtain ⟨n, rfl⟩ : ∃ m, n = m + 1 := ⟨n - 1, by omega⟩
          rw [members_entry hw hcolon (ih.2 n (by omega)), hclose]
          rfl
  | @entry k d es t u v x y r hkey hcolon h hcomma hmore ih ihmore =>
      have hv := length_behind hcolon
      have hy := length_behind hcomma
      have hskip := length_skipBlanks v
      have hskip' := length_skipBlanks y
      cases hkey with
      | hole h => exact absurd h (by simp [unholed])
      | @text w s _ hw =>
          refine ⟨by simp; omega, fun n hn acc => ?_⟩
          simp only [Part.surplus, List.length_cons, List.length_append] at hn ih ihmore
          obtain ⟨n, rfl⟩ : ∃ m, n = m + 1 := ⟨n - 1, by omega⟩
          rw [members_entry hw hcolon (ih.2 n (by omega)), hcomma]
          exact ihmore.2 n (by omega) (put acc (.text s) d.settled)

/-! ## Texts -/

/-- **A text is read exactly if it says something**, and what is read is what that settles to. -/
theorem parse_iff {t : Text} {v : Value} :
    parse t = .ok v ↔ ∃ d, Denotes unholed t d ∧ v = d.settled.toValue := by
  have hread : parse t = .ok v ↔ read t = .ok v := by
    unfold parse
    cases read t <;> simp
  rw [hread]
  constructor
  · intro h
    unfold read at h
    split at h
    · simp at h
    · split at h
      · simp at h
      · next v' after hvalue =>
          split at h
          · next hend =>
              injection h with h
              subst h
              obtain ⟨d, hd, rfl⟩ := (sound _).1 _ _ _ hvalue
              exact ⟨d, ⟨after, hd, hend⟩, rfl⟩
          · simp at h
  · rintro ⟨d, ⟨r, hd, hr⟩, rfl⟩
    -- the reader starts with fuel for twice the length
    have hvalue : value (2 * t.length + 2) (skipBlanks t) = .ok (d.settled.toValue, r) := by
      have hlength := length_skipBlanks t
      refine (runs_of_reads hd).2 _ ?_
      simp only [Part.surplus]
      omega
    unfold read
    split
    · next rest =>
        exact absurd rfl (ne_of_opens (c := '\uFEFF') (hd.opens unholed_opens) (by decide) rest)
    · rw [hvalue]
      dsimp only
      rw [hr]

/-! ## One template -/

section
variable {holes : Text → Option (α × Text)} {t r : Text}

/-- What a text that says a value can look like. -/
theorem Reads.value_cases {d : Template α} (h : Reads holes (.value d) t r) :
    (∃ a, d = .hole a ∧ holes t = some (a, r)) ∨
      (∃ w s, d = .text s ∧ Spells w s ∧ t = '"' :: (w ++ '"' :: r)) ∨
      (∃ s, d = .scalar s ∧ scalar? t = some (s.val, r)) ∨
      (∃ u, t = '[' :: u ∧ (d = .list [] ∧ skipBlanks u = ']' :: r ∨
        ∃ ds, d = .list ds ∧ Reads holes (.items ds) (skipBlanks u) r)) ∨
      ∃ u, t = '{' :: u ∧ (d = .dict [] ∧ skipBlanks u = '}' :: r ∨
        ∃ es, d = .dict es ∧ Reads holes (.entries es) (skipBlanks u) r) := by
  cases h with
  | hole h => exact Or.inl ⟨_, rfl, h⟩
  | text r h => exact Or.inr (Or.inl ⟨_, _, rfl, h, rfl⟩)
  | scalar h => exact Or.inr (Or.inr (Or.inl ⟨_, rfl, h⟩))
  | emptyList h => exact Or.inr (Or.inr (Or.inr (Or.inl ⟨_, rfl, Or.inl ⟨rfl, h⟩⟩)))
  | list h => exact Or.inr (Or.inr (Or.inr (Or.inl ⟨_, rfl, Or.inr ⟨_, rfl, h⟩⟩)))
  | emptyDict h => exact Or.inr (Or.inr (Or.inr (Or.inr ⟨_, rfl, Or.inl ⟨rfl, h⟩⟩)))
  | dict h => exact Or.inr (Or.inr (Or.inr (Or.inr ⟨_, rfl, Or.inr ⟨_, rfl, h⟩⟩)))

theorem Reads.items_cases {ds : List (Template α)} (h : Reads holes (.items ds) t r) :
    ∃ d ds' u, ds = d :: ds' ∧ Reads holes (.value d) t u ∧ (ds' = [] ∧ skipBlanks u = ']' :: r ∨
      ∃ v, skipBlanks u = ',' :: v ∧ Reads holes (.items ds') (skipBlanks v) r) := by
  cases h with
  | lastItem h hclose => exact ⟨_, _, _, rfl, h, Or.inl ⟨rfl, hclose⟩⟩
  | item h hcomma hmore => exact ⟨_, _, _, rfl, h, Or.inr ⟨_, hcomma, hmore⟩⟩

theorem Reads.entries_cases {es : List (Key α × Template α)} (h : Reads holes (.entries es) t r) :
    ∃ k d es' u v x, es = (k, d) :: es' ∧ ReadsKey holes k t u ∧ skipBlanks u = ':' :: v ∧
      Reads holes (.value d) (skipBlanks v) x ∧ (es' = [] ∧ skipBlanks x = '}' :: r ∨
        ∃ y, skipBlanks x = ',' :: y ∧ Reads holes (.entries es') (skipBlanks y) r) := by
  cases h with
  | lastEntry hkey hcolon h hclose => exact ⟨_, _, _, _, _, _, rfl, hkey, hcolon, h, Or.inl ⟨rfl, hclose⟩⟩
  | entry hkey hcolon h hcomma hmore => exact ⟨_, _, _, _, _, _, rfl, hkey, hcolon, h, Or.inr ⟨_, hcomma, hmore⟩⟩

/-- A hole opens with two braces, and with two only. -/
structure Braced (holes : Text → Option (α × Text)) : Prop where
  opens : ∀ t a r, holes t = some (a, r) → ∃ u, t = '{' :: '{' :: u
  only : ∀ t a r, holes t = some (a, r) → holes ('{' :: t) = none

theorem Reads.value_brace (hnone : holes ('{' :: t) = none) {d : Template α}
    (h : Reads holes (.value d) ('{' :: t) r) :
    d = .dict [] ∧ skipBlanks t = '}' :: r ∨ ∃ es, d = .dict es ∧ Reads holes (.entries es) (skipBlanks t) r := by
  rcases h.value_cases with ⟨a, -, ha⟩ | ⟨w', s', -, -, ht⟩ | ⟨s, -, hs⟩ | ⟨u, ht, -⟩ | ⟨u, ht, h⟩
  · rw [hnone] at ha
    cases ha
  · cases ht
  · exact absurd (scalar?_cons hs) (by decide)
  · cases ht
  · rw [(List.cons.inj ht).2]
    exact h

variable (hb : Braced holes)
include hb

theorem Braced.opens_brace (t : Text) (a : α) (r : Text) (h : holes t = some (a, r)) : ∃ u, t = '{' :: u := by
  obtain ⟨u, rfl⟩ := hb.opens t a r h
  exact ⟨_, rfl⟩

theorem Braced.none_of_skip {c : Char} {u : Text} (hc : c ≠ '{') (h : skipBlanks t = c :: u) :
    holes ('{' :: t) = none := by
  rw [Option.eq_none_iff_forall_ne_some]
  rintro ⟨a, r⟩ ha
  obtain ⟨v, hv⟩ := hb.opens _ a r ha
  rw [(List.cons.inj hv).2] at h
  exact hc (List.cons.inj h).1.symm

/-- A brace in front of entries opens no hole. -/
theorem Braced.none_of_entries {es : List (Key α × Template α)} (h : Reads holes (.entries es) (skipBlanks t) r) :
    holes ('{' :: t) = none := by
  obtain ⟨k, d, es', u, v, x, -, hkey, -⟩ := h.entries_cases
  obtain ⟨q, hq⟩ : ∃ q, skipBlanks t = q := ⟨_, rfl⟩
  rw [hq] at hkey
  cases hkey with
  | text => exact hb.none_of_skip (by decide) hq
  | hole ha =>
      rw [Option.eq_none_iff_forall_ne_some]
      rintro ⟨b, x⟩ hbrace
      obtain ⟨y, hy⟩ := hb.opens _ b x hbrace
      obtain rfl : q = t := by
        rw [← hq, (List.cons.inj hy).2]
        rfl
      rw [hb.only _ _ _ ha] at hbrace
      cases hbrace

theorem Reads.value_hole {a : α} (ha : holes t = some (a, r)) {d : Template α} {r' : Text}
    (h : Reads holes (.value d) t r') : d = .hole a ∧ r' = r := by
  have hnone : ∀ u, t = '{' :: u → holes ('{' :: u) = none → False := by
    rintro u rfl hnone
    rw [ha] at hnone
    cases hnone
  obtain ⟨x, hx⟩ := hb.opens t a r ha
  rcases h.value_cases with ⟨b, rfl, hb'⟩ | ⟨w, s, -, -, ht⟩ | ⟨s, -, hs⟩ | ⟨u, ht, -⟩ | ⟨u, ht, ⟨-, h⟩ | ⟨es, -, h⟩⟩
  · rw [ha] at hb'
    injection hb' with hb'
    injection hb' with hab hr
    exact ⟨by rw [hab], hr.symm⟩
  · rw [hx] at ht
    cases ht
  · rw [hx] at hs
    exact absurd (scalar?_cons hs) (by decide)
  · rw [hx] at ht
    cases ht
  · exact (hnone u ht (hb.none_of_skip (by decide) h)).elim
  · exact (hnone u ht (hb.none_of_entries h)).elim

theorem Reads.value_text {d : Template α} {w r' : Text} {s : Wide} (hw : Spells w s)
    (h : Reads holes (.value d) ('"' :: (w ++ '"' :: r)) r') : d = .text s ∧ r' = r := by
  rcases h.value_cases with ⟨a, -, ha⟩ | ⟨w', s', rfl, hw', ht⟩ | ⟨s, -, hs⟩ | ⟨u, ht, -⟩ | ⟨u, ht, -⟩
  · obtain ⟨u, ht⟩ := hb.opens _ _ _ ha
    cases ht
  · obtain ⟨-, rfl, rfl⟩ := hw.unique hw' (List.cons.inj ht).2
    exact ⟨rfl, rfl⟩
  · exact absurd (scalar?_cons hs) (by decide)
  · cases ht
  · cases ht

theorem Reads.value_scalar {d : Template α} {s : Scalar} {r' : Text} (hs : scalar? t = some (s.val, r))
    (h : Reads holes (.value d) t r') : d = .scalar s ∧ r' = r := by
  obtain ⟨c, u, rfl, hc⟩ := scalar?_opens hs
  have hne : ∀ {d : Char} {v : Text}, c :: u = d :: v → isScalarChar d = false → False := by
    intro d v he hd
    rw [(List.cons.inj he).1, hd] at hc
    cases hc
  rcases h.value_cases with ⟨a, -, ha⟩ | ⟨w', s', -, -, ht⟩ | ⟨s', rfl, hs'⟩ | ⟨u, ht, -⟩ | ⟨u, ht, -⟩
  · obtain ⟨v, ht⟩ := hb.opens _ _ _ ha
    exact (hne ht (by decide)).elim
  · exact (hne ht (by decide)).elim
  · rw [hs] at hs'
    injection hs' with hs'
    injection hs' with hv hr
    exact ⟨by rw [Subtype.ext hv], hr.symm⟩
  · exact (hne ht (by decide)).elim
  · exact (hne ht (by decide)).elim

theorem Reads.value_bracket {d : Template α} (h : Reads holes (.value d) ('[' :: t) r) :
    d = .list [] ∧ skipBlanks t = ']' :: r ∨ ∃ ds, d = .list ds ∧ Reads holes (.items ds) (skipBlanks t) r := by
  rcases h.value_cases with ⟨a, -, ha⟩ | ⟨w', s', -, -, ht⟩ | ⟨s, -, hs⟩ | ⟨u, ht, h⟩ | ⟨u, ht, -⟩
  · obtain ⟨u, ht⟩ := hb.opens _ _ _ ha
    cases ht
  · cases ht
  · exact absurd (scalar?_cons hs) (by decide)
  · rw [(List.cons.inj ht).2]
    exact h
  · cases ht

theorem ReadsKey.unique {k k' : Key α} {r' : Text} (h : ReadsKey holes k t r) (h' : ReadsKey holes k' t r') :
    k' = k ∧ r' = r := by
  cases h with
  | @hole a _ _ ha =>
      cases h' with
      | @hole b _ _ hb' =>
          rw [ha] at hb'
          injection hb' with hb'
          injection hb' with hab hr
          exact ⟨by rw [hab], hr.symm⟩
      | text =>
          obtain ⟨u, hu⟩ := hb.opens _ _ _ ha
          cases hu
  | @text w s r hw =>
      obtain ⟨u, hu⟩ : ∃ u, u = '"' :: (w ++ '"' :: r) := ⟨_, rfl⟩
      rw [← hu] at h'
      cases h' with
      | hole ha =>
          obtain ⟨v, hv⟩ := hb.opens _ _ _ ha
          rw [hu] at hv
          cases hv
      | text r' hw' =>
          obtain ⟨-, rfl, rfl⟩ := hw.unique hw' (List.cons.inj hu).2.symm
          exact ⟨rfl, rfl⟩

/-- A text says no other part of the kind. -/
def Only (holes : Text → Option (α × Text)) (t r : Text) : Part α → Prop
  | .value d => ∀ d' r', Reads holes (.value d') t r' → d' = d ∧ r' = r
  | .items ds => ∀ ds' r', Reads holes (.items ds') t r' → ds' = ds ∧ r' = r
  | .entries es => ∀ es' r', Reads holes (.entries es') t r' → es' = es ∧ r' = r

theorem not_items {u : Text} (h : skipBlanks t = ']' :: u) {ds : List (Template α)} :
    ¬Reads holes (.items ds) (skipBlanks t) r := fun hread =>
  ne_of_opens (hread.opens hb.opens_brace) (c := ']') (by decide) u h

theorem not_entries {u : Text} (h : skipBlanks t = '}' :: u) {es : List (Key α × Template α)} :
    ¬Reads holes (.entries es) (skipBlanks t) r := fun hread =>
  ne_of_opens (hread.opens hb.opens_brace) (c := '}') (by decide) u h

/-- **A text says one thing only.** -/
theorem Reads.only {p : Part α} (h : Reads holes p t r) : Only holes t r p := by
  induction h with
  | hole ha => exact fun d' r' h' => h'.value_hole hb ha
  | text r hw => exact fun d' r' h' => h'.value_text hb hw
  | scalar hs => exact fun d' r' h' => h'.value_scalar hb hs
  | emptyList hclose =>
      intro d' r' h'
      rcases h'.value_bracket hb with ⟨rfl, hclose'⟩ | ⟨ds, -, h'⟩
      · rw [hclose] at hclose'
        exact ⟨rfl, (List.cons.inj hclose').2.symm⟩
      · exact (not_items hb hclose h').elim
  | list h ih =>
      intro d' r' h'
      rcases h'.value_bracket hb with ⟨rfl, hclose⟩ | ⟨ds, rfl, hitems⟩
      · exact (not_items hb hclose h).elim
      · obtain ⟨rfl, rfl⟩ := ih _ _ hitems
        exact ⟨rfl, rfl⟩
  | emptyDict hclose =>
      intro d' r' h'
      rcases h'.value_brace (hb.none_of_skip (by decide) hclose) with ⟨rfl, hclose'⟩ | ⟨es, -, h'⟩
      · rw [hclose] at hclose'
        exact ⟨rfl, (List.cons.inj hclose').2.symm⟩
      · exact (not_entries hb hclose h').elim
  | dict h ih =>
      intro d' r' h'
      rcases h'.value_brace (hb.none_of_entries h) with ⟨rfl, hclose⟩ | ⟨es, rfl, hentries⟩
      · exact (not_entries hb hclose h).elim
      · obtain ⟨rfl, rfl⟩ := ih _ _ hentries
        exact ⟨rfl, rfl⟩
  | lastItem h hclose ih =>
      intro ds' r' h'
      obtain ⟨d', ds, u, rfl, h', hrest⟩ := h'.items_cases
      obtain ⟨rfl, rfl⟩ := ih _ _ h'
      rw [hclose] at hrest
      rcases hrest with ⟨rfl, hr⟩ | ⟨v, hv, -⟩
      · exact ⟨rfl, (List.cons.inj hr).2.symm⟩
      · cases hv
  | item h hcomma hmore ih ihmore =>
      intro ds' r' h'
      obtain ⟨d', ds, u, rfl, h', hrest⟩ := h'.items_cases
      obtain ⟨rfl, rfl⟩ := ih _ _ h'
      rw [hcomma] at hrest
      rcases hrest with ⟨-, hr⟩ | ⟨v, hv, hmore'⟩
      · cases hr
      · rw [← (List.cons.inj hv).2] at hmore'
        obtain ⟨rfl, rfl⟩ := ihmore _ _ hmore'
        exact ⟨rfl, rfl⟩
  | lastEntry hkey hcolon h hclose ih =>
      intro es' r' h'
      obtain ⟨k', d', es, u, v, x, rfl, hkey', hcolon', h', hrest⟩ := h'.entries_cases
      obtain ⟨rfl, rfl⟩ := hkey.unique hb hkey'
      rw [hcolon] at hcolon'
      rw [← (List.cons.inj hcolon').2] at h'
      obtain ⟨rfl, rfl⟩ := ih _ _ h'
      rw [hclose] at hrest
      rcases hrest with ⟨rfl, hr⟩ | ⟨y, hy, -⟩
      · exact ⟨rfl, (List.cons.inj hr).2.symm⟩
      · cases hy
  | entry hkey hcolon h hcomma hmore ih ihmore =>
      intro es' r' h'
      obtain ⟨k', d', es, u, v, x, rfl, hkey', hcolon', h', hrest⟩ := h'.entries_cases
      obtain ⟨rfl, rfl⟩ := hkey.unique hb hkey'
      rw [hcolon] at hcolon'
      rw [← (List.cons.inj hcolon').2] at h'
      obtain ⟨rfl, rfl⟩ := ih _ _ h'
      rw [hcomma] at hrest
      rcases hrest with ⟨-, hr⟩ | ⟨y, hy, hmore'⟩
      · cases hr
      · rw [← (List.cons.inj hy).2] at hmore'
        obtain ⟨rfl, rfl⟩ := ihmore _ _ hmore'
        exact ⟨rfl, rfl⟩

theorem Denotes.unique {d d' : Template α} (h : Denotes holes t d) (h' : Denotes holes t d') : d' = d := by
  obtain ⟨r, hread, -⟩ := h
  obtain ⟨r', hread', -⟩ := h'
  exact (hread.only hb _ _ hread').1

end

end HttpFile.Json
