import HttpFile.Proofs.Json.Scalar

/-!
# `HttpFile.Proofs.Json.Template` — JSON with holes

A body with placeholders is JSON with holes in it: a hole stands where a value or a key may stand, and nothing
is known of what it will be. Reading such a text settles it: a key that comes again replaces the value, at the
place where it came first. Two holes are never the same key, and no hole is the same key as a text.

## Contents
- **Keys.** `Key`, with `Key.same` and `Key.exchange`.
- **Entries.** `put`, `unique`; `unique_map`, `unique_rekey`, `mem_unique`, `pairwise_unique`,
  `unique_of_pairwise`.
- **The type.** `Template`; `Template.structuralInduction`.
- **Leaves.** `leaves`: the holes and the texts, in the order of reading; `holes`, `texts`.
- **Exchanging holes.** `exchange`: for texts or for other holes.
- **Settling.** `settled`, `Distinct`; `settled_settled`, `Distinct.settled_eq`, `settled_exchange`.
- **Stand-ins.** `reading`: characters for the halves in texts; `Template.eq_of_readings`.
- **Values.** `toValue`: data without holes; `toValue_put`.
-/

namespace HttpFile.Json

open Text

/-! ## Keys -/

/-- The key of an entry. -/
inductive Key (α : Type) where
  | hole (a : α)
  | text (t : Wide)

variable {α β γ δ : Type}

namespace Key

/-- Whether two keys are the same one. A hole is the same key as nothing else. -/
def same : Key α → Key α → Bool
  | .text a, .text b => a = b
  | _, _ => false

/-- The key with something else for a hole. -/
def exchange (f : α → Wide ⊕ β) : Key α → Key β
  | .hole a => (f a).elim .text .hole
  | .text t => .text t

/-- The key with characters for the halves in its text. -/
def reading (φ : StandIn) : Key α → Key α
  | .hole a => .hole a
  | .text t => .text (letters (Text.reading φ t))

/-- A key as a hole or a text. -/
def leaf : Key α → α ⊕ Wide
  | .hole a => .inl a
  | .text t => .inr t

theorem same_iff {j k : Key α} : same j k = true ↔ ∃ t, j = .text t ∧ k = .text t := by
  constructor
  · intro h
    cases j <;> cases k <;> simp_all [same]
  · rintro ⟨t, rfl, rfl⟩
    exact decide_eq_true rfl

/-- What becomes a text is that text, or a hole that is exchanged for it. -/
theorem exchange_eq_text {f : α → Wide ⊕ β} {k : Key α} {t : Wide} (h : k.exchange f = .text t) :
    k = .text t ∨ ∃ a, k = .hole a ∧ f a = .inl t := by
  cases k with
  | text u =>
      injection h with h
      exact Or.inl (by rw [h])
  | hole a =>
      refine Or.inr ⟨a, rfl, ?_⟩
      have hf : (f a).elim Key.text Key.hole = .text t := h
      cases hfa : f a with
      | inl u =>
          rw [hfa] at hf
          injection hf with hf
          rw [hf]
      | inr b =>
          rw [hfa] at hf
          cases hf

/-- What reads the same whatever stands in for halves is the same. -/
theorem eq_of_readings {j k : Key α} (h : ∀ φ, j.reading φ = k.reading φ) : j = k := by
  obtain ⟨φ, -, -⟩ := exists_standIns
  cases j with
  | hole a =>
      cases k with
      | hole b => exact h φ
      | text t => cases h φ
  | text s =>
      cases k with
      | hole b => cases h φ
      | text t => exact congrArg Key.text (Text.eq_of_readings fun φ => letters_injective (Key.text.inj (h φ)))

end Key

/-! ## Entries -/

/-- Give a key a value: at the place of the same key if there is one, else at the end. -/
def put : List (Key α × γ) → Key α → γ → List (Key α × γ)
  | [], k, v => [(k, v)]
  | (j, u) :: rest, k, v => if j.same k then (j, v) :: rest else (j, u) :: put rest k v

/-- Entries put one after the other. -/
def putAll (acc entries : List (Key α × γ)) : List (Key α × γ) :=
  entries.foldl (fun acc e => put acc e.1 e.2) acc

/-- Entries with each key once, and its last value. -/
def unique (entries : List (Key α × γ)) : List (Key α × γ) := putAll [] entries

/-- Two entries have different keys. -/
def Apart (e e' : Key α × γ) : Prop := e.1.same e'.1 = false

theorem put_map (g : γ → δ) (entries : List (Key α × γ)) (k : Key α) (v : γ) :
    put (entries.map fun e => (e.1, g e.2)) k (g v) = (put entries k v).map fun e => (e.1, g e.2) := by
  induction entries with
  | nil => rfl
  | cons e rest ih =>
      rw [List.map_cons, put, put]
      split
      · rfl
      · rw [ih, List.map_cons]

theorem putAll_map (g : γ → δ) (acc entries : List (Key α × γ)) :
    putAll (acc.map fun e => (e.1, g e.2)) (entries.map fun e => (e.1, g e.2)) =
      (putAll acc entries).map fun e => (e.1, g e.2) := by
  induction entries generalizing acc with
  | nil => rfl
  | cons e rest ih =>
      rw [List.map_cons]
      show putAll (put _ _ _) _ = _
      rw [put_map, ih]
      rfl

/-- What the values are does not matter for which of them are left. -/
theorem unique_map (g : γ → δ) (entries : List (Key α × γ)) :
    unique (entries.map fun e => (e.1, g e.2)) = (unique entries).map fun e => (e.1, g e.2) :=
  putAll_map g [] entries

theorem put_rekey (κ : Key α → Key β) {entries : List (Key α × γ)} {k : Key α}
    (h : ∀ e ∈ entries, (κ e.1).same (κ k) = e.1.same k) (v : γ) :
    put (entries.map fun e => (κ e.1, e.2)) (κ k) v = (put entries k v).map fun e => (κ e.1, e.2) := by
  induction entries with
  | nil => rfl
  | cons e rest ih =>
      rw [List.map_cons, put, put, h e List.mem_cons_self]
      split
      · rfl
      · rw [ih fun e' he' => h e' (List.mem_cons_of_mem e he'), List.map_cons]

theorem mem_put {entries : List (Key α × γ)} {k : Key α} {v : γ} {e : Key α × γ} (h : e ∈ put entries k v) :
    e ∈ entries ∨ (e.2 = v ∧ (e.1 = k ∨ ∃ u, (e.1, u) ∈ entries)) := by
  induction entries with
  | nil =>
      obtain rfl := List.mem_singleton.mp h
      exact Or.inr ⟨rfl, Or.inl rfl⟩
  | cons e' rest ih =>
      rw [put] at h
      split at h
      · rcases List.mem_cons.mp h with rfl | h
        · exact Or.inr ⟨rfl, Or.inr ⟨e'.2, List.mem_cons_self⟩⟩
        · exact Or.inl (List.mem_cons_of_mem e' h)
      · rcases List.mem_cons.mp h with rfl | h
        · exact Or.inl List.mem_cons_self
        · rcases ih h with h | ⟨hv, hk | ⟨u, hu⟩⟩
          · exact Or.inl (List.mem_cons_of_mem e' h)
          · exact Or.inr ⟨hv, Or.inl hk⟩
          · exact Or.inr ⟨hv, Or.inr ⟨u, List.mem_cons_of_mem e' hu⟩⟩

/-- What is left has a value of the entries and a key of the entries. -/
theorem mem_putAll {acc entries : List (Key α × γ)} {e : Key α × γ} (h : e ∈ putAll acc entries) :
    (∃ k, (k, e.2) ∈ acc ++ entries) ∧ ∃ u, (e.1, u) ∈ acc ++ entries := by
  induction entries generalizing acc with
  | nil =>
      rw [List.append_nil]
      exact ⟨⟨e.1, h⟩, ⟨e.2, h⟩⟩
  | cons e' rest ih =>
      have hput : ∀ {x : Key α × γ}, x ∈ put acc e'.1 e'.2 ++ rest →
          (∃ k, (k, x.2) ∈ acc ++ e' :: rest) ∧ ∃ u, (x.1, u) ∈ acc ++ e' :: rest := by
        intro x hx
        rcases List.mem_append.mp hx with hx | hx
        · rcases mem_put hx with hx | ⟨hv, hk⟩
          · exact ⟨⟨x.1, List.mem_append_left _ hx⟩, ⟨x.2, List.mem_append_left _ hx⟩⟩
          · refine ⟨⟨e'.1, by rw [hv]; simp⟩, ?_⟩
            rcases hk with hk | ⟨u, hu⟩
            · exact ⟨e'.2, by rw [hk]; simp⟩
            · exact ⟨u, List.mem_append_left _ hu⟩
        · exact ⟨⟨x.1, by simp [hx]⟩, ⟨x.2, by simp [hx]⟩⟩
      obtain ⟨⟨k, hk⟩, ⟨u, hu⟩⟩ := ih h
      exact ⟨(hput hk).1, (hput hu).2⟩

theorem mem_unique {entries : List (Key α × γ)} {e : Key α × γ} (h : e ∈ unique entries) :
    (∃ k, (k, e.2) ∈ entries) ∧ ∃ u, (e.1, u) ∈ entries := mem_putAll h

theorem putAll_rekey (κ : Key α → Key β) {acc entries : List (Key α × γ)}
    (hacc : ∀ e ∈ acc, ∀ e' ∈ entries, (κ e.1).same (κ e'.1) = e.1.same e'.1)
    (h : entries.Pairwise fun e e' => (κ e.1).same (κ e'.1) = e.1.same e'.1) :
    putAll (acc.map fun e => (κ e.1, e.2)) (entries.map fun e => (κ e.1, e.2)) =
      (putAll acc entries).map fun e => (κ e.1, e.2) := by
  induction entries generalizing acc with
  | nil => rfl
  | cons e rest ih =>
      obtain ⟨he, hrest⟩ := List.pairwise_cons.mp h
      rw [List.map_cons]
      show putAll (put _ _ _) _ = (putAll (put _ _ _) _).map _
      rw [put_rekey κ fun x hx => hacc x hx e List.mem_cons_self]
      refine ih (fun x hx e' he' => ?_) hrest
      rcases mem_put hx with hx | ⟨-, hk | ⟨u, hu⟩⟩
      · exact hacc x hx e' (List.mem_cons_of_mem e he')
      · rw [hk]
        exact he e' he'
      · exact hacc (x.1, u) hu e' (List.mem_cons_of_mem e he')

/-- Other keys for the same entries, if the same ones of them are the same. -/
theorem unique_rekey (κ : Key α → Key β) {entries : List (Key α × γ)}
    (h : entries.Pairwise fun e e' => (κ e.1).same (κ e'.1) = e.1.same e'.1) :
    unique (entries.map fun e => (κ e.1, e.2)) = (unique entries).map fun e => (κ e.1, e.2) :=
  have hacc : ∀ e ∈ ([] : List (Key α × γ)), ∀ e' ∈ entries, (κ e.1).same (κ e'.1) = e.1.same e'.1 := by simp
  putAll_rekey κ hacc h

theorem pairwise_put {entries : List (Key α × γ)} (h : entries.Pairwise Apart) (k : Key α) (v : γ) :
    (put entries k v).Pairwise Apart := by
  induction entries with
  | nil => exact List.pairwise_singleton _ _
  | cons e rest ih =>
      obtain ⟨he, hrest⟩ := List.pairwise_cons.mp h
      rw [put]
      split
      · exact List.pairwise_cons.mpr ⟨he, hrest⟩
      · next hsame =>
          refine List.pairwise_cons.mpr ⟨fun x hx => ?_, ih hrest⟩
          rcases mem_put hx with hx | ⟨-, hk | ⟨u, hu⟩⟩
          · exact he x hx
          · rw [Apart, hk]
            simpa using hsame
          · exact he (x.1, u) hu

theorem pairwise_putAll {acc : List (Key α × γ)} (h : acc.Pairwise Apart) (entries : List (Key α × γ)) :
    (putAll acc entries).Pairwise Apart := by
  induction entries generalizing acc with
  | nil => exact h
  | cons e rest ih => exact ih (pairwise_put h e.1 e.2)

/-- The keys that are left are different. -/
theorem pairwise_unique (entries : List (Key α × γ)) : (unique entries).Pairwise Apart :=
  pairwise_putAll List.Pairwise.nil entries

theorem put_of_apart {entries : List (Key α × γ)} {k : Key α} {v : γ} (h : ∀ e ∈ entries, Apart e (k, v)) :
    put entries k v = entries ++ [(k, v)] := by
  induction entries with
  | nil => rfl
  | cons e rest ih =>
      have he : e.1.same k = false := h e List.mem_cons_self
      rw [put, he, if_neg (by decide), ih fun e' he' => h e' (List.mem_cons_of_mem e he'), List.cons_append]

theorem putAll_of_pairwise {acc entries : List (Key α × γ)} (h : (acc ++ entries).Pairwise Apart) :
    putAll acc entries = acc ++ entries := by
  induction entries generalizing acc with
  | nil => exact (List.append_nil acc).symm
  | cons e rest ih =>
      have hput := put_of_apart fun x hx => (List.pairwise_append.mp h).2.2 x hx e List.mem_cons_self
      show putAll (put acc e.1 e.2) rest = _
      rw [hput, ih (by simpa using h), List.append_assoc, List.singleton_append]

/-- Different keys are all left. -/
theorem unique_of_pairwise {entries : List (Key α × γ)} (h : entries.Pairwise Apart) : unique entries = entries :=
  putAll_of_pairwise h

theorem unique_unique (entries : List (Key α × γ)) : unique (unique entries) = unique entries :=
  unique_of_pairwise (pairwise_unique entries)

theorem key_mem_put {entries : List (Key α × γ)} {j k : Key α} (v : γ)
    (h : (∃ u, (j, u) ∈ entries) ∨ j = k) : ∃ u, (j, u) ∈ put entries k v := by
  induction entries with
  | nil =>
      rcases h with ⟨u, hu⟩ | rfl
      · simp at hu
      · exact ⟨v, List.mem_singleton.mpr rfl⟩
  | cons e rest ih =>
      rw [put]
      split
      · next hsame =>
          obtain ⟨t, he, hk⟩ := Key.same_iff.mp hsame
          rcases h with ⟨u, hu⟩ | rfl
          · rcases List.mem_cons.mp hu with rfl | hu
            · exact ⟨v, List.mem_cons_self⟩
            · exact ⟨u, List.mem_cons_of_mem _ hu⟩
          · exact ⟨v, by simp [he, hk]⟩
      · rcases h with ⟨u, hu⟩ | rfl
        · rcases List.mem_cons.mp hu with rfl | hu
          · exact ⟨u, List.mem_cons_self⟩
          · obtain ⟨u', hu'⟩ := ih (Or.inl ⟨u, hu⟩)
            exact ⟨u', List.mem_cons_of_mem _ hu'⟩
        · obtain ⟨u', hu'⟩ := ih (Or.inr rfl)
          exact ⟨u', List.mem_cons_of_mem _ hu'⟩

/-- No key is lost. -/
theorem key_mem_unique {entries : List (Key α × γ)} {e : Key α × γ} (h : e ∈ entries) :
    ∃ u, (e.1, u) ∈ unique entries := by
  have hall : ∀ acc : List (Key α × γ), ((∃ u, (e.1, u) ∈ acc) ∨ e ∈ entries) →
      ∃ u, (e.1, u) ∈ putAll acc entries := by
    clear h
    induction entries with
    | nil => exact fun acc h => h.resolve_right List.not_mem_nil
    | cons e' rest ih =>
        intro acc h
        refine ih (put acc e'.1 e'.2) ?_
        rcases h with h | h
        · exact Or.inl (key_mem_put e'.2 (Or.inl h))
        · rcases List.mem_cons.mp h with rfl | h
          · exact Or.inl (key_mem_put _ (Or.inr rfl))
          · exact Or.inr h
  exact hall [] (Or.inr h)

/-! ## The type -/

/-- JSON with holes. Entries stand as they are read. -/
inductive Template (α : Type) where
  | hole (a : α)
  | text (t : Wide)
  | scalar (s : Scalar)
  | list (items : List (Template α))
  | dict (entries : List (Key α × Template α))

namespace Template

/-- A property holds of a template if it holds of every one whose parts have it. -/
@[elab_as_elim]
theorem structuralInduction {motive : Template α → Prop} (hole : ∀ a, motive (.hole a))
    (text : ∀ t, motive (.text t)) (scalar : ∀ s, motive (.scalar s))
    (list : ∀ items, (∀ d ∈ items, motive d) → motive (.list items))
    (dict : ∀ entries, (∀ e ∈ entries, motive e.2) → motive (.dict entries)) (d : Template α) : motive d :=
  @Template.rec α motive (fun items => ∀ d ∈ items, motive d) (fun entries => ∀ e ∈ entries, motive e.2)
    (fun e => motive e.2) hole text scalar list dict (by simp)
    (fun _ _ hd hds => List.forall_mem_cons.mpr ⟨hd, hds⟩) (by simp)
    (fun _ _ he hes => List.forall_mem_cons.mpr ⟨he, hes⟩) (fun _ _ hd => hd) d

/-! ## Leaves -/

mutual
/-- The holes and the texts of a template. -/
def leaves : Template α → List (α ⊕ Wide)
  | .hole a => [.inl a]
  | .text t => [.inr t]
  | .scalar _ => []
  | .list items => leavesItems items
  | .dict entries => leavesEntries entries

/-- The leaves of items. -/
def leavesItems : List (Template α) → List (α ⊕ Wide)
  | [] => []
  | d :: rest => leaves d ++ leavesItems rest

/-- The leaves of entries. -/
def leavesEntries : List (Key α × Template α) → List (α ⊕ Wide)
  | [] => []
  | (k, d) :: rest => k.leaf :: leaves d ++ leavesEntries rest
end

/-- The holes of a template. -/
def holes (d : Template α) : List α := d.leaves.filterMap Sum.getLeft?

/-- The texts of a template, keys among them. -/
def texts (d : Template α) : List Wide := d.leaves.filterMap Sum.getRight?

theorem leavesItems_eq (items : List (Template α)) : leavesItems items = items.flatMap leaves := by
  induction items with
  | nil => rfl
  | cons d rest ih => rw [leavesItems, ih, List.flatMap_cons]

theorem leavesEntries_eq (entries : List (Key α × Template α)) :
    leavesEntries entries = entries.flatMap fun e => e.1.leaf :: e.2.leaves := by
  induction entries with
  | nil => rfl
  | cons e rest ih => rw [leavesEntries, ih, List.flatMap_cons]

theorem mem_holes {d : Template α} {a : α} : a ∈ d.holes ↔ .inl a ∈ d.leaves := by
  simp [holes, Sum.getLeft?_eq_some_iff]

theorem mem_texts {d : Template α} {t : Wide} : t ∈ d.texts ↔ .inr t ∈ d.leaves := by
  simp [texts, Sum.getRight?_eq_some_iff]

theorem mem_leaves_list {items : List (Template α)} {x : α ⊕ Wide} :
    x ∈ (Template.list items).leaves ↔ ∃ d ∈ items, x ∈ d.leaves := by
  rw [leaves, leavesItems_eq, List.mem_flatMap]

theorem mem_leaves_dict {entries : List (Key α × Template α)} {x : α ⊕ Wide} :
    x ∈ (Template.dict entries).leaves ↔ ∃ e ∈ entries, x = e.1.leaf ∨ x ∈ e.2.leaves := by
  rw [leaves, leavesEntries_eq, List.mem_flatMap]
  simp only [List.mem_cons]

/-! ## Exchanging holes -/

mutual
/-- The template with something else for each hole. -/
def exchange (f : α → Wide ⊕ β) : Template α → Template β
  | .hole a => (f a).elim .text .hole
  | .text t => .text t
  | .scalar s => .scalar s
  | .list items => .list (exchangeItems f items)
  | .dict entries => .dict (exchangeEntries f entries)

/-- Items with something else for each hole. -/
def exchangeItems (f : α → Wide ⊕ β) : List (Template α) → List (Template β)
  | [] => []
  | d :: rest => exchange f d :: exchangeItems f rest

/-- Entries with something else for each hole. -/
def exchangeEntries (f : α → Wide ⊕ β) : List (Key α × Template α) → List (Key β × Template β)
  | [] => []
  | (k, d) :: rest => (k.exchange f, exchange f d) :: exchangeEntries f rest
end

theorem exchangeItems_eq (f : α → Wide ⊕ β) (items : List (Template α)) :
    exchangeItems f items = items.map (exchange f) := by
  induction items with
  | nil => rfl
  | cons d rest ih => rw [exchangeItems, ih, List.map_cons]

theorem exchangeEntries_eq (f : α → Wide ⊕ β) (entries : List (Key α × Template α)) :
    exchangeEntries f entries = entries.map fun e => (e.1.exchange f, e.2.exchange f) := by
  induction entries with
  | nil => rfl
  | cons e rest ih => rw [exchangeEntries, ih, List.map_cons]

/-- The template with other holes. -/
def map (f : α → β) (d : Template α) : Template β := d.exchange fun a => .inr (f a)

/-- The template with a text for each hole. -/
def plain (name : α → Text) (d : Template α) : Template Empty := d.exchange fun a => .inl (letters (name a))

/-! ## Settling -/

mutual
/-- The template with each key once in its entries, at its first place and with its last value. -/
def settled : Template α → Template α
  | .hole a => .hole a
  | .text t => .text t
  | .scalar s => .scalar s
  | .list items => .list (settledItems items)
  | .dict entries => .dict (unique (settledEntries entries))

/-- Items, each one settled. -/
def settledItems : List (Template α) → List (Template α)
  | [] => []
  | d :: rest => settled d :: settledItems rest

/-- Entries, each value settled. -/
def settledEntries : List (Key α × Template α) → List (Key α × Template α)
  | [] => []
  | (k, d) :: rest => (k, settled d) :: settledEntries rest
end

theorem settledItems_eq (items : List (Template α)) : settledItems items = items.map settled := by
  induction items with
  | nil => rfl
  | cons d rest ih => rw [settledItems, ih, List.map_cons]

theorem settledEntries_eq (entries : List (Key α × Template α)) :
    settledEntries entries = entries.map fun e => (e.1, e.2.settled) := by
  induction entries with
  | nil => rfl
  | cons e rest ih => rw [settledEntries, ih, List.map_cons]

theorem settled_list (items : List (Template α)) :
    (Template.list items).settled = .list (items.map settled) := by
  rw [settled, settledItems_eq]

theorem settled_dict (entries : List (Key α × Template α)) :
    (Template.dict entries).settled = .dict ((unique entries).map fun e => (e.1, e.2.settled)) := by
  rw [settled, settledEntries_eq, unique_map settled]

/-- Settling a second time changes nothing. -/
theorem settled_settled (d : Template α) : d.settled.settled = d.settled := by
  induction d using structuralInduction with
  | hole => rfl
  | text => rfl
  | scalar => rfl
  | list items ih =>
      rw [settled_list, settled_list, List.map_map]
      congr 1
      exact List.map_congr_left ih
  | dict entries ih =>
      rw [settled_dict, settled_dict, unique_map settled, unique_unique, List.map_map]
      congr 1
      refine List.map_congr_left fun e he => ?_
      obtain ⟨⟨k, hk⟩, -⟩ := mem_unique he
      exact Prod.ext rfl (ih (k, e.2) hk)

/-- No key comes again among the entries of one object. -/
inductive Distinct : Template α → Prop
  | hole (a : α) : Distinct (.hole a)
  | text (t : Wide) : Distinct (.text t)
  | scalar (s : Scalar) : Distinct (.scalar s)
  | list {items : List (Template α)} (hitems : ∀ d ∈ items, Distinct d) : Distinct (.list items)
  | dict {entries : List (Key α × Template α)} (hkeys : entries.Pairwise Apart)
      (hvalues : ∀ e ∈ entries, Distinct e.2) : Distinct (.dict entries)

/-- Where no key comes again there is nothing to settle. -/
theorem Distinct.settled_eq {d : Template α} (h : d.Distinct) : d.settled = d := by
  induction h with
  | hole => rfl
  | text => rfl
  | scalar => rfl
  | list hitems ih =>
      rw [settled_list]
      congr 1
      exact (List.map_congr_left ih).trans (List.map_id _)
  | @dict entries hkeys hvalues ih =>
      rw [settled_dict, unique_of_pairwise hkeys]
      congr 1
      have hsame : ∀ e ∈ entries, (e.1, e.2.settled) = id e := fun e he => Prod.ext rfl (ih e he)
      exact (List.map_congr_left hsame).trans (List.map_id _)

/-- The leaves of a settled template are leaves of the template. -/
theorem leaves_settled_subset (d : Template α) : d.settled.leaves ⊆ d.leaves := by
  induction d using structuralInduction with
  | hole => exact List.Subset.refl _
  | text => exact List.Subset.refl _
  | scalar => exact List.Subset.refl _
  | list items ih =>
      intro x hx
      rw [settled_list, mem_leaves_list] at hx
      obtain ⟨d', hd', hx⟩ := hx
      obtain ⟨d, hd, rfl⟩ := List.mem_map.mp hd'
      exact mem_leaves_list.mpr ⟨d, hd, ih d hd hx⟩
  | dict entries ih =>
      intro x hx
      rw [settled_dict, mem_leaves_dict] at hx
      obtain ⟨e', he', hx⟩ := hx
      obtain ⟨e, he, rfl⟩ := List.mem_map.mp he'
      obtain ⟨⟨k, hk⟩, ⟨u, hu⟩⟩ := mem_unique he
      rcases hx with rfl | hx
      · exact mem_leaves_dict.mpr ⟨(e.1, u), hu, Or.inl rfl⟩
      · exact mem_leaves_dict.mpr ⟨(k, e.2), hk, Or.inr (ih _ hk hx)⟩

/-- Two holes are not exchanged for the same text. -/
def Differ (f : α → Wide ⊕ β) (a b : α) : Prop := ∀ t, f a = .inl t → f b ≠ .inl t

theorem same_exchange {f : α → Wide ⊕ β} {j k : Key α}
    (hholes : ∀ a b, j = .hole a → k = .hole b → Differ f a b)
    (hleft : ∀ a t, j = .hole a → k = .text t → f a ≠ .inl t)
    (hright : ∀ t b, j = .text t → k = .hole b → f b ≠ .inl t) :
    (j.exchange f).same (k.exchange f) = j.same k := by
  rw [Bool.eq_iff_iff]
  constructor
  · intro h
    obtain ⟨t, hj, hk⟩ := Key.same_iff.mp h
    rcases Key.exchange_eq_text hj with rfl | ⟨a, rfl, ha⟩ <;>
      rcases Key.exchange_eq_text hk with rfl | ⟨b, rfl, hb⟩
    · exact Key.same_iff.mpr ⟨t, rfl, rfl⟩
    · exact absurd hb (hright t b rfl rfl)
    · exact absurd ha (hleft a t rfl rfl)
    · exact absurd hb (hholes a b rfl rfl t ha)
  · intro h
    obtain ⟨t, rfl, rfl⟩ := Key.same_iff.mp h
    exact Key.same_iff.mpr ⟨t, rfl, rfl⟩

theorem pairwise_holes {R : α → α → Prop} {d : Template α} :
    d.holes.Pairwise R ↔ d.leaves.Pairwise fun x y => ∀ a b, x = .inl a → y = .inl b → R a b := by
  unfold holes
  rw [List.pairwise_filterMap]
  simp only [Sum.getLeft?_eq_some_iff]
  exact ⟨fun h => h.imp fun hxy a b ha hb => hxy a ha b hb, fun h => h.imp fun hxy a ha b hb => hxy a b ha hb⟩

/-- **Exchanging holes and settling go together**, if the texts for the holes are different, and none of them is
    a text of what is left. -/
theorem settled_exchange {f : α → Wide ⊕ β} {d : Template α} (hdiffer : d.holes.Pairwise (Differ f))
    (hfresh : ∀ a ∈ d.holes, ∀ t ∈ d.settled.texts, f a ≠ .inl t) :
    (d.exchange f).settled = d.settled.exchange f := by
  induction d using structuralInduction with
  | hole a =>
      show ((f a).elim Template.text Template.hole).settled = (f a).elim Template.text Template.hole
      cases f a <;> rfl
  | text => rfl
  | scalar => rfl
  | list items ih =>
      rw [pairwise_holes, leaves, leavesItems_eq, List.pairwise_flatMap] at hdiffer
      rw [exchange, exchangeItems_eq, settled_list, settled_list, exchange, exchangeItems_eq, List.map_map,
        List.map_map]
      congr 1
      refine List.map_congr_left fun d hd => ih d hd ?_ fun a ha t ht => ?_
      · exact pairwise_holes.mpr (hdiffer.1 d hd)
      · refine hfresh a (mem_holes.mpr (mem_leaves_list.mpr ⟨d, hd, mem_holes.mp ha⟩)) t ?_
        rw [mem_texts, settled_list, mem_leaves_list]
        exact ⟨d.settled, List.mem_map_of_mem hd, mem_texts.mp ht⟩
  | dict entries ih =>
      rw [pairwise_holes, leaves, leavesEntries_eq, List.pairwise_flatMap] at hdiffer
      -- a text key is left, so no hole is exchanged for it
      have hkey : ∀ e ∈ entries, ∀ t, e.1 = .text t → ∀ a ∈ (Template.dict entries).holes, f a ≠ .inl t := by
        intro e he t ht a ha
        obtain ⟨u, hu⟩ := key_mem_unique he
        refine hfresh a ha t ?_
        rw [mem_texts, settled_dict, mem_leaves_dict]
        exact ⟨(e.1, u.settled), List.mem_map_of_mem hu, Or.inl (by rw [ht]; rfl)⟩
      have hhole : ∀ e ∈ entries, ∀ a, e.1 = .hole a → a ∈ (Template.dict entries).holes := by
        intro e he a ha
        exact mem_holes.mpr (mem_leaves_dict.mpr ⟨e, he, Or.inl (by rw [ha]; rfl)⟩)
      have hkeys : (entries.map fun e => (e.1, e.2.exchange f)).Pairwise fun e e' =>
          (e.1.exchange f).same (e'.1.exchange f) = e.1.same e'.1 := by
        rw [List.pairwise_map]
        refine (List.Pairwise.and_mem.mp hdiffer.2).imp fun {e e'} ⟨he, he', hee'⟩ => same_exchange ?_ ?_ ?_
        · intro a b ha hb
          exact hee' _ List.mem_cons_self _ List.mem_cons_self a b (by rw [ha]; rfl) (by rw [hb]; rfl)
        · exact fun a t ha ht => hkey e' he' t ht a (hhole e he a ha)
        · exact fun t b ht hb => hkey e he t ht b (hhole e' he' b hb)
      -- keys are the same after exchanging exactly if they were before, so the same entries are
      -- dropped
      have hrekey := unique_rekey (Key.exchange f) hkeys
      rw [List.map_map, unique_map (exchange f), List.map_map] at hrekey
      rw [exchange, exchangeEntries_eq, settled_dict, settled_dict, exchange, exchangeEntries_eq]
      congr 1
      refine (congrArg (List.map _) hrekey).trans ?_
      rw [List.map_map, List.map_map]
      refine List.map_congr_left fun e he => ?_
      obtain ⟨⟨k, hk⟩, -⟩ := mem_unique he
      refine Prod.ext rfl (ih (k, e.2) hk ?_ fun a ha t ht => ?_)
      · exact pairwise_holes.mpr (List.pairwise_cons.mp (hdiffer.1 _ hk)).2
      · refine hfresh a (mem_holes.mpr (mem_leaves_dict.mpr ⟨_, hk, Or.inr (mem_holes.mp ha)⟩)) t ?_
        rw [mem_texts, settled_dict, mem_leaves_dict]
        exact ⟨(e.1, e.2.settled), List.mem_map_of_mem he, Or.inr (mem_texts.mp ht)⟩

/-- Other holes settle the same way. -/
theorem settled_map (f : α → β) (d : Template α) : (d.map f).settled = d.settled.map f :=
  settled_exchange (List.pairwise_of_forall fun _ _ _ h => absurd h (by simp)) fun _ _ _ _ => by simp

theorem leaves_map (f : α → β) (d : Template α) : (d.map f).leaves = d.leaves.map (Sum.map f id) := by
  unfold map
  induction d using structuralInduction with
  | hole => rfl
  | text => rfl
  | scalar => rfl
  | list items ih =>
      rw [exchange, exchangeItems_eq, leaves, leavesItems_eq, leaves, leavesItems_eq, List.flatMap_map,
        List.map_flatMap]
      exact List.flatMap_congr ih
  | dict entries ih =>
      rw [exchange, exchangeEntries_eq, leaves, leavesEntries_eq, leaves, leavesEntries_eq, List.flatMap_map,
        List.map_flatMap]
      refine List.flatMap_congr fun e he => ?_
      rw [List.map_cons, ← ih e he]
      cases e.1 <;> rfl

theorem texts_map (f : α → β) (d : Template α) : (d.map f).texts = d.texts := by
  unfold texts
  rw [leaves_map, List.filterMap_map]
  congr 1
  funext x
  cases x <;> rfl

theorem holes_map (f : α → β) (d : Template α) : (d.map f).holes = d.holes.map f := by
  unfold holes
  rw [leaves_map, List.filterMap_map, List.map_filterMap]
  congr 1
  funext x
  cases x <;> rfl

/-! ## Stand-ins -/

mutual
/-- The template with characters for the halves in its texts. -/
def reading (φ : StandIn) : Template α → Template α
  | .hole a => .hole a
  | .text t => .text (letters (Text.reading φ t))
  | .scalar s => .scalar s
  | .list items => .list (readingItems φ items)
  | .dict entries => .dict (readingEntries φ entries)

/-- Items with characters for halves. -/
def readingItems (φ : StandIn) : List (Template α) → List (Template α)
  | [] => []
  | d :: rest => reading φ d :: readingItems φ rest

/-- Entries with characters for halves. -/
def readingEntries (φ : StandIn) : List (Key α × Template α) → List (Key α × Template α)
  | [] => []
  | (k, d) :: rest => (k.reading φ, reading φ d) :: readingEntries φ rest
end

section
variable (φ : StandIn)

theorem reading_list (items : List (Template α)) :
    (Template.list items).reading φ = .list (items.map (reading φ)) := by
  rw [reading]
  congr 1
  induction items with
  | nil => rfl
  | cons d rest ih => rw [readingItems, ih, List.map_cons]

theorem reading_dict (entries : List (Key α × Template α)) :
    (Template.dict entries).reading φ = .dict (entries.map fun e => (e.1.reading φ, e.2.reading φ)) := by
  rw [reading]
  congr 1
  induction entries with
  | nil => rfl
  | cons e rest ih => rw [readingEntries, ih, List.map_cons]

theorem leaf_reading (k : Key α) :
    (k.reading φ).leaf = k.leaf.map id fun t => letters (Text.reading φ t) := by
  cases k <;> rfl

theorem leaves_reading (d : Template α) :
    (d.reading φ).leaves = d.leaves.map (Sum.map id fun t => letters (Text.reading φ t)) := by
  induction d using structuralInduction with
  | hole => rfl
  | text => rfl
  | scalar => rfl
  | list items ih =>
      rw [reading_list, leaves, leavesItems_eq, leaves, leavesItems_eq, List.flatMap_map, List.map_flatMap]
      exact List.flatMap_congr ih
  | dict entries ih =>
      rw [reading_dict, leaves, leavesEntries_eq, leaves, leavesEntries_eq, List.flatMap_map, List.map_flatMap]
      refine List.flatMap_congr fun e he => ?_
      rw [List.map_cons, ← ih e he, leaf_reading]

/-- No text has a half left in it. -/
theorem mem_texts_reading {d : Template α} {t : Wide} (h : t ∈ (d.reading φ).texts) : ∃ s, t = letters s := by
  rw [mem_texts, leaves_reading] at h
  obtain ⟨x, -, hxt⟩ := List.mem_map.mp h
  cases x with
  | inl b => cases hxt
  | inr s => exact ⟨_, (Sum.inr.inj hxt).symm⟩

/-- Texts without halves are read as they are. -/
theorem reading_of_letters {d : Template α} (h : ∀ t ∈ d.texts, ∃ s, t = letters s) : d.reading φ = d := by
  induction d using structuralInduction with
  | hole => rfl
  | text t =>
      obtain ⟨s, rfl⟩ := h t (mem_texts.mpr List.mem_cons_self)
      rw [reading, reading_letters]
  | scalar => rfl
  | list items ih =>
      have hitems : ∀ d ∈ items, d.reading φ = id d := fun d hd =>
        ih d hd fun t ht => h t (mem_texts.mpr (mem_leaves_list.mpr ⟨d, hd, mem_texts.mp ht⟩))
      rw [reading_list, List.map_congr_left hitems, List.map_id]
  | dict entries ih =>
      have hentries : ∀ e ∈ entries, (e.1.reading φ, e.2.reading φ) = id e := by
        intro e he
        refine Prod.ext ?_ (ih e he fun t ht =>
          h t (mem_texts.mpr (mem_leaves_dict.mpr ⟨e, he, Or.inr (mem_texts.mp ht)⟩)))
        cases hk : e.1 with
        | hole a => exact hk.symm
        | text t =>
            obtain ⟨s, rfl⟩ := h t (mem_texts.mpr (mem_leaves_dict.mpr ⟨e, he, Or.inl (by rw [hk]; rfl)⟩))
            show Key.text (letters (Text.reading φ (letters s))) = e.1
            rw [reading_letters, hk]
      rw [reading_dict, List.map_congr_left hentries, List.map_id]

theorem reading_reading (d : Template α) : (d.reading φ).reading φ = d.reading φ :=
  reading_of_letters φ fun _ ht => mem_texts_reading φ ht

end

theorem eq_of_map_readings {γ : Type} {f : StandIn → γ → γ} {xs ys : List γ}
    (hmaps : ∀ φ, xs.map (f φ) = ys.map (f φ)) (hxs : ∀ x ∈ xs, ∀ y, (∀ φ, f φ x = f φ y) → x = y) : xs = ys := by
  obtain ⟨φ, -, -⟩ := exists_standIns
  induction xs generalizing ys with
  | nil => exact (List.map_eq_nil_iff.mp (hmaps φ).symm).symm
  | cons x xs ih =>
      cases ys with
      | nil => cases hmaps φ
      | cons y ys =>
          have hhead := hxs x List.mem_cons_self y fun φ => (List.cons.inj (hmaps φ)).1
          have htail := ih (fun φ => (List.cons.inj (hmaps φ)).2) fun z hz => hxs z (List.mem_cons_of_mem x hz)
          rw [hhead, htail]

/-- **Templates that read the same, whatever stands in for halves, are the same.** -/
theorem eq_of_readings {d e : Template α} (h : ∀ φ, d.reading φ = e.reading φ) : d = e := by
  obtain ⟨φ, -, -⟩ := exists_standIns
  induction d using structuralInduction generalizing e with
  | hole a =>
      cases e with
      | hole b => exact h φ
      | _ => cases h φ
  | text s =>
      cases e with
      | text t => exact congrArg Template.text (Text.eq_of_readings fun φ => letters_injective (Template.text.inj (h φ)))
      | _ => cases h φ
  | scalar s =>
      cases e with
      | scalar t => exact h φ
      | _ => cases h φ
  | list items ih =>
      cases e with
      | list items' =>
          congr 1
          refine eq_of_map_readings (f := reading) (fun φ => ?_) fun d hd e hde => ih d hd hde
          have hφ := h φ
          rw [reading_list, reading_list] at hφ
          exact Template.list.inj hφ
      | _ => cases h φ
  | dict entries ih =>
      cases e with
      | dict entries' =>
          congr 1
          refine eq_of_map_readings (f := fun φ (e : Key α × Template α) => (e.1.reading φ, e.2.reading φ))
            (fun φ => ?_) fun x hx y hxy => ?_
          · have hφ := h φ
            rw [reading_dict, reading_dict] at hφ
            exact Template.dict.inj hφ
          · exact Prod.ext (Key.eq_of_readings fun φ => congrArg Prod.fst (hxy φ))
              (ih x hx fun φ => congrArg Prod.snd (hxy φ))
      | _ => cases h φ

/-! ## Values -/

mutual
/-- A template without holes as data. -/
def toValue : Template Empty → Value
  | .text t => .ofWide t
  | .scalar s => s.val
  | .list items => .list (toValues items)
  | .dict entries => .dict (toPairs entries)

/-- Items as data. -/
def toValues : List (Template Empty) → List Value
  | [] => []
  | d :: rest => toValue d :: toValues rest

/-- Entries as data. -/
def toPairs : List (Key Empty × Template Empty) → List (Value × Value)
  | [] => []
  | (.text t, d) :: rest => (.ofWide t, toValue d) :: toPairs rest
end

@[simp] theorem ofWide_letters (t : Text) : Value.ofWide (letters t) = .str t := by
  unfold Value.ofWide
  rw [text?_letters]

/-- Wide texts are the same key exactly if they are the same. -/
theorem sameKey_ofWide (u t : Wide) : Value.sameKey (.ofWide u) (.ofWide t) = decide (u = t) := by
  unfold Value.ofWide
  cases hu : Word.text? u with
  | none =>
      cases ht : Word.text? t with
      | none => rw [Value.sameKey]
      | some t' =>
          have hne : u ≠ t := by
            rintro rfl
            rw [hu] at ht
            cases ht
          rw [decide_eq_false hne]
          rfl
  | some u' =>
      obtain rfl := text?_eq_some.mp hu
      cases ht : Word.text? t with
      | none =>
          have hne : letters u' ≠ t := by
            rintro rfl
            rw [hu] at ht
            cases ht
          rw [decide_eq_false hne]
          rfl
      | some t' =>
          obtain rfl := text?_eq_some.mp ht
          rw [Value.sameKey, Bool.eq_iff_iff, beq_iff_eq, decide_eq_true_eq, letters_injective.eq_iff]

/-- Putting an entry is the same before and after. -/
theorem toPairs_put (entries : List (Key Empty × Template Empty)) (t : Wide) (d : Template Empty) :
    toPairs (put entries (.text t) d) = Value.put (toPairs entries) (.ofWide t) d.toValue := by
  induction entries with
  | nil => rfl
  | cons e rest ih =>
      obtain ⟨k, v⟩ := e
      cases k with
      | hole a => exact a.elim
      | text u =>
          rw [put, toPairs, Value.put]
          have hsame : Value.sameKey (.ofWide u) (.ofWide t) = (Key.text (α := Empty) u).same (.text t) :=
            sameKey_ofWide u t
          rw [hsame]
          split
          · rw [toPairs]
          · rw [toPairs, ih]

end Template

end HttpFile.Json
