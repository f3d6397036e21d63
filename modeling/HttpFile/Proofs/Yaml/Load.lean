import HttpFile.Proofs.Yaml.Node
import HttpFile.Yaml.Load
import Mathlib.Data.Option.Basic

/-!
# `HttpFile.Proofs.Yaml.Load` — how the building of a value fails

Merging changes the entries of mappings and makes texts of keys that stand for a default value. It changes nothing else
about the nodes of a document, so a scalar that is no value of its type is one of the document's own scalars. The only
other nodes at which building fails for more than a malformed text are mappings that are tagged as scalars.

## Contents
- **Merging.** `Node.Becomes`, `Rewritten`; `ends_mergeFrom`: merging rewrites nodes.
- **Unfit nodes.** `Unfit`, `ends_leafValue`.
- **Building.** `Builds`, with one lemma for each part of the work; `ends_build`.
- **Texts.** `Lapse`, `ends_load`.
-/

namespace HttpFile.Yaml

open Text

/-! ## Merging -/

/-- A type as merging leaves it. -/
def Tag.Becomes (t t' : Tag) : Prop := t' = t ∨ t = .value ∧ t' = .str

theorem Tag.Becomes.trans {t t' t'' : Tag} (h : t.Becomes t') (h' : t'.Becomes t'') : t.Becomes t'' := by
  rcases h with rfl | ⟨rfl, rfl⟩
  · exact h'
  · rcases h' with rfl | ⟨hvalue, -⟩
    · exact .inr ⟨rfl, rfl⟩
    · exact absurd hvalue (by decide)

/-- A node as merging leaves it: a mapping may have other entries. -/
inductive Node.Becomes : Node → Node → Prop
  | scalar {t t' : Tag} {content : Content} (tag : t.Becomes t') : Becomes (.scalar t content) (.scalar t' content)
  | sequence {t t' : Tag} {items : List Nat} (tag : t.Becomes t') : Becomes (.sequence t items) (.sequence t' items)
  | mapping {t t' : Tag} {es es' : List (Nat × Nat)} (tag : t.Becomes t') : Becomes (.mapping t es) (.mapping t' es')

theorem Node.Becomes.refl (n : Node) : n.Becomes n := by
  cases n with
  | scalar t content => exact .scalar (.inl rfl)
  | sequence t items => exact .sequence (.inl rfl)
  | mapping t es => exact .mapping (.inl rfl)

theorem Node.Becomes.trans {a b c : Node} (h : a.Becomes b) (h' : b.Becomes c) : a.Becomes c := by
  cases h with
  | scalar tag => cases h' with | scalar tag' => exact .scalar (tag.trans tag')
  | sequence tag => cases h' with | sequence tag' => exact .sequence (tag.trans tag')
  | mapping tag => cases h' with | mapping tag' => exact .mapping (tag.trans tag')

theorem Node.becomes_text {n : Node} (h : n.tag = .value) : n.Becomes (n.withTag .str) := by
  cases n with
  | scalar t content => exact .scalar (.inr ⟨h, rfl⟩)
  | sequence t items => exact .sequence (.inr ⟨h, rfl⟩)
  | mapping t es => exact .mapping (.inr ⟨h, rfl⟩)

/-- The second graph is the first one as merging leaves it. -/
def Rewritten (g₀ g : Graph) : Prop := ∀ n : Nat, Option.Rel Node.Becomes g₀[n]? g[n]?

variable {g₀ g : Graph}

theorem Rewritten.refl (g : Graph) : Rewritten g g := fun n => by
  cases g[n]? with
  | none => exact .none
  | some node => exact .some (Node.Becomes.refl node)

/-- One node may be rewritten once more. -/
theorem Rewritten.change {g' : Graph} (h : Rewritten g₀ g)
    (hchange : ∀ n : Nat, g'[n]? = g[n]? ∨ ∃ a b : Node, g[n]? = some a ∧ g'[n]? = some b ∧ a.Becomes b) :
    Rewritten g₀ g' := by
  intro n
  have hn := h n
  rcases hchange n with hsame | ⟨a, b, ha, hb, hab⟩
  · rwa [hsame]
  · rw [ha] at hn
    rw [hb]
    cases hn' : g₀[n]? with
    | none => rw [hn'] at hn; cases hn
    | some a₀ =>
        rw [hn'] at hn
        cases hn with
        | some h₀ => exact .some (h₀.trans hab)

/-- The node with a number is a mapping. -/
def Graph.IsMapping (g : Graph) (n : Nat) : Prop := ∃ t es, g[n]? = some (.mapping t es)

theorem Rewritten.isMapping_iff (h : Rewritten g₀ g) (n : Nat) : g.IsMapping n ↔ g₀.IsMapping n := by
  have hn := h n
  unfold Graph.IsMapping
  generalize g₀[n]? = before, g[n]? = after at hn
  cases hn with
  | none => simp
  | some hnode => cases hnode <;> simp

theorem Rewritten.setEntries (h : Rewritten g₀ g) {n : Nat} (hn : g₀.IsMapping n) (es : List (Nat × Nat)) :
    Rewritten g₀ (g.setEntries n es) := by
  obtain ⟨t, old, hold⟩ := (h.isMapping_iff n).mpr hn
  refine h.change fun k => ?_
  unfold Graph.setEntries
  rw [Array.getElem?_setIfInBounds]
  split
  · next hk =>
    subst hk
    obtain ⟨hlt, -⟩ := Array.getElem?_eq_some_iff.mp hold
    rw [if_pos hlt]
    refine .inr ⟨_, _, hold, rfl, ?_⟩
    have htag : g.tag n = t := by simp [Graph.tag, hold, Node.tag]
    rw [htag]
    exact .mapping (.inl rfl)
  · exact .inl rfl

theorem Rewritten.withTextKeys (h : Rewritten g₀ g) (es : List (Nat × Nat)) : Rewritten g₀ (g.withTextKeys es) := by
  unfold Graph.withTextKeys
  induction es generalizing g with
  | nil => exact h
  | cons e es ih =>
      obtain ⟨key, value⟩ := e
      refine ih (g := if g.tag key = .value then g.modify key (Node.withTag .str) else g) ?_
      split
      · next hvalue =>
        refine h.change fun k => ?_
        rw [Array.getElem?_modify]
        split
        · next hk =>
          subst hk
          cases hnode : g[key]? with
          | none => simp
          | some node =>
              have htag : node.tag = .value := by simpa [Graph.tag, hnode] using hvalue
              exact .inr ⟨node, _, rfl, rfl, Node.becomes_text htag⟩
        · exact .inl rfl
      · exact h

/-- Merging rewrites nodes, and it fails only if what is merged is no mapping. -/
theorem ends_mergeFrom {cause : Failure → Prop} (bound n start : Nat) (merged : List (Nat × Nat))
    (h : Rewritten g₀ g) (hn : g₀.IsMapping n) :
    Ends cause (Rewritten g₀) (g.mergeFrom bound n start merged) := by
  induction bound generalizing g n start merged with
  | zero => exact h
  | succ bound ih =>
      unfold Graph.mergeFrom
      simp only
      split
      · have hkeys := h.withTextKeys ((g.entries n).drop start)
        show Rewritten g₀ _
        split
        · exact hkeys
        · exact hkeys.setEntries hn _
      · next skipped _ =>
        have hkeys := h.withTextKeys (((g.entries n).drop start).take skipped)
        have hrest := hkeys.setEntries hn ((g.entries n).eraseIdx (start + skipped))
        split
        · next hsource =>
          -- the merged mapping is followed first, and it may be the one at hand
          refine (ih _ 0 [] hrest ((hrest.isMapping_iff _).mp ⟨_, _, hsource⟩)).bind fun g hg => ?_
          exact ih n _ _ hg hn
        · refine Ends.bind (P := fun taken => Rewritten g₀ taken.1) ?_ fun taken hg => ih n _ _ hg hn
          refine ends_foldlM _ hrest fun taken item hg => ?_
          split
          · next hitem =>
            refine (ih item 0 [] hg ((hg.isMapping_iff item).mp ⟨_, _, hitem⟩)).bind fun g hg => ?_
            exact ends_pure hg
          · exact ends_malformed
        · exact ends_malformed

/-! ## Unfit nodes -/

/-- A node at which building may fail: a scalar that is no value of its type, or a mapping tagged as a scalar. -/
inductive Unfit (g : Graph) (f : Failure) : Prop
  | scalar {n : Nat} {t : Tag} {content : Content} (node : g[n]? = some (.scalar t content))
      (value : scalarValue n t content = .error f)
  | mapping {n : Nat} {t : Tag} {es : List (Nat × Nat)} (node : g[n]? = some (.mapping t es))
      (leaf : t.isCollection = false)

/-- A type that merging has changed is that of texts, and every scalar is a text. -/
theorem ends_scalarValue {n : Nat} {t t' : Tag} {content : Content} (ht : t.Becomes t')
    (hnode : g₀[n]? = some (.scalar t content)) : Ends (Unfit g₀) (fun _ => True) (scalarValue n t' content) := by
  rcases ht with rfl | ⟨-, rfl⟩
  · cases hvalue : scalarValue n t' content with
    | ok v => trivial
    | error f => exact .inr (.scalar hnode hvalue)
  · trivial

theorem ends_leafValue {n : Nat} (h : Rewritten g₀ g) (hleaf : (g.tag n).isCollection = false) :
    Ends (Unfit g₀) (fun _ => True) (leafValue g n) := by
  have hn := h n
  unfold leafValue scalarContent
  unfold Graph.tag at hleaf ⊢
  generalize hbefore : g₀[n]? = before, g[n]? = after at hn hleaf ⊢
  cases hn with
  | none => exact ends_malformed
  | some hnode =>
      cases hnode with
      | @scalar t t' content ht =>
          have hvalue := ends_scalarValue ht hbefore
          cases t' <;> exact hvalue
      | sequence ht => exact ends_malformed
      | @mapping t t' es es' ht =>
          -- it was tagged as a scalar before any merging
          have hbefore_leaf : t.isCollection = false := by
            rcases ht with rfl | ⟨rfl, -⟩
            · exact hleaf
            · rfl
          exact ends_of_forall fun f => .mapping hbefore hbefore_leaf

/-! ## Building -/

/-- Work on a document whose nodes are rewritten at most, and that fails only at unfit ones. -/
abbrev Builds (g₀ : Graph) {α : Type} (work : Build α) : Prop :=
  Keeps (Unfit g₀) (fun b => Rewritten g₀ b.graph) work

theorem builds_become (n : Nat) (v : Value) : Builds g₀ (become n v) := keeps_modify fun _ hb => hb

theorem builds_visit (n : Nat) : Builds g₀ (visit n) := by
  refine keeps_get fun b hb => ?_
  split
  · exact keeps_pure _
  · split
    · exact (builds_become n _).bind fun _ => keeps_modify fun _ hb => hb
    · next hleaf =>
      exact keeps_lift (ends_leafValue hb (by simpa using hleaf)) fun v _ => builds_become n v

theorem builds_addPair (key value : Nat) : Builds g₀ (addPair key value) :=
  keeps_get fun _ hb => Keeps.bind (keeps_set hb) fun _ => keeps_pure _

theorem builds_itemsOf (n : Nat) : Builds g₀ (itemsOf n) := by
  refine keeps_get fun b _ => ?_
  split
  · exact keeps_pure _
  · exact keeps_malformed

theorem builds_entriesOf (n : Nat) : Builds g₀ (entriesOf n) := by
  refine keeps_get fun b hb => ?_
  split
  · next hnode =>
    have hmerge : Ends (Unfit g₀) (Rewritten g₀) (b.graph.merge n) :=
      ends_mergeFrom _ n 0 [] hb ((hb.isMapping_iff n).mp ⟨_, _, hnode⟩)
    exact keeps_lift hmerge fun graph hgraph => Keeps.bind (keeps_set hgraph) fun _ => keeps_pure _
  · exact keeps_malformed

theorem builds_buildEntry (entry : Nat × Nat) : Builds g₀ (buildEntry entry) := by
  refine (builds_visit entry.1).bind fun _ => keeps_get fun b _ => ?_
  split
  · exact keeps_malformed
  · exact (builds_visit entry.2).bind fun _ => keeps_pure _

theorem builds_buildPair (n : Nat) : Builds g₀ (buildPair n) := by
  refine keeps_get fun b _ => ?_
  split
  · next key value _ =>
    refine (builds_visit key).bind fun _ => (builds_visit value).bind fun _ => ?_
    exact (builds_addPair key value).bind fun _ => keeps_pure _
  · exact keeps_malformed

theorem builds_buildParts (n : Nat) : Builds g₀ (buildParts n) := by
  refine keeps_get fun b _ => ?_
  split
  · exact (builds_itemsOf n).bind fun items => (keeps_forM items builds_visit).bind fun _ => builds_become n _
  · exact (builds_entriesOf n).bind fun es => (keeps_mapM es builds_buildEntry).bind fun _ => builds_become n _
  · exact (builds_entriesOf n).bind fun es => (keeps_mapM es builds_buildEntry).bind fun _ => builds_become n _
  · exact (builds_itemsOf n).bind fun items => (keeps_mapM items builds_buildPair).bind fun _ => builds_become n _

theorem builds_buildAll (levels : Nat) : Builds g₀ (buildAll levels) := by
  induction levels with
  | zero => exact keeps_pure _
  | succ levels ih =>
      refine keeps_get fun b _ => ?_
      split
      · exact keeps_pure _
      · next waiting _ =>
        refine Keeps.bind (keeps_modify fun _ hb => hb) fun _ => ?_
        exact (keeps_forM _ builds_buildParts).bind fun _ => ih

/-- **The value of a document is missing because a node is malformed, or at an unfit node.** -/
theorem ends_build (g : Graph) (top : Nat) : Ends (Unfit g) (fun _ => True) (build g top) := by
  have hwork : Builds g (do
      visit top
      buildAll (g.size + 1)) := (builds_visit top).bind fun _ => builds_buildAll _
  exact (hwork _ (Rewritten.refl g)).map fun _ _ => trivial

/-! ## Texts -/

/-- What a text has that fails in another way than a malformed one: a hindrance to its reading, which is an escape
    beyond all characters, too long a numeral or too deep a nesting, or an unfit node. -/
inductive Lapse (room : Nat) (t : Text) (f : Failure) : Prop
  | reading (h : Hindrance room (unifyNewlines t) f)
  | node {g : Graph} {top : Nat} (document : document? room t = .ok (some (g, top))) (h : Unfit g f)

/-- **A text has a value, is malformed, or has a lapse.** -/
theorem ends_load (room : Nat) (t : Text) : Ends (Lapse room t) (fun _ => True) (load room t) := by
  have hdocument := ends_document? room t
  unfold load
  split
  · next f hf =>
    rw [hf] at hdocument
    exact hdocument.imp_right .reading
  · trivial
  · next g top hg => exact (ends_build g top).mono_cause fun f hf => .inr (.node hg hf)

end HttpFile.Yaml
