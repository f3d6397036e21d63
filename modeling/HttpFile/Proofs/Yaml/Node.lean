import HttpFile.Proofs.Yaml.Layout
import HttpFile.Yaml.Node

/-!
# `HttpFile.Proofs.Yaml.Node` — how the reading of a document fails

Nodes are read from tokens, and a broken token among them fails as it is reached. So does a token that opens a
collection for which there is no room. All other failures say that the tokens are no document.

## Contents
- **Failures.** `Stop`: what stops the reading of tokens, other than that they are no document.
- **Steps.** `Reading.Fits`: tokens are passed from the front, and collections are opened by tokens; `Passes`.
- **Nodes.** `passes_node`, for all kinds of nodes at once.
- **Documents.** `passes_oneDocument`, `ends_document?`.
-/

namespace HttpFile.Yaml

open Text Read

/-! ## Failures -/

/-- What stops the reading of tokens: a broken one, or more that open a collection than there is room for. -/
inductive Stop (room : Nat) (ts : List Token) : Failure → Prop
  | broken {f : Failure} (h : Token.broken f ∈ ts) : Stop room ts f
  | deep (h : room < ts.countP Token.opens) : Stop room ts .tooDeep

/-! ## Steps -/

/-- The tokens to come are the last ones of a text, and a collection takes its room from `limit` when a token before
    them opens it. -/
structure Reading.Fits (limit : Nat) (ts : List Token) (r : Reading) : Prop where
  suffix : r.tokens <:+ ts
  room : limit + r.tokens.countP Token.opens ≤ r.room + ts.countP Token.opens

/-- Tokens are passed from the front, and nothing else stops the reading than a token. -/
abbrev Passes (limit : Nat) (ts : List Token) {α : Type} (work : Read α) : Prop :=
  Keeps (Stop limit ts) (Reading.Fits limit ts) work

variable {limit : Nat} {ts : List Token}

theorem passes_next : Passes limit ts next := by
  refine keeps_get fun r hr => ?_
  split
  · next f rest htokens =>
    have hsuffix := hr.suffix
    rw [htokens] at hsuffix
    exact fun _ _ => .inr (.broken (hsuffix.subset List.mem_cons_self))
  · exact keeps_pure _
  · exact keeps_malformed

theorem Reading.Fits.drop {r : Reading} (h : r.Fits limit ts) (n : Nat) :
    Reading.Fits limit ts { r with tokens := r.tokens.drop n } where
  suffix := (List.drop_suffix n r.tokens).trans h.suffix
  room := by
    have hle : (r.tokens.drop n).countP Token.opens ≤ r.tokens.countP Token.opens :=
      (List.drop_sublist n r.tokens).countP_le
    have hroom := h.room
    show limit + (r.tokens.drop n).countP Token.opens ≤ r.room + ts.countP Token.opens
    omega

theorem passes_pass : Passes limit ts pass := keeps_modify fun _ hr => hr.drop 1

theorem passes_passIf (t : Token) : Passes limit ts (passIf t) := by
  refine passes_next.bind fun t' => ?_
  split
  · exact passes_pass.bind fun _ => keeps_pure true
  · exact keeps_pure false

theorem passes_expect (t : Token) : Passes limit ts (expect t) := by
  refine (passes_passIf t).bind fun found => ?_
  split
  · exact keeps_pure _
  · exact keeps_malformed

theorem ends_next {r : Reading} (hr : r.Fits limit ts) :
    Ends (Stop limit ts) (fun after => ∃ rest, r.tokens = after.1 :: rest ∧ after.2 = r) (next r) := by
  have hnext := passes_next r hr
  obtain ⟨tokens, room, anchors, handles, graph⟩ := r
  cases tokens with
  | nil => exact ends_malformed
  | cons t rest =>
      cases t with
      | broken f => exact hnext
      | _ => exact ⟨rest, rfl, rfl⟩

/-- A token that is expected is the next one, and only it is passed. -/
theorem ends_expect {t : Token} {r : Reading} (hr : r.Fits limit ts) :
    Ends (Stop limit ts) (fun after => ∃ rest, r.tokens = t :: rest ∧ after.2 = { r with tokens := rest })
      (expect t r) := by
  unfold expect passIf
  simp only [bind_assoc]
  refine (ends_next hr).bind fun after hafter => ?_
  obtain ⟨t', r'⟩ := after
  obtain ⟨rest, htokens, rfl⟩ := hafter
  by_cases ht : t' = t
  · subst ht
    rw [htokens]
    simp only [↓reduceIte]
    refine ⟨rest, rfl, ?_⟩
    show { r' with tokens := r'.tokens.drop 1 } = { r' with tokens := rest }
    simp only at htokens
    rw [htokens, List.drop_one, List.tail_cons]
  · simp only [ht, ↓reduceIte]
    exact ends_malformed

/-- A token that opens a collection is passed, and the collection takes its room. -/
theorem passes_enter {opening : Token} (hopens : opening.opens = true) : Passes limit ts (enter opening) := by
  intro r hr
  refine (ends_expect hr).bind fun after hafter => ?_
  obtain ⟨⟨⟩, r'⟩ := after
  obtain ⟨rest, htokens, rfl⟩ := hafter
  have hroom := hr.room
  have hsuffix := hr.suffix
  rw [htokens] at hroom hsuffix
  rw [List.countP_cons_of_pos hopens] at hroom
  obtain ⟨tokens, room, anchors, handles, graph⟩ := r
  cases room with
  | zero => exact .inr (.deep (by simp only at hroom; omega))
  | succ room =>
      refine ⟨(List.suffix_cons opening rest).trans hsuffix, ?_⟩
      show limit + rest.countP Token.opens ≤ room + ts.countP Token.opens
      simp only at hroom
      omega

theorem passes_leave : Passes limit ts leave := by
  refine keeps_modify fun r hr => ⟨hr.suffix, ?_⟩
  have hroom := hr.room
  show limit + r.tokens.countP Token.opens ≤ r.room + 1 + ts.countP Token.opens
  omega

theorem passes_within {α : Type} {opening : Token} (hopens : opening.opens = true) {work : Read α}
    (h : Passes limit ts work) : Passes limit ts (within opening work) :=
  (passes_enter hopens).bind fun _ => h.bind fun a => passes_leave.bind fun _ => keeps_pure a

theorem passes_add (anchor : Option Text) (n : Node) : Passes limit ts (add anchor n) := fun _ hr => ⟨hr.suffix, hr.room⟩

theorem passes_complete (number : Nat) (n : Node) : Passes limit ts (complete number n) :=
  keeps_modify fun _ hr => ⟨hr.suffix, hr.room⟩

theorem passes_checkAnchor (anchor : Option Text) : Passes limit ts (checkAnchor anchor) := by
  unfold checkAnchor
  split
  · exact keeps_pure _
  · refine keeps_get fun r _ => ?_
    split
    · exact keeps_malformed
    · exact keeps_pure _

theorem passes_aliased (name : Text) : Passes limit ts (aliased name) := by
  refine keeps_get fun r _ => ?_
  split
  · exact keeps_pure _
  · exact keeps_malformed

theorem passes_tagText (handle : Option Text) (suffix : Text) : Passes limit ts (tagText handle suffix) := by
  unfold tagText
  split
  · exact keeps_pure _
  · refine keeps_get fun r _ => ?_
    split
    · exact keeps_pure _
    · exact keeps_malformed

theorem passes_properties : Passes limit ts properties := by
  refine passes_next.bind fun t => ?_
  split
  · refine passes_pass.bind fun _ => passes_next.bind fun t => ?_
    split
    · exact passes_pass.bind fun _ => (passes_tagText _ _).bind fun _ => keeps_pure _
    · exact keeps_pure _
  · refine passes_pass.bind fun _ => passes_next.bind fun t => ?_
    split
    · exact passes_pass.bind fun _ => (passes_tagText _ _).bind fun _ => keeps_pure _
    · exact (passes_tagText _ _).bind fun _ => keeps_pure _
  · exact keeps_pure _

/-! ## Nodes -/

theorem passes_emptyScalar : Passes limit ts emptyScalar := passes_add _ _

theorem passes_sequence (anchor tag : Option Text) {items : Read (List Nat)} (h : Passes limit ts items) :
    Passes limit ts (sequence anchor tag items) :=
  (passes_add _ _).bind fun number => h.bind fun _ => (passes_complete number _).bind fun _ => keeps_pure number

theorem passes_mapping (anchor tag : Option Text) {entries : Read (List (Nat × Nat))} (h : Passes limit ts entries) :
    Passes limit ts (mapping anchor tag entries) :=
  (passes_add _ _).bind fun number => h.bind fun _ => (passes_complete number _).bind fun _ => keeps_pure number

theorem passes_bare (anchor tag : Option Text) : Passes limit ts (bare anchor tag) := by
  unfold bare
  split
  · exact keeps_malformed
  · exact passes_add _ _

theorem passes_unlessMissing (stops : List Token) {n : Read Nat} (h : Passes limit ts n) :
    Passes limit ts (unlessMissing stops n) := by
  refine Keeps.bind (passes_next.bind fun t => keeps_pure _) fun missing => ?_
  split
  · exact passes_emptyScalar
  · exact h

theorem passes_valueOr (stops : List Token) {n : Read Nat} (h : Passes limit ts n) : Passes limit ts (valueOr stops n) := by
  refine (passes_passIf .colon).bind fun found => ?_
  split
  · exact passes_unlessMissing stops h
  · exact passes_emptyScalar

/-- What is known of all readings with a bound. -/
structure PassesWithin (limit : Nat) (ts : List Token) (bound : Nat) : Prop where
  node (inBlock dashes : Bool) : Passes limit ts (node inBlock dashes bound)
  blockItems : Passes limit ts (blockItems bound)
  dashedItems : Passes limit ts (dashedItems bound)
  blockEntries : Passes limit ts (blockEntries bound)
  flowItems (first : Bool) : Passes limit ts (flowItems first bound)
  flowEntries (first : Bool) : Passes limit ts (flowEntries first bound)

theorem passes_node_succ {bound : Nat} (h : PassesWithin limit ts bound) (inBlock dashes : Bool) :
    Passes limit ts (node inBlock dashes (bound + 1)) := by
  unfold node
  refine passes_next.bind fun t => ?_
  split
  · exact passes_pass.bind fun _ => passes_aliased _
  · refine passes_properties.bind fun p => ?_
    obtain ⟨anchor, tag⟩ := p
    refine passes_next.bind fun content => (passes_checkAnchor anchor).bind fun _ => ?_
    split
    · exact passes_pass.bind fun _ => passes_add _ _
    · exact passes_within rfl (passes_sequence anchor tag (h.flowItems true))
    · exact passes_within rfl (passes_mapping anchor tag (h.flowEntries true))
    · split
      · exact passes_within rfl (passes_sequence anchor tag h.dashedItems)
      · exact passes_bare anchor tag
    · split
      · exact passes_within rfl (passes_sequence anchor tag h.blockItems)
      · exact passes_bare anchor tag
    · split
      · exact passes_within rfl (passes_mapping anchor tag h.blockEntries)
      · exact passes_bare anchor tag
    · exact passes_bare anchor tag

theorem passes_blockItems_succ {bound : Nat} (h : PassesWithin limit ts bound) : Passes limit ts (blockItems (bound + 1)) := by
  unfold blockItems
  refine (passes_passIf .dash).bind fun found => ?_
  split
  · exact (passes_unlessMissing _ (h.node true false)).bind fun item => h.blockItems.bind fun items => keeps_pure _
  · exact (passes_expect .blockEnd).bind fun _ => keeps_pure _

theorem passes_dashedItems_succ {bound : Nat} (h : PassesWithin limit ts bound) : Passes limit ts (dashedItems (bound + 1)) := by
  unfold dashedItems
  refine (passes_unlessMissing _ (h.node true false)).bind fun item => (passes_passIf .dash).bind fun found => ?_
  split
  · exact h.dashedItems.bind fun items => keeps_pure _
  · exact keeps_pure _

theorem passes_blockEntries_succ {bound : Nat} (h : PassesWithin limit ts bound) :
    Passes limit ts (blockEntries (bound + 1)) := by
  unfold blockEntries
  refine (passes_passIf .key).bind fun found => ?_
  split
  · refine (passes_unlessMissing _ (h.node true true)).bind fun key => ?_
    exact (passes_valueOr _ (h.node true true)).bind fun value => h.blockEntries.bind fun es => keeps_pure _
  · exact (passes_expect .blockEnd).bind fun _ => keeps_pure _

theorem passes_flowItems_succ {bound : Nat} (h : PassesWithin limit ts bound) (first : Bool) :
    Passes limit ts (flowItems first (bound + 1)) := by
  unfold flowItems
  refine (passes_passIf .sequenceClose).bind fun found => ?_
  split
  · exact keeps_pure _
  · -- what follows is the same with a comma in front and without
    extract_lets items
    have hitems : Passes limit ts (items ()) := by
      refine passes_next.bind fun t => ?_
      split
      · refine (passes_within rfl (passes_mapping none none ?_)).bind fun item =>
          (h.flowItems false).bind fun items => keeps_pure _
        refine (passes_unlessMissing _ (h.node false false)).bind fun key => ?_
        exact (passes_valueOr _ (h.node false false)).bind fun value => keeps_pure _
      · exact passes_pass.bind fun _ => keeps_pure _
      · exact (h.node false false).bind fun item => (h.flowItems false).bind fun items => keeps_pure _
    split
    · exact (passes_expect .comma).bind fun _ => hitems
    · exact hitems

theorem passes_flowEntries_succ {bound : Nat} (h : PassesWithin limit ts bound) (first : Bool) :
    Passes limit ts (flowEntries first (bound + 1)) := by
  unfold flowEntries
  refine (passes_passIf .mappingClose).bind fun found => ?_
  split
  · exact keeps_pure _
  · extract_lets entries
    have hentries : Passes limit ts (entries ()) := by
      refine passes_next.bind fun t => ?_
      split
      · refine passes_pass.bind fun _ => (passes_unlessMissing _ (h.node false false)).bind fun key => ?_
        exact (passes_valueOr _ (h.node false false)).bind fun value =>
          (h.flowEntries false).bind fun es => keeps_pure _
      · exact passes_pass.bind fun _ => keeps_pure _
      · exact (h.node false false).bind fun key => passes_emptyScalar.bind fun value =>
          (h.flowEntries false).bind fun es => keeps_pure _
    split
    · exact (passes_expect .comma).bind fun _ => hentries
    · exact hentries

/-- **Nodes of all kinds pass tokens from the front.** -/
theorem passesWithin (limit : Nat) (ts : List Token) (bound : Nat) : PassesWithin limit ts bound := by
  induction bound with
  | zero =>
      exact
        { node := fun _ _ => keeps_malformed
          blockItems := keeps_malformed
          dashedItems := keeps_malformed
          blockEntries := keeps_malformed
          flowItems := fun _ => keeps_malformed
          flowEntries := fun _ => keeps_malformed }
  | succ bound ih =>
      exact
        { node := passes_node_succ ih
          blockItems := passes_blockItems_succ ih
          dashedItems := passes_dashedItems_succ ih
          blockEntries := passes_blockEntries_succ ih
          flowItems := passes_flowItems_succ ih
          flowEntries := passes_flowEntries_succ ih }

/-! ## Documents -/

theorem passes_directives (bound : Nat) (versioned : Bool) (handles : List (Text × Text)) :
    Passes limit ts (directives bound versioned handles) := by
  induction bound generalizing versioned handles with
  | zero => exact keeps_malformed
  | succ bound ih =>
      unfold directives
      refine passes_next.bind fun t => ?_
      split
      · refine passes_pass.bind fun _ => ?_
        split
        · exact keeps_malformed
        · exact ih _ _
      · refine passes_pass.bind fun _ => ?_
        split
        · exact keeps_malformed
        · exact ih _ _
      · exact passes_pass.bind fun _ => ih _ _
      · exact keeps_pure _

theorem passes_passEnds (bound : Nat) : Passes limit ts (passEnds bound) := by
  induction bound with
  | zero => exact keeps_pure _
  | succ bound ih =>
      unfold passEnds
      refine (passes_passIf .documentEnd).bind fun found => ?_
      split
      · exact ih
      · exact keeps_pure _

theorem passes_documentContent (bound : Nat) : Passes limit ts (documentContent bound) := by
  have top := (passesWithin limit ts bound).node true false
  unfold documentContent
  refine passes_next.bind fun t => ?_
  split
  case h_3 => exact Keeps.bind (keeps_modify fun _ hr => ⟨hr.suffix, hr.room⟩) fun _ => top
  -- a directive or the mark of a start
  all_goals
    refine (passes_directives bound false []).bind fun declared => (passes_expect _).bind fun _ => ?_
    refine Keeps.bind (keeps_modify fun _ hr => ⟨hr.suffix, hr.room⟩) fun _ => passes_next.bind fun t => ?_
    split <;> first | exact passes_emptyScalar | exact top

theorem passes_nothingMore (bound : Nat) : Passes limit ts (nothingMore bound) := by
  refine (passes_passEnds bound).bind fun _ => passes_next.bind fun t => ?_
  split
  · exact keeps_pure _
  · refine Keeps.bind ?_ fun _ => keeps_malformed
    exact (passes_directives bound false []).bind fun _ => keeps_pure _

theorem passes_oneDocument (bound : Nat) : Passes limit ts (oneDocument bound) := by
  refine passes_next.bind fun t => ?_
  split
  · exact keeps_pure _
  · exact (passes_documentContent bound).bind fun top => (passes_nothingMore bound).bind fun _ => keeps_pure _

/-- What keeps a text that need not be malformed from being a document: an escape or a numeral in it, or collections
    for which there is no room. -/
inductive Hindrance (room : Nat) (t : Text) : Failure → Prop
  | excess {f : Failure} (h : Excess t f) : Hindrance room t f
  | deep (h : room < (tokens t).countP Token.opens) : Hindrance room t .tooDeep

/-- **A text is no document because it is malformed, or for what hinders its reading.** -/
theorem ends_document? (room : Nat) (t : Text) :
    Ends (Hindrance room (unifyNewlines t)) (fun _ => True) (document? room t) := by
  unfold document?
  simp only
  split
  · have hread :
        Passes room (tokens (unifyNewlines t)) (oneDocument (3 * (tokens (unifyNewlines t)).length + 8)) :=
      passes_oneDocument _
    have hdocument := hread { tokens := tokens (unifyNewlines t), room := room } ⟨List.suffix_rfl, Nat.le_refl _⟩
    refine (hdocument.map fun _ _ => trivial).mono_cause fun f hf => ?_
    cases hf with
    | broken h => exact (broken_tokens h).imp_right .excess
    | deep h => exact .inr (.deep h)
  · exact ends_malformed

end HttpFile.Yaml
