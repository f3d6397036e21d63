import HttpFile.Proofs.Document.Kept

/-!
# `HttpFile.Proofs.Document.Calm` — what was read below an open path

In a file that was read, nothing below a path that starts like inline code closes it. The document of
the file is written in another order, but of what was below the path only lines that were there stay
below it: so what may close it now was moved there.

## Contents
- **Values.** `free_request_plain`, `Block.freeBelow_ofSection`, `Block.free_ofSection`: free entries
  are extracted into free values.
- **Sections.** `unclosed_filterMap`, `calm_ofSection`, `calmBlocks_ofSections`.
- **Documents.** `calmBlocks_of_parse`.
-/

namespace HttpFile

open Text Unicode Syntax

/-! ## Values -/

/-- A script that comes from a free token is written on free lines. -/
theorem free_ofToken {t : Token} (hk : t.kind = .script ∨ t.kind = .path) (h : t.Sound)
    (hf : occursIn closing t.lexeme = false) : occursIn closing (Script.ofToken t).render = false := by
  rcases hk with hk | hk
  · obtain ⟨code, hl, -⟩ := h.of_kind hk
    have hclosed : occursIn closing t.lexeme = true :=
      occursIn_iff.mpr ⟨'{' :: '%' :: code, [], by simp [hl]⟩
    rw [hf] at hclosed
    simp at hclosed
  · obtain ⟨hc, hv, -⟩ := isValue_content (.inr hk) h
    have hrender : (Script.ofToken t).render = t.lexeme := by
      rw [Script.ofToken, hk]
      exact hv.1.trans hc
    rw [hrender]
    exact hf

/-- A script is an open path only if its token is. -/
theorem open_of_ofToken {t : Token} (hk : t.kind = .script ∨ t.kind = .path) (h : t.Sound)
    (ho : (Script.ofToken t).IsOpen) : t.IsOpen := by
  rcases hk with hk | hk
  · rw [Script.ofToken, hk] at ho
    exact absurd ho id
  · rw [Script.ofToken, hk] at ho
    exact ⟨hk, (isValue_content (.inr hk) h).1 ▸ ho⟩

theorem free_content {t : Token} (h : occursIn closing t.lexeme = false) :
    occursIn closing t.content = false :=
  occursIn_of_isInfix (strip_isInfix t.lexeme) h

/-- The value of a header is part of its line. -/
theorem Header.value_isInfix (line : Text) : (Header.ofLine line).value <:+: line := by
  show strip ((cutAt ':' line).2.getD []) <:+: line
  refine (strip_isInfix _).trans ?_
  rcases cutAt_cases ':' line with ⟨-, hcut⟩ | ⟨u, v, -, rfl, hcut⟩
  · rw [hcut]
    exact List.nil_infix
  · rw [hcut]
    exact ⟨u ++ [':'], [], by simp⟩

theorem free_request_plain {n : RequestNode} (h : ∀ e ∈ n.entries, e.Sound)
    (hf : ∀ e ∈ n.entries, e.Free) : (Request.ofNode {} n).plain.Free := by
  refine ⟨?_, fun x hx => ?_, fun w hw => ?_⟩
  · have hmem : Entry.target n.target ∈ n.entries := by simp [RequestNode.entries]
    obtain ⟨hk, ht⟩ := h _ hmem
    exact Url.occursIn_fold ((ht n.target (by simp [Entry.tokens])).of_kind hk)
      (hf _ hmem n.target (by simp [Entry.tokens]))
  · obtain ⟨y, hy, rfl⟩ := List.mem_map.mp hx
    obtain ⟨t, ht, rfl⟩ := List.mem_map.mp hy
    have hfree := hf (.header t) (by simp [RequestNode.entries, RequestTail.entries, ht]) t
      (by simp [Entry.tokens])
    exact occursIn_of_isInfix (Header.value_isInfix t.content) (free_content hfree)
  · obtain ⟨b, hb, rfl⟩ := body_plain hw
    obtain ⟨t, ht, rfl⟩ := Option.map_eq_some_iff.mp hb
    exact free_content (hf (.body t) (by simp [RequestNode.entries, RequestTail.entries, ht]) t
      (by simp [Entry.tokens]))

theorem Block.freeBelow_ofSection {separator : Option Token} {s : Section}
    (h : ∀ e ∈ s.request.toList.flatMap RequestNode.entries, e.Sound ∧ e.Free) :
    (Block.ofSection {} separator s).plain.FreeBelow := by
  have node : ∀ n, s.request = some n → ∀ e ∈ n.entries, e.Sound ∧ e.Free :=
    fun n hn e he => h e (by simp [hn, he])
  have response : ∀ n, s.request = some n → ∀ r ∈ n.tail.responses,
      (Entry.response r).Sound ∧ (Entry.response r).Free := fun n hn r hr =>
    node n hn _ (by simp [RequestNode.entries, RequestTail.entries, hr])
  refine ⟨fun r hr => ?_, fun script hs => ?_, fun x hx => ?_⟩
  · obtain ⟨r₀, hr₀, rfl⟩ := Option.map_eq_some_iff.mp hr
    obtain ⟨n, hn, rfl⟩ := Option.map_eq_some_iff.mp hr₀
    exact free_request_plain (fun e he => (node n hn e he).1) fun e he => (node n hn e he).2
  · have hmem : script ∈ (Block.ofSection {} separator s).postRequestScripts := hs
    obtain ⟨n, t, hn, hr, rfl⟩ := handler_ofSection hmem
    obtain ⟨⟨hk, ht⟩, hf⟩ := response n hn _ hr
    exact free_ofToken hk (ht t (by simp [Entry.tokens])) (hf t (by simp [Entry.tokens]))
  · obtain ⟨y, hy, rfl⟩ := Option.map_eq_some_iff.mp hx
    obtain ⟨n, t, hn, hr, rfl⟩ := redirect_ofSection (Option.filter_eq_some_iff.mp hy).1
    have hfree := (response n hn _ hr).2 t (by simp [Entry.tokens])
    exact occursIn_of_isInfix (strip_isInfix _) (free_content hfree)

theorem free_normalizeComment {c : Text} (h : occursIn closing c = false) :
    occursIn closing (normalizeComment c) = false := by
  have hstrip := occursIn_of_isInfix (strip_isInfix c) h
  unfold normalizeComment
  split
  · next rest heq =>
      rw [heq] at hstrip
      exact occursIn_cons (by decide) (occursIn_of_isInfix ⟨['/', '/'], [], by simp⟩ hstrip)
  · exact hstrip

theorem Block.free_ofSection {separator : Option Token} {s : Section}
    (h : ∀ e ∈ .separator separator :: s.entries, e.Sound ∧ e.Free) :
    (Block.ofSection {} separator s).plain.Free := by
  have item : ∀ i ∈ s.items, (Entry.item i).Sound ∧ (Entry.item i).Free := fun i hi =>
    h _ (by simp [Section.entries, hi])
  refine ⟨Block.freeBelow_ofSection fun e he => h e (List.mem_cons_of_mem _ (List.mem_append_right _ he)),
    fun x hx => ?_, fun c hc => ?_, fun script hs => ?_, fun m hm => ?_⟩
  · obtain ⟨hmap, -⟩ := Option.filter_eq_some_iff.mp (Option.filter_eq_some_iff.mp hx).1
    obtain ⟨t, ht, rfl⟩ := Option.map_eq_some_iff.mp hmap
    exact free_content ((h (.separator separator) (by simp)).2 t (by simp [Entry.tokens, ht]))
  · obtain ⟨c, hmem, rfl⟩ := List.mem_map.mp hc
    obtain ⟨t, hi, rfl⟩ := comment_ofSection hmem
    exact free_normalizeComment (free_content ((item _ hi).2 t (by simp [Entry.tokens])))
  · have hmem : script ∈ (Block.ofSection {} separator s).preRequestScripts := hs
    obtain ⟨t, hi, rfl⟩ := preRequest_ofSection hmem
    obtain ⟨⟨hk, ht⟩, hf⟩ := item _ hi
    exact free_ofToken hk (ht t (by simp [Entry.tokens])) (hf t (by simp [Entry.tokens]))
  · have hmem : m ∈ (Block.ofSection {} separator s).metadata := hm
    obtain ⟨name, value, hi, rfl⟩ := metadata_ofSection hmem
    obtain ⟨-, hf⟩ := item _ hi
    cases value with
    | none => rfl
    | some t => exact free_content (hf t (by simp [Entry.tokens]))

/-! ## Sections -/

/-- The script of an entry that was read is inline code or a path. -/
theorem Syntax.Entry.Sound.source {e : Entry} (h : e.Sound) {t : Token}
    (he : e = .item (.preRequest t) ∨ e = .response (.handler t)) :
    e.tokens = [t] ∧ (t.kind = .script ∨ t.kind = .path) ∧ t.Sound := by
  rcases he with rfl | rfl
  · exact ⟨rfl, h.1, h.2 t (by simp [Entry.tokens])⟩
  · exact ⟨rfl, h.1, h.2 t (by simp [Entry.tokens])⟩

/-- An entry whose script is an open path is open. -/
theorem open_of_source {e : Entry} (h : e.Sound) {t : Token}
    (he : e = .item (.preRequest t) ∨ e = .response (.handler t)) (ho : (Script.ofToken t).IsOpen) :
    e.IsOpen := by
  obtain ⟨htokens, hk, ht⟩ := h.source he
  exact ⟨t, by simp [htokens], open_of_ofToken hk ht ho⟩

/-- The scripts that are picked from hushed entries are not closed by each other. -/
theorem unclosed_filterMap {α : Type} {entry : α → Entry} {pick : α → Option Script} {xs : List α}
    (hpick : ∀ x s, pick x = some s →
      ∃ t, (entry x = .item (.preRequest t) ∨ entry x = .response (.handler t)) ∧ s = Script.ofToken t)
    (hs : ∀ x ∈ xs, (entry x).Sound) (hh : Hushed (xs.map entry)) : Unclosed (xs.filterMap pick) := by
  refine List.pairwise_filterMap.mpr ((List.pairwise_map.mp hh).imp_of_mem ?_)
  intro x x' hx hx' hquiet s hp s' hp' ho
  obtain ⟨t, he, rfl⟩ := hpick x s hp
  obtain ⟨t', he', rfl⟩ := hpick x' s' hp'
  obtain ⟨htokens, hk, ht⟩ := (hs x' hx').source he'
  exact free_ofToken hk ht (hquiet (open_of_source (hs x hx) he ho) t' (by simp [htokens]))

section Sections

variable {separator : Option Token} {s : Section}

/-- The block of a section whose tokens are known is written as it stands. -/
theorem writable_ofSection (hsep : (Entry.separator separator).Sound) (h : ∀ e ∈ s.entries, e.Sound) :
    (Block.ofSection {} separator s).plain.Writable := by
  have hextracted := block_extracted {} hsep h
  exact (Block.settle_writable hextracted.toSound (fun r hr => (hextracted.request r hr).sound)
    (Block.settle_false _)).2

theorem unclosed_preRequests (separator : Option Token) (h : ∀ e ∈ s.entries, e.Sound)
    (hh : Hushed (s.items.map .item)) : Unclosed (Block.ofSection {} separator s).preRequestScripts := by
  refine unclosed_filterMap (fun i script hp => ?_) (fun i hi => h _ (by simp [Section.entries, hi])) hh
  cases i with
  | preRequest t => exact ⟨t, .inl rfl, (Option.some.inj hp).symm⟩
  | «variable» _ _ | comment _ | metadata _ _ => simp at hp

theorem unclosed_handlers {n : RequestNode} (h : ∀ e ∈ n.entries, e.Sound) (hh : Hushed n.entries) :
    Unclosed n.handlers := by
  have hresponses : n.tail.responses.map .response <:+ n.entries := by
    unfold RequestNode.entries RequestTail.entries
    simp only [← List.cons_append, ← List.append_assoc]
    exact List.suffix_append _ _
  have hhushed : Hushed (n.tail.responses.map .response) := hh.sublist hresponses.sublist
  refine unclosed_filterMap (fun r script hp => ?_)
    (fun r hr => h _ (hresponses.subset (List.mem_map.mpr ⟨r, hr, rfl⟩))) hhushed
  cases r with
  | handler t => exact ⟨t, .inr rfl, (Option.some.inj hp).symm⟩
  | redirect _ => simp at hp

/-- **The block of a section that was read is calm.** -/
theorem calm_ofSection (hsep : (Entry.separator separator).Sound) (h : ∀ e ∈ s.entries, e.Sound)
    {es : List Entry} (hh : Hushed (s.entries ++ es)) {rest : Text}
    (hes : (∀ e ∈ es, e.Free) → occursIn closing rest = false) :
    (Block.ofSection {} separator s).plain.Calm rest := by
  have hw := writable_ofSection hsep h
  obtain ⟨hsection, -, hbelow⟩ := List.pairwise_append.mp hh
  obtain ⟨hitems, hnode, hrequest⟩ := List.pairwise_append.mp hsection
  have node : ∀ n, s.request = some n → n.entries = s.request.toList.flatMap RequestNode.entries :=
    fun n hn => by simp [hn]
  refine ⟨unclosed_preRequests separator h hitems, fun script hs ho => ?_, ?_, fun script hs ho => ?_⟩
  · have hscript : script ∈ (Block.ofSection {} separator s).preRequestScripts := hs
    obtain ⟨t, hi, rfl⟩ := preRequest_ofSection hscript
    have hmem : Entry.item (.preRequest t) ∈ s.items.map .item := List.mem_map.mpr ⟨_, hi, rfl⟩
    have hentry : Entry.item (.preRequest t) ∈ s.entries := List.mem_append_left _ hmem
    have hopen := open_of_source (h _ hentry) (.inl rfl) ho
    -- an open script above the request: nothing written below it closes it
    have hfree : (Block.ofSection {} separator s).plain.FreeBelow := Block.freeBelow_ofSection fun e he =>
      ⟨h e (List.mem_append_right _ he), hrequest _ hmem e he hopen⟩
    exact occursIn_endLines (by decide) (hfree.lines hw) (hes fun e he => hbelow _ hentry e he hopen)
  · cases hn : s.request with
    | none =>
        have hnil : (Block.ofSection {} separator s).plain.postRequestScripts = [] := by
          simp [Block.plain, Block.written, Block.ofSection, hn]
        rw [hnil]
        exact List.Pairwise.nil
    | some n =>
        have hposts : (Block.ofSection {} separator s).plain.postRequestScripts = n.handlers := by
          simp [Block.plain, Block.written, Block.ofSection, hn]
        rw [hposts]
        rw [← node n hn] at hnode
        exact unclosed_handlers (fun e he => h e (List.mem_append_right _ (node n hn ▸ he))) hnode
  · have hscript : script ∈ (Block.ofSection {} separator s).postRequestScripts := hs
    obtain ⟨n, t, hn, hr, rfl⟩ := handler_ofSection hscript
    have hentry : Entry.response (.handler t) ∈ s.entries := by
      refine List.mem_append_right _ (node n hn ▸ ?_)
      simp [RequestNode.entries, RequestTail.entries, hr]
    have hopen := open_of_source (h _ hentry) (.inr rfl) ho
    exact hes fun e he => hbelow _ hentry e he hopen

end Sections

/-- The entries of sections, each behind its separator. -/
def entriesOf (ss : List (Option Token × Section)) : List Entry :=
  ss.flatMap fun x => .separator x.1 :: x.2.entries

/-- The blocks of sections, with their bodies trimmed; empty ones are left out. -/
def blocksOf (ss : List (Option Token × Section)) : List Block :=
  (Document.ofSections {} ss).plain.blocks

theorem mem_blocksOf {ss : List (Option Token × Section)} {b : Block} (h : b ∈ blocksOf ss) :
    ∃ x ∈ ss, b = (Block.ofSection {} x.1 x.2).plain := by
  obtain ⟨b', hb', rfl⟩ := List.mem_map.mp h
  obtain ⟨x, hx, rfl⟩ := List.mem_map.mp (List.mem_filter.mp hb').1
  exact ⟨x, hx, rfl⟩

theorem sound_entriesOf {ss : List (Option Token × Section)} (h : ∀ e ∈ entriesOf ss, e.Sound)
    {x : Option Token × Section} (hx : x ∈ ss) :
    ∀ e ∈ .separator x.1 :: x.2.entries, e.Sound := fun e he =>
  h e (List.mem_flatMap.mpr ⟨x, hx, he⟩)

/-- Sections in which nothing closes inline code are written as such. -/
theorem free_blocksOf {ss : List (Option Token × Section)} (h : ∀ e ∈ entriesOf ss, e.Sound)
    (hf : ∀ e ∈ entriesOf ss, e.Free) : occursIn closing (sheetText ((blocksOf ss).map Block.lines)) = false := by
  refine free_sheetText (fun b hb => ?_) fun b hb => ?_
  · obtain ⟨x, hx, rfl⟩ := mem_blocksOf hb
    have hsound := sound_entriesOf h hx
    exact writable_ofSection (hsound _ (by simp)) fun e he => hsound e (by simp [he])
  · obtain ⟨x, hx, rfl⟩ := mem_blocksOf hb
    exact Block.free_ofSection fun e he => ⟨sound_entriesOf h hx e he, hf e (List.mem_flatMap.mpr ⟨x, hx, he⟩)⟩

/-- **The blocks of sections that were read are calm.** -/
theorem calmBlocks_ofSections {ss : List (Option Token × Section)} (h : ∀ e ∈ entriesOf ss, e.Sound)
    (hh : Hushed (entriesOf ss)) : CalmBlocks (blocksOf ss) := by
  induction ss with
  | nil => trivial
  | cons x ss ih =>
      have hcons : entriesOf (x :: ss) = .separator x.1 :: (x.2.entries ++ entriesOf ss) := rfl
      rw [hcons] at hh h
      have hsection := (List.pairwise_cons.mp hh).2
      have hsound : ∀ e ∈ entriesOf ss, e.Sound := fun e he => h e (by simp [he])
      have hrest := ih hsound (List.pairwise_append.mp hsection).2.1
      have hcalm := calm_ofSection (h (.separator x.1) (by simp)) (fun e he => h e (by simp [he])) hsection
        (free_blocksOf hsound)
      cases hempty : (Block.ofSection {} x.1 x.2).isEmpty with
      | true =>
          -- a block without anything is left out
          have hblocks : blocksOf (x :: ss) = blocksOf ss := by
            simp [blocksOf, Document.plain, Document.ofSections, hempty]
          rw [hblocks]
          exact hrest
      | false =>
          have hblocks : blocksOf (x :: ss) = (Block.ofSection {} x.1 x.2).plain :: blocksOf ss := by
            simp [blocksOf, Document.plain, Document.ofSections, hempty]
          rw [hblocks]
          exact ⟨hcalm, hrest⟩

/-! ## Documents -/

/-- **The blocks of a file that was read are calm.** -/
theorem calmBlocks_of_parse {source t : Text} {d : Document} (h : Document.parse {} source t = .ok d) :
    CalmBlocks d.plain.blocks := by
  obtain ⟨ts, hts, -, rfl⟩ := parse_eq_ok h
  rw [ofTree_ofTokens]
  obtain ⟨hfit, hentries⟩ := gather_fits hts
  have htail : (gather ts).tail = {} := hfit
  -- the head is a section without a separator
  have hall : entriesOf (gather ts).sections = .separator none :: entries (shown ts) := by
    rw [← hentries]
    simp [entriesOf, Grouped.sections, Grouped.entries, htail]
  refine calmBlocks_ofSections (fun e he => ?_) ?_
  · rw [hall] at he
    rcases List.mem_cons.mp he with rfl | he
    · exact ⟨by simp [Entry.Kinds], by simp [Entry.tokens]⟩
    · exact sound_of_tokens hts e he
  · rw [hall]
    refine List.pairwise_cons.mpr ⟨fun e he ho => ?_, (scanned hts).hushed⟩
    obtain ⟨t, ht, -⟩ := ho
    simp [Entry.tokens] at ht

end HttpFile
