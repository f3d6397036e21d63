import HttpFile.Proofs.Document.Settled

/-!
# `HttpFile.Proofs.Document.Hush` — paths that start like inline code

A script may be a path that starts with the mark of inline code. It is read as a path as long as
nothing below it closes the code. The entries of a document say where that is so: behind an open path
all entries must be free of the closing mark. This module brings that down to the written lines, by way
of the values that are written on them.

## Contents
- **Lines.** `FreeLines`, `free_metadataLines`.
- **Values.** `Block.FreeBelow`, `Block.Free`: blocks of free values are written on free lines.
- **Entries.** `freeBelow_of_entries`, `free_of_entries`: free entries come from free values.
- **Documents.** `Hushed`, `quietBlocks_of_hushed`.
-/

namespace HttpFile

open Text Unicode Syntax

/-! ## Lines -/

/-- Lines none of which closes inline code. -/
def FreeLines (ls : List Text) : Prop := ∀ l ∈ ls, occursIn closing l = false

theorem FreeLines.append {ls ms : List Text} (hl : FreeLines ls) (hm : FreeLines ms) :
    FreeLines (ls ++ ms) := by
  intro l hmem
  rcases List.mem_append.mp hmem with h | h
  · exact hl l h
  · exact hm l h

theorem FreeLines.spaced {α : Type} {line : α → Text} {xs : List α}
    (h : ∀ x ∈ xs, occursIn closing (line x) = false) : FreeLines (xs.flatMap fun x => [[], line x]) := by
  intro l hl
  obtain ⟨x, hx, hl⟩ := List.mem_flatMap.mp hl
  rcases List.mem_cons.mp hl with rfl | hl
  · rfl
  · rw [List.mem_singleton.mp hl]
    exact h x hx

/-- Trimming the right end of a line closes nothing. -/
theorem occursIn_stripRight {l : Text} (h : occursIn closing l = false) :
    occursIn closing (stripRight l) = false :=
  occursIn_of_isInfix (stripRight_isPrefix l).isInfix h

/-- A character that is no part of the closing mark. -/
theorem occursIn_cons {c : Char} (hc : c ∉ closing) {t : Text} (h : occursIn closing t = false) :
    occursIn closing (c :: t) = false :=
  occursIn_append_cons (u := []) hc (by decide) h

/-- A key does not close inline code. -/
theorem free_identifier {key : Text} (h : identifier? key = some key) : occursIn closing key = false := by
  obtain ⟨c, rest, rfl, hc, he⟩ := identifier?_spec h
  injection he with _ he
  refine occursIn_of_notMem (c := '}') (by decide) fun hm => ?_
  rcases List.mem_cons.mp hm with rfl | hm
  · exact absurd hc (by decide)
  · rw [he] at hm
    exact absurd (List.mem_takeWhile_imp hm) (by decide)

theorem free_metadata {m : Metadata} (hk : identifier? m.key = some m.key)
    (hv : occursIn closing m.value = false) : occursIn closing m.render = false := by
  have hrender : m.render = stripRight ('#' :: ' ' :: '@' :: (m.key ++ ' ' :: m.value)) := by
    simp [Metadata.render]
  rw [hrender]
  exact occursIn_stripRight (occursIn_cons (by decide) (occursIn_cons (by decide)
    (occursIn_cons (by decide) (occursIn_append_cons (by decide) (free_identifier hk) hv))))

theorem free_metadataLines {ms : List Metadata}
    (h : ∀ m ∈ ms, identifier? m.key = some m.key ∧ occursIn closing m.value = false) :
    FreeLines (ms.map Metadata.render) := by
  intro l hl
  obtain ⟨m, hm, rfl⟩ := List.mem_map.mp hl
  exact free_metadata (h m hm).1 (h m hm).2

/-! ## Values -/

/-- A request whose values do not close inline code. -/
structure Request.Free (r : Request) : Prop where
  url : occursIn closing r.url = false
  headers : ∀ h ∈ r.headers, occursIn closing h.value = false
  body : ∀ w ∈ r.body, occursIn closing w = false

/-- A block in which nothing closes inline code, from its request on. -/
structure Block.FreeBelow (b : Block) : Prop where
  request : ∀ r ∈ b.request, r.Free
  postRequestScripts : ∀ s ∈ b.postRequestScripts, occursIn closing s.render = false
  responseRedirect : ∀ x ∈ b.responseRedirect, occursIn closing x = false

/-- A block in which nothing closes inline code. -/
structure Block.Free (b : Block) : Prop extends b.FreeBelow where
  separatorText : ∀ x ∈ b.separatorText, occursIn closing x = false
  comments : ∀ c ∈ b.comments, occursIn closing c = false
  preRequestScripts : ∀ s ∈ b.preRequestScripts, occursIn closing s.render = false
  metadata : ∀ m ∈ b.metadata, occursIn closing m.value = false

theorem free_version {v : Text} (h : version? v = some v) : occursIn closing v = false := by
  have hdigit : ∀ {c}, isDigit c = true → c ≠ '%' := by
    rintro c hc rfl
    exact absurd hc (by decide)
  refine occursIn_of_notMem (c := '%') (by decide) ?_
  obtain ⟨major, hmaj, ⟨minor, -, hmin, -, rfl⟩ | ⟨-, -, rfl⟩⟩ := version?_spec h
  · simp [(hdigit hmaj).symm, (hdigit hmin).symm]
  · simp [(hdigit hmaj).symm]

theorem free_headerLine {key value : Text} (hkey : ∀ c ∈ key, isHeaderKey c = true)
    (hv : occursIn closing value = false) : occursIn closing (headerLine key value) = false := by
  have hfree : occursIn closing key = false :=
    occursIn_of_notMem (c := '}') (by decide) fun hm => absurd (hkey _ hm) (by decide)
  refine occursIn_append_cons (by decide) hfree ?_
  cases value with
  | nil => rfl
  | cons c v => exact occursIn_cons (by decide) hv

theorem Request.Free.lines {r : Request} (hf : r.Free) (h : r.Writable) : FreeLines r.lines := by
  have hmethods : ∀ m ∈ methods.map String.toList, occursIn closing m = false := by decide
  unfold Request.lines
  refine FreeLines.append (fun l hl => ?_) (FreeLines.spaced fun w hw => hf.body w (Option.mem_toList.mp hw))
  rcases List.mem_cons.mp hl with rfl | hl
  · exact occursIn_append_cons (by decide) (hmethods _ h.method)
      (occursIn_append_cons (by decide) hf.url (free_version h.version))
  · obtain ⟨x, hx, rfl⟩ := List.mem_map.mp hl
    obtain ⟨-, hkey, hv⟩ := h.headers x hx
    rw [headerLine_eq hv]
    exact free_headerLine hkey (hf.headers x hx)

theorem Block.FreeBelow.lines {b : Block} (hf : b.FreeBelow) (h : b.Writable) :
    FreeLines (b.request.toList.flatMap Request.lines ++ b.responseLines) := by
  refine FreeLines.append (fun l hl => ?_) (FreeLines.append (FreeLines.spaced fun s hs => ?_)
    (FreeLines.spaced fun x hx => hf.responseRedirect x (Option.mem_toList.mp hx)))
  · obtain ⟨r, hr, hl⟩ := List.mem_flatMap.mp hl
    exact (hf.request r (Option.mem_toList.mp hr)).lines (h.request r (Option.mem_toList.mp hr)) l hl
  · exact occursIn_cons (by decide) (occursIn_cons (by decide) (hf.postRequestScripts s hs))

/-- **A block of values that do not close inline code is written on such lines.** -/
theorem Block.Free.lines {b : Block} (hf : b.Free) (h : b.Writable) : FreeLines b.lines := by
  have hitems : FreeLines b.itemLines := by
    refine FreeLines.append hf.comments (FreeLines.append (fun l hl => ?_)
      (free_metadataLines fun m hm => ⟨(h.metadata m hm).1, hf.metadata m hm⟩))
    obtain ⟨s, hs, rfl⟩ := List.mem_map.mp hl
    exact occursIn_cons (by decide) (occursIn_cons (by decide) (hf.preRequestScripts s hs))
  have hseparator : occursIn closing (separatorLine b.separatorText) = false := by
    cases hs : b.separatorText with
    | none => decide
    | some x =>
        exact occursIn_cons (by decide) (occursIn_cons (by decide) (occursIn_cons (by decide)
          (occursIn_cons (by decide) (hf.separatorText x hs))))
  intro l hl
  rcases List.mem_cons.mp hl with rfl | hl
  · exact hseparator
  · rcases List.mem_cons.mp hl with rfl | hl
    · rfl
    · exact hitems.append (hf.toFreeBelow.lines h) l hl

theorem free_sheetText {bs : List Block} (h : ∀ b ∈ bs, b.Writable) (hf : ∀ b ∈ bs, b.Free) :
    occursIn closing (sheetText (bs.map Block.lines)) = false := by
  induction bs with
  | nil => rfl
  | cons b bs ih =>
      have hblock := (hf b (by simp)).lines (h b (by simp))
      have hrest := ih (fun b' hb' => h b' (by simp [hb'])) fun b' hb' => hf b' (by simp [hb'])
      have htext : sheetText ((b :: bs).map Block.lines) =
          '\n' :: (endLines b.lines ++ sheetText (bs.map Block.lines)) := rfl
      rw [htext]
      exact occursIn_cons (by decide) (occursIn_endLines (by decide) hblock hrest)

/-! ## Entries -/

/-- A value that is written as an entry is free of the closing mark if the entry is. -/
theorem free_value {k v : Text}
    (h : (Entry.item (.metadata (Token.bare .identifier k) (valueToken v))).Free) :
    occursIn closing v = false := by
  cases v with
  | nil => rfl
  | cons c v => exact h (Token.bare .value (c :: v)) (by simp [Entry.tokens, valueToken])

theorem free_script {s : Script} (h : s.Extracted) (hf : occursIn closing s.token.lexeme = false) :
    occursIn closing s.render = false := by
  rw [Script.render_token h]
  exact hf

theorem free_node {r : Request} {ending : Text} {responses : List Response}
    (hf : ∀ e ∈ (r.node ending responses).entries, e.Free) : r.Free := by
  rw [node_entries] at hf
  refine ⟨hf (.target (Token.bare .target r.url)) (by simp [Request.head])
    (Token.bare .target r.url) (by simp [Entry.tokens]), fun x hx => ?_, fun w hw => ?_⟩
  · have hline := hf (.header (Token.bare .header (headerLine x.key x.value)))
      (List.mem_append_left _ (by
        simp only [Request.head, List.mem_cons, List.mem_map]
        exact .inr (.inr (.inr ⟨x, hx, rfl⟩))))
      (Token.bare .header (headerLine x.key x.value)) (by simp [Entry.tokens])
    cases hv : x.value with
    | nil => rfl
    | cons c v =>
        rw [hv] at hline
        exact occursIn_of_isInfix ⟨x.key ++ [':', ' '], [], by simp [headerLine]⟩ hline
  · have hbody := hf (.body (Token.bare (announced w) (w ++ ending)))
      (List.mem_append_right _ (List.mem_append_left _
        (List.mem_map.mpr ⟨w, Option.mem_toList.mpr hw, rfl⟩)))
      (Token.bare (announced w) (w ++ ending)) (by simp [Entry.tokens])
    exact occursIn_of_isInfix (List.prefix_append w ending).isInfix hbody

theorem freeBelow_of_entries {b : Block} (h : b.Writable) {ending : Text}
    (hf : ∀ e ∈ (b.section ending).request.toList.flatMap RequestNode.entries, e.Free) :
    b.FreeBelow := by
  cases hr : b.request with
  | none =>
      obtain ⟨hpost, hred⟩ := h.responses hr
      exact ⟨by simp [hr], by simp [hpost], by simp [hred]⟩
  | some r =>
      have hnode : ∀ e ∈ (r.node ending b.responses).entries, e.Free := by
        intro e he
        exact hf e (by simpa [Block.section, hr] using he)
      have hresponse : ∀ x ∈ b.responses, (Entry.response x).Free := by
        intro x hx
        exact hnode _ (by simp [node_entries, hx])
      refine ⟨fun r' hr' => ?_, fun s hs => ?_, fun x hx => ?_⟩
      · obtain rfl : r = r' := Option.some.inj (hr.symm.trans hr')
        exact free_node hnode
      · have hfree := hresponse (.handler s.token)
          (List.mem_append_left _ (List.mem_map.mpr ⟨s, hs, rfl⟩))
        exact free_script (h.postRequestScripts s hs) (hfree s.token (by simp [Entry.tokens]))
      · have hfree := hresponse (.redirect (Token.bare .redirect x))
          (List.mem_append_right _ (List.mem_map.mpr ⟨x, Option.mem_toList.mpr hx, rfl⟩))
        exact hfree (Token.bare .redirect x) (by simp [Entry.tokens])

theorem free_of_entries {b : Block} (h : b.Writable) {ending : Text}
    (hf : ∀ e ∈ .separator b.separator :: (b.section ending).entries, e.Free) : b.Free := by
  have hitem : ∀ i ∈ b.items, (Entry.item i).Free := fun i hi =>
    hf _ (by simp [Section.entries, Block.section, hi])
  refine ⟨freeBelow_of_entries h fun e he => hf e (List.mem_cons_of_mem _ (List.mem_append_right _ he)),
    fun x hx => ?_, fun c hc => ?_, fun s hs => ?_, fun m hm => ?_⟩
  · have hfree := hf (.separator b.separator) (by simp) (Token.bare .separatorText (' ' :: x))
      (by simp [Entry.tokens, Block.separator, show b.separatorText = some x from hx])
    exact occursIn_of_isInfix (List.suffix_cons ' ' x).isInfix hfree
  · exact hitem (.comment (Token.bare .comment c))
      (List.mem_append_left _ (List.mem_map.mpr ⟨c, hc, rfl⟩)) (Token.bare .comment c) (by simp [Entry.tokens])
  · have hfree := hitem (.preRequest s.token)
      (List.mem_append_right _ (List.mem_append_left _ (List.mem_map.mpr ⟨s, hs, rfl⟩)))
    exact free_script (h.preRequestScripts s hs) (hfree s.token (by simp [Entry.tokens]))
  · exact free_value (hitem (.metadata (Token.bare .identifier m.key) (valueToken m.value))
      (List.mem_append_right _ (List.mem_append_right _ (List.mem_map.mpr ⟨m, hm, rfl⟩))))

theorem free_sections {bs : List Block} (h : ∀ b ∈ bs, b.Writable)
    (hf : ∀ e ∈ (sectionsOf bs).flatMap fun (text, s) => Entry.separator text :: s.entries, e.Free) :
    ∀ b ∈ bs, b.Free := by
  induction bs with
  | nil => simp
  | cons b bs ih =>
      rw [sectionsOf, List.flatMap_cons] at hf
      refine List.forall_mem_cons.mpr ⟨free_of_entries (h b (by simp)) fun e he =>
        hf e (List.mem_append_left _ he), ?_⟩
      exact ih (fun b' hb' => h b' (by simp [hb'])) fun e he => hf e (List.mem_append_right _ he)

/-! ## Documents -/

/-- Behind a path that starts like inline code, nothing closes it. -/
def Hushed (es : List Entry) : Prop := es.Pairwise fun e e' => e.IsOpen → e'.Free

theorem Script.IsOpen.token {s : Script} (h : s.IsOpen) : s.token.IsOpen := by
  cases s with
  | inline code => exact absurd h id
  | file path => exact ⟨rfl, h⟩

theorem unclosed_of_hushed {ss : List Script} (h : ∀ s ∈ ss, s.Extracted) {entry : Script → Entry}
    (he : ∀ s, (entry s).tokens = [s.token]) (hh : Hushed (ss.map entry)) : Unclosed ss := by
  refine (List.pairwise_map.mp hh).imp_of_mem ?_
  intro s s' _ hs' hquiet ho
  have hfree := hquiet ⟨s.token, by simp [he], ho.token⟩ s'.token (by simp [he])
  exact free_script (h s' hs') hfree

/-- What is done with the response comes last in the entries of a request. -/
theorem responses_suffix (r : Request) (ending : Text) (responses : List Response) :
    responses.map .response <:+ (r.node ending responses).entries := by
  unfold RequestNode.entries RequestTail.entries Request.node
  simp only [← List.cons_append, ← List.append_assoc]
  exact List.suffix_append _ _

/-- Where the entries of a block and of those below it are hushed, its scripts are not closed by
    mistake. -/
theorem quiet_of_hushed {b : Block} (h : b.Writable) {ending rest : Text} {es : List Entry}
    (hh : Hushed ((b.section ending).entries ++ es))
    (hes : (∀ e ∈ es, e.Free) → occursIn closing rest = false) : b.Quiet rest := by
  have hsection : (b.section ending).entries = b.comments.map (fun c => Entry.item
      (.comment (Token.bare .comment c))) ++ (b.preRequestScripts.map (fun s => Entry.item
      (.preRequest s.token)) ++ (b.metadata.map (fun m => Entry.item (.metadata
      (Token.bare .identifier m.key) (valueToken m.value))) ++
        (b.section ending).request.toList.flatMap RequestNode.entries)) := by
    simp [Section.entries, Block.section, Block.items, Function.comp_def]
  rw [hsection, List.append_assoc, List.append_assoc, List.append_assoc] at hh
  -- from the top: what is said of all entries is said of those below each script
  obtain ⟨-, hh, -⟩ := List.pairwise_append.mp hh
  obtain ⟨hpre, hh, hbelowPre⟩ := List.pairwise_append.mp hh
  obtain ⟨-, hrequest, -⟩ := List.pairwise_append.mp hh
  have hposts : Hushed (b.responses.map .response ++ es) := by
    cases hr : b.request with
    | none =>
        obtain ⟨hpost, hred⟩ := h.responses hr
        simpa [Block.section, hr, Block.responses, hpost, hred, Hushed] using hrequest
    | some r =>
        refine hrequest.sublist (List.Sublist.append ?_ (List.Sublist.refl _))
        simpa [Block.section, hr] using (responses_suffix r ending b.responses).sublist
  unfold Block.responses at hposts
  rw [List.map_append, List.append_assoc, List.map_map, List.map_map] at hposts
  obtain ⟨hpost, -, hbelowPost⟩ := List.pairwise_append.mp hposts
  refine ⟨unclosed_of_hushed h.preRequestScripts (fun _ => rfl) hpre, fun s hs ho => ?_,
    unclosed_of_hushed h.postRequestScripts (fun _ => rfl) hpost, fun s hs ho => ?_⟩
  · -- below an open path above the request stand the metadata, the request and all that follows
    have hfree := fun e he => hbelowPre (.item (.preRequest s.token)) (List.mem_map.mpr ⟨s, hs, rfl⟩) e he
      ⟨s.token, by simp [Entry.tokens], ho.token⟩
    have hvalues : ∀ m ∈ b.metadata, identifier? m.key = some m.key ∧ occursIn closing m.value = false := by
      intro m hm
      refine ⟨(h.metadata m hm).1, free_value (k := m.key) (hfree _ ?_)⟩
      exact List.mem_append_left _ (List.mem_map.mpr ⟨m, hm, rfl⟩)
    have hbelow : b.FreeBelow := freeBelow_of_entries h fun e he =>
      hfree e (List.mem_append_right _ (List.mem_append_left _ he))
    exact occursIn_endLines (by decide) (free_metadataLines hvalues)
      (occursIn_endLines (by decide) (hbelow.lines h) (hes fun e he =>
        hfree e (List.mem_append_right _ (List.mem_append_right _ he))))
  · -- below one that handles the response, only responses and what follows the block
    have hfree := fun e he => hbelowPost (.response (.handler s.token)) (List.mem_map.mpr ⟨s, hs, rfl⟩) e he
      ⟨s.token, by simp [Entry.tokens], ho.token⟩
    refine occursIn_endLines (by decide) (FreeLines.spaced fun y hy => ?_)
      (hes fun e he => hfree e (List.mem_append_right _ he))
    have hredirect := hfree (.response (.redirect (Token.bare .redirect y)))
      (List.mem_append_left _ (List.mem_map.mpr ⟨y, hy, rfl⟩))
    exact hredirect (Token.bare .redirect y) (by simp [Entry.tokens])

/-- **Where the entries of blocks are hushed, no path is closed like inline code.** -/
theorem quietBlocks_of_hushed {bs : List Block} (h : ∀ b ∈ bs, b.Writable)
    (hh : Hushed ((sectionsOf bs).flatMap fun (text, s) => .separator text :: s.entries)) :
    QuietBlocks bs := by
  induction bs with
  | nil => trivial
  | cons b bs ih =>
      rw [sectionsOf, List.flatMap_cons, List.cons_append] at hh
      have hblock := (List.pairwise_cons.mp hh).2
      have hrest := (List.pairwise_append.mp hblock).2.1
      exact ⟨quiet_of_hushed (h b (by simp)) hblock fun hfree =>
          free_sheetText (fun b' hb' => h b' (by simp [hb']))
            (free_sections (fun b' hb' => h b' (by simp [hb'])) hfree),
        ih (fun b' hb' => h b' (by simp [hb'])) hrest⟩

end HttpFile
