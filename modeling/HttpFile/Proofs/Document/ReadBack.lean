import HttpFile.Proofs.Document.Written

/-!
# `HttpFile.Proofs.Document.ReadBack` — a written document, read back

The lines of a settled document are read back as the entries they stand for, block by block, as long
as three things do not happen: a comment opens a section, a body ends where it starts, or a path that
starts like inline code is closed like it by something below.

## Contents
- **Entries.** `Block.written`, `Block.entries`, `Document.entries`: what a document is written as.
- **Lists of lines.** `outline_each`, `outline_preRequests`, `outline_handlers`.
- **Parts of a block.** `outline_items`, `outline_head`, `outline_belowHead`, `outline_responses`.
- **Blocks.** `Block.Quiet`, `outline_block`, `outline_blocks`, `outline_document`.
-/

namespace HttpFile

open Text Unicode Syntax

/-! ## Entries -/

/-- The lines about the response of a block. -/
def Block.responses (b : Block) : List Response :=
  b.postRequestScripts.map (fun s => Response.handler s.token) ++
    b.responseRedirect.toList.map fun x => Response.redirect (Token.bare .redirect x)

/-- The node that a request is written as, given what ends its body and what is below it. -/
def Request.node (r : Request) (ending : Text) (responses : List Response) : RequestNode :=
  { method := some (Token.bare .method r.method)
    target := Token.bare .target r.url
    tail :=
      { version := some (Token.bare .version r.version)
        headers := r.headers.map fun h => Token.bare .header (headerLine h.key h.value)
        body := r.body.map fun w => Token.bare (announced w) (w ++ ending)
        responses := responses } }

/-- The entries of the line of a request and its headers. -/
def Request.head (r : Request) : List Entry :=
  .method (Token.bare .method r.method) :: .target (Token.bare .target r.url) ::
    .version (Token.bare .version r.version) ::
    r.headers.map fun h => .header (Token.bare .header (headerLine h.key h.value))

theorem node_entries (r : Request) (ending : Text) (responses : List Response) :
    (r.node ending responses).entries = r.head ++
      (r.body.toList.map (fun w => Entry.body (Token.bare (announced w) (w ++ ending))) ++
        responses.map .response) := by
  cases hb : r.body <;>
    simp [Request.node, Request.head, RequestNode.entries, RequestTail.entries, hb, Function.comp_def]

/-- The lines of a block above its request. -/
def Block.items (b : Block) : List Item :=
  b.comments.map (fun c => Item.comment (Token.bare .comment c)) ++
    (b.preRequestScripts.map (fun s => Item.preRequest s.token) ++
      b.metadata.map fun m => Item.metadata (Token.bare .identifier m.key) (valueToken m.value))

/-- The section that a block is written as. -/
def Block.section (b : Block) (ending : Text) : Section :=
  { items := b.items, request := b.request.map fun r => r.node ending b.responses }

/-- The text of the separator of a block. -/
def Block.separator (b : Block) : Option Token :=
  b.separatorText.map fun x => Token.bare .separatorText (' ' :: x)

/-- What ends the body of a block that other blocks follow. -/
def Block.ending (b : Block) (bs : List Block) : Text :=
  bodyEnd (endLines b.responseLines ++ sheetText (bs.map Block.lines))

/-- The sections that blocks are written as. -/
def sectionsOf : List Block → List (Option Token × Section)
  | [] => []
  | b :: bs => (b.separator, b.section (b.ending bs)) :: sectionsOf bs

/-- The variables of a document. -/
def Document.variables (d : Document) : List Item :=
  d.declarations.map fun v => .variable (Token.bare .identifier v.key) (valueToken v.value)

/-- The entries that a document is written as. -/
def Document.entries (d : Document) : List Entry :=
  d.variables.map .item ++ (sectionsOf d.blocks).flatMap fun (text, s) => .separator text :: s.entries

/-! ## Lists of lines -/

/-- Lines that are each read as an entry are read as their entries. -/
theorem outline_each {α : Type} (place : Context) (line : α → Text) (entry : α → Entry) {xs : List α}
    (h : ∀ x ∈ xs, ∀ rest, outline place (line x ++ '\n' :: rest) =
      (outline place rest).map (entry x :: ·)) (rest : Text) :
    outline place (endLines (xs.map line) ++ rest) = (outline place rest).map (xs.map entry ++ ·) := by
  induction xs with
  | nil => simp
  | cons x xs ih =>
      rw [List.map_cons, endLines_cons, List.append_assoc, List.cons_append, h x (by simp),
        ih fun y hy => h y (by simp [hy]), Option.map_map]
      rfl

/-- Of scripts in a row, none closes a path before it. -/
def Unclosed (ss : List Script) : Prop :=
  ss.Pairwise fun s s' => s.IsOpen → occursIn closing s'.render = false

/-- Scripts in a row are read as such. -/
theorem outline_preRequests {ss : List Script} (h : ∀ s ∈ ss, s.Extracted) (hq : Unclosed ss)
    {rest : Text} (hr : ∀ s ∈ ss, s.IsOpen → occursIn closing rest = false) :
    outline .lineStart (endLines (ss.map fun s => ['<', ' '] ++ s.render) ++ rest) =
      (outline .lineStart rest).map (ss.map (fun s => .item (.preRequest s.token)) ++ ·) := by
  induction ss with
  | nil => simp
  | cons s ss ih =>
      obtain ⟨hs, hss⟩ := List.pairwise_cons.mp hq
      have hopen : s.IsOpen →
          occursIn closing (endLines (ss.map fun s => ['<', ' '] ++ s.render) ++ rest) = false := by
        intro ho
        have hline : ∀ l ∈ ss.map (fun s => ['<', ' '] ++ s.render), occursIn closing l = false := by
          intro l hl
          obtain ⟨s', hs', rfl⟩ := List.mem_map.mp hl
          exact occursIn_append_cons (u := ['<']) (by decide) (by decide) (hs s' hs' ho)
        exact occursIn_endLines (by decide) hline (hr s (by simp) ho)
      have htext : endLines ((s :: ss).map fun s => ['<', ' '] ++ s.render) ++ rest =
          ['<', ' '] ++ (s.render ++ '\n' ::
            (endLines (ss.map fun s => ['<', ' '] ++ s.render) ++ rest)) := by simp
      rw [htext, outline_preRequest (h s (by simp)) hopen, ih (fun s' hs' => h s' (by simp [hs'])) hss
        fun s' hs' => hr s' (by simp [hs']), Option.map_map]
      rfl

/-! ## Parts of a block -/

/-- The lines above a request, down to metadata. -/
theorem outline_items {b : Block} (h : b.Writable) (hc : ∀ c ∈ b.comments, ¬['#', '#', '#'] <+: c)
    (hq : Unclosed b.preRequestScripts) {rest : Text}
    (hr : ∀ s ∈ b.preRequestScripts, s.IsOpen →
      occursIn closing (endLines (b.metadata.map Metadata.render) ++ rest) = false) :
    outline .lineStart (endLines b.itemLines ++ rest) =
      (outline .lineStart rest).map (b.items.map .item ++ ·) := by
  have hcomments := outline_each .lineStart id (fun c => .item (.comment (Token.bare .comment c)))
    fun c (hmem : c ∈ b.comments) rest => outline_comment ⟨(h.comments c hmem).1,
      .inl (h.comments c hmem).2.1, hc c hmem, (h.comments c hmem).2.2⟩ (h.comments c hmem).2.1 rest
  have hmetadata := outline_each .lineStart Metadata.render
    (fun m => .item (.metadata (Token.bare .identifier m.key) (valueToken m.value)))
    fun m (hmem : m ∈ b.metadata) rest => outline_metadata (h.metadata m hmem).1 (h.metadata m hmem).2 rest
  rw [List.map_id] at hcomments
  unfold Block.itemLines Block.items
  rw [endLines_append, endLines_append, List.append_assoc, List.append_assoc, hcomments,
    outline_preRequests h.preRequestScripts hq hr, hmetadata, Option.map_map, Option.map_map]
  simp [Function.comp_def]

/-- The line of a request and its headers. -/
theorem outline_head {r : Request} (h : r.Writable) (rest : Text) :
    outline .lineStart (endLines ((r.method ++ ' ' :: (r.url ++ ' ' :: r.version)) ::
        r.headers.map fun h => stripRight (h.key ++ ": " ++ h.value)) ++ rest) =
      (outline .headers rest).map (r.head ++ ·) := by
  have hheaders := outline_each .headers (fun h : Header => stripRight (h.key ++ ": " ++ h.value))
    (fun h => .header (Token.bare .header (headerLine h.key h.value)))
    fun x (hx : x ∈ r.headers) rest => by
      obtain ⟨hne, hkey, hv⟩ := h.headers x hx
      rw [headerLine_eq hv]
      exact outline_header hne hkey hv rest
  have hline : endLines ((r.method ++ ' ' :: (r.url ++ ' ' :: r.version)) ::
      r.headers.map fun h => stripRight (h.key ++ ": " ++ h.value)) ++ rest =
      r.method ++ ' ' :: (r.url ++ ' ' :: (r.version ++ '\n' ::
        (endLines (r.headers.map fun h => stripRight (h.key ++ ": " ++ h.value)) ++ rest))) := by simp
  rw [hline, outline_requestLine h.method h.target h.version, hheaders, Option.map_map]
  rfl

/-- Below the head of a request, an empty line comes before whatever follows. -/
theorem outline_below {rest : Text} (hr : Follows rest) :
    outline .headers rest = outline .beforeBody (rest.drop 1) ∧
      outline .responses rest = outline .belowResponses (rest.drop 1) := by
  rcases hr with rfl | ⟨s, rfl, -⟩
  · exact ⟨rfl, rfl⟩
  · exact ⟨outline_newline rfl s, outline_newline rfl s⟩

/-- The body of a request, if there is one. -/
theorem outline_belowHead {body : Option Text} (h : ∀ w ∈ body, Trimmed w ∧ w ≠ [])
    (hi : ∀ w ∈ body, Inert w) {rest : Text} (hr : Follows rest) :
    ∃ place, BelowRequest place ∧
      outline .headers (endLines (body.toList.flatMap fun w => [[], w]) ++ rest) =
        (outline place (rest.drop 1)).map
          (body.toList.map (fun w => .body (Token.bare (announced w) (w ++ bodyEnd rest))) ++ ·) := by
  cases body with
  | none =>
      refine ⟨.beforeBody, .inl rfl, ?_⟩
      simpa using (outline_below hr).1
  | some w =>
      refine ⟨.afterBody, .inr (.inl rfl), ?_⟩
      have htext : endLines ((some w).toList.flatMap fun w => [[], w]) ++ rest =
          '\n' :: (w ++ '\n' :: rest) := by simp
      obtain ⟨ht, hne⟩ := h w rfl
      rw [htext, outline_newline rfl, outline_body ht hne (hi w rfl) hr]
      rfl

/-- A line behind an empty one that ends a body. -/
theorem follows_spaced {α : Type} {line : α → Text} {xs : List α}
    (h : ∀ x ∈ xs, endsBody (line x) = true) {rest : Text} (hf : Follows rest) :
    Follows (endLines (xs.flatMap fun x => [[], line x]) ++ rest) := by
  cases xs with
  | nil => exact hf
  | cons x xs =>
      refine .inr ⟨line x ++ '\n' :: (endLines (xs.flatMap fun x => [[], line x]) ++ rest), by simp, ?_⟩
      rw [endsBody_append_newline]
      exact h x (by simp)

theorem follows_handlers {ss : List Script} {rest : Text} (hf : Follows rest) :
    Follows (endLines (ss.flatMap fun s => [[], ['>', ' '] ++ s.render]) ++ rest) :=
  follows_spaced (fun _ _ => rfl) hf

/-- The scripts below a request. -/
theorem outline_handlers {ss : List Script} (h : ∀ s ∈ ss, s.Extracted) (hq : Unclosed ss)
    {rest : Text} (hr : ∀ s ∈ ss, s.IsOpen → occursIn closing rest = false) (hf : Follows rest)
    {place : Context} (hp : BelowRequest place) :
    ∃ place', BelowRequest place' ∧
      outline place ((endLines (ss.flatMap fun s => [[], ['>', ' '] ++ s.render]) ++ rest).drop 1) =
        (outline place' (rest.drop 1)).map (ss.map (fun s => .response (.handler s.token)) ++ ·) := by
  induction ss generalizing place with
  | nil => exact ⟨place, hp, by simp⟩
  | cons s ss ih =>
      obtain ⟨hs, hss⟩ := List.pairwise_cons.mp hq
      -- below an open path stand the other scripts, which close nothing, and the rest
      have hopen : s.IsOpen → occursIn closing
          (endLines (ss.flatMap fun s => [[], ['>', ' '] ++ s.render]) ++ rest) = false := by
        intro ho
        refine occursIn_endLines (by decide) (fun l hl => ?_) (hr s (by simp) ho)
        obtain ⟨s', hs', hl⟩ := List.mem_flatMap.mp hl
        rcases List.mem_cons.mp hl with rfl | hl
        · rfl
        · rw [List.mem_singleton.mp hl]
          exact occursIn_append_cons (u := ['>']) (by decide) (by decide) (hs s' hs' ho)
      have htext : (endLines ((s :: ss).flatMap fun s => [[], ['>', ' '] ++ s.render]) ++ rest).drop 1 =
          ['>', ' '] ++ (s.render ++ '\n' ::
            (endLines (ss.flatMap fun s => [[], ['>', ' '] ++ s.render]) ++ rest)) := by simp
      obtain ⟨place', hp', hrest⟩ := ih (fun s' hs' => h s' (by simp [hs'])) hss
        (fun s' hs' => hr s' (by simp [hs'])) (show BelowRequest .belowResponses from .inr (.inr rfl))
      refine ⟨place', hp', ?_⟩
      rw [htext, outline_handler hp (h s (by simp)) hopen, (outline_below (follows_handlers hf)).2,
        hrest, Option.map_map]
      rfl

/-- What the blocks below a block start with. -/
def Starts (rest : Text) : Prop := rest = [] ∨ ∃ s, rest = '\n' :: (['#', '#', '#'] ++ s)

theorem Starts.follows {rest : Text} (h : Starts rest) : Follows rest := by
  rcases h with rfl | ⟨s, rfl⟩
  · exact .inl rfl
  · exact .inr ⟨_, rfl, rfl⟩

/-- The next section is read below a request as it is at the start of a line. -/
theorem Starts.outline {rest : Text} (h : Starts rest) {place : Context} (hp : BelowRequest place) :
    outline place (rest.drop 1) = outline .lineStart rest := by
  rcases h with rfl | ⟨s, rfl⟩
  · rcases hp with rfl | rfl | rfl <;> rfl
  · rw [outline_newline rfl]
    exact outline_section hp s

theorem follows_redirect {x : Option Text} (hx : ∀ y ∈ x, ['>', '>'] <+: y) {rest : Text}
    (hf : Follows rest) : Follows (endLines (x.toList.flatMap fun x => [[], x]) ++ rest) := by
  refine follows_spaced (fun y hy => ?_) hf
  obtain ⟨r, rfl⟩ := hx y (Option.mem_toList.mp hy)
  rfl

theorem Block.Writable.follows {b : Block} (h : b.Writable) {rest : Text} (hf : Follows rest) :
    Follows (endLines b.responseLines ++ rest) := by
  unfold Block.responseLines
  rw [endLines_append, List.append_assoc]
  exact follows_handlers (follows_redirect (fun x hx => (h.responseRedirect x hx).2) hf)

/-- The redirect of a response, if there is one. -/
theorem outline_redirects {x : Option Text} (hx : ∀ y ∈ x, IsValue y ∧ ['>', '>'] <+: y) {rest : Text}
    (hs : Starts rest) {place : Context} (hp : BelowRequest place) :
    outline place ((endLines (x.toList.flatMap fun x => [[], x]) ++ rest).drop 1) =
      (outline .lineStart rest).map
        (x.toList.map (fun x => .response (.redirect (Token.bare .redirect x))) ++ ·) := by
  cases x with
  | none => simpa using hs.outline hp
  | some y =>
      have htext : (endLines ((some y).toList.flatMap fun x => [[], x]) ++ rest).drop 1 =
          y ++ '\n' :: rest := by simp
      obtain ⟨hv, hmark⟩ := hx y rfl
      rw [htext, outline_redirect hp hv hmark, (outline_below hs.follows).2,
        hs.outline (.inr (.inr rfl))]
      rfl

/-- What is done with the response of a request. -/
theorem outline_responses {b : Block} (h : b.Writable) (hq : Unclosed b.postRequestScripts)
    {rest : Text} (hs : Starts rest)
    (hr : ∀ s ∈ b.postRequestScripts, s.IsOpen →
      occursIn closing (endLines (b.responseRedirect.toList.flatMap fun x => [[], x]) ++ rest) = false)
    {place : Context} (hp : BelowRequest place) :
    outline place ((endLines b.responseLines ++ rest).drop 1) =
      (outline .lineStart rest).map (b.responses.map .response ++ ·) := by
  have hfollows := follows_redirect (fun x hx => (h.responseRedirect x hx).2) hs.follows
  obtain ⟨place', hp', hhandlers⟩ := outline_handlers h.postRequestScripts hq hr hfollows hp
  unfold Block.responseLines Block.responses
  rw [endLines_append, List.append_assoc, hhandlers, outline_redirects h.responseRedirect hs hp',
    Option.map_map]
  simp [Function.comp_def]

/-- **A request with what is below it.** -/
theorem outline_request {b : Block} (h : b.Writable) {r : Request} (hr : b.request = some r)
    (hi : ∀ w ∈ r.body, Inert w) (hq : Unclosed b.postRequestScripts) {rest : Text} (hs : Starts rest)
    (hclosed : ∀ s ∈ b.postRequestScripts, s.IsOpen →
      occursIn closing (endLines (b.responseRedirect.toList.flatMap fun x => [[], x]) ++ rest) = false) :
    outline .lineStart (endLines (r.lines ++ b.responseLines) ++ rest) =
      (outline .lineStart rest).map
        ((r.node (bodyEnd (endLines b.responseLines ++ rest)) b.responses).entries ++ ·) := by
  have hw := h.request r hr
  obtain ⟨place, hp, hbody⟩ := outline_belowHead hw.body hi (h.follows hs.follows)
  unfold Request.lines
  rw [endLines_append, endLines_append, List.append_assoc, List.append_assoc, outline_head hw, hbody,
    outline_responses h hq hs hclosed hp, Option.map_map, Option.map_map]
  simp [Function.comp_def, node_entries]

/-! ## Blocks -/

/-- In a block and below it, no path that starts like inline code is closed like it. -/
structure Block.Quiet (b : Block) (rest : Text) : Prop where
  pre : Unclosed b.preRequestScripts
  belowPre : ∀ s ∈ b.preRequestScripts, s.IsOpen → occursIn closing
    (endLines (b.metadata.map Metadata.render) ++
      (endLines (b.request.toList.flatMap Request.lines ++ b.responseLines) ++ rest)) = false
  post : Unclosed b.postRequestScripts
  belowPost : ∀ s ∈ b.postRequestScripts, s.IsOpen →
    occursIn closing (endLines (b.responseRedirect.toList.flatMap fun x => [[], x]) ++ rest) = false

/-- The first lines of a block. -/
theorem outline_opening {b : Block} (h : b.Writable) (rest : Text) :
    outline .lineStart (endLines b.lines ++ rest) =
      (outline .lineStart (endLines b.itemLines ++
        (endLines (b.request.toList.flatMap Request.lines ++ b.responseLines) ++ rest))).map
        (.separator b.separator :: ·) := by
  have htext : endLines b.lines ++ rest = separatorLine b.separatorText ++ '\n' :: ('\n' ::
      (endLines b.itemLines ++
        (endLines (b.request.toList.flatMap Request.lines ++ b.responseLines) ++ rest))) := by
    simp [Block.lines, endLines_append]
  rw [htext, outline_separator h.separatorText, outline_newline rfl]
  rfl

/-- **A block is read back as the section it is written as.** -/
theorem outline_block {b : Block} (h : b.Writable) (hc : ∀ c ∈ b.comments, ¬['#', '#', '#'] <+: c)
    (hi : ∀ r ∈ b.request, ∀ w ∈ r.body, Inert w) {rest : Text} (hs : Starts rest)
    (hq : b.Quiet rest) :
    outline .lineStart (endLines b.lines ++ rest) =
      (outline .lineStart rest).map ((.separator b.separator ::
        (b.section (bodyEnd (endLines b.responseLines ++ rest))).entries) ++ ·) := by
  rw [outline_opening h, outline_items h hc hq.pre hq.belowPre]
  cases hr : b.request with
  | none =>
      obtain ⟨hpost, hred⟩ := h.responses hr
      simp [Block.responseLines, Block.section, Section.entries, hr, hpost, hred, Function.comp_def]
  | some r =>
      have hread := outline_request h hr (hi r hr) hq.post hs hq.belowPost
      simp only [Option.toList_some, List.flatMap_cons, List.flatMap_nil, List.append_nil]
      rw [hread, Option.map_map, Option.map_map]
      simp [Block.section, Section.entries, hr, Function.comp_def]

/-- Blocks below each other start with a separator. -/
theorem starts_blocks (bs : List Block) : Starts (sheetText (bs.map Block.lines)) := by
  cases bs with
  | nil => exact .inl rfl
  | cons b bs =>
      obtain ⟨x, hx⟩ : ∃ x, separatorLine b.separatorText = ['#', '#', '#'] ++ x := by
        cases b.separatorText with
        | none => exact ⟨[], rfl⟩
        | some y => exact ⟨' ' :: y, rfl⟩
      have htext : sheetText ((b :: bs).map Block.lines) =
          '\n' :: (endLines b.lines ++ sheetText (bs.map Block.lines)) := rfl
      rw [htext, Block.lines, endLines_cons, hx, List.append_assoc, List.append_assoc]
      exact .inr ⟨_, rfl⟩

/-- None of the blocks has a path that is closed like inline code, in it or below. -/
def QuietBlocks : List Block → Prop
  | [] => True
  | b :: bs => b.Quiet (sheetText (bs.map Block.lines)) ∧ QuietBlocks bs

/-- **Blocks are read back as the sections they are written as.** -/
theorem outline_blocks {bs : List Block} (h : ∀ b ∈ bs, b.Writable)
    (hc : ∀ b ∈ bs, ∀ c ∈ b.comments, ¬['#', '#', '#'] <+: c)
    (hi : ∀ b ∈ bs, ∀ r ∈ b.request, ∀ w ∈ r.body, Inert w) (hq : QuietBlocks bs) :
    outline .lineStart (sheetText (bs.map Block.lines)) =
      some ((sectionsOf bs).flatMap fun (text, s) => .separator text :: s.entries) := by
  induction bs with
  | nil => rfl
  | cons b bs ih =>
      have htext : sheetText ((b :: bs).map Block.lines) =
          '\n' :: (endLines b.lines ++ sheetText (bs.map Block.lines)) := rfl
      rw [htext, outline_newline rfl, outline_block (h b (by simp)) (hc b (by simp)) (hi b (by simp))
        (starts_blocks bs) hq.1, ih (fun b' hb' => h b' (by simp [hb'])) (fun b' hb' => hc b' (by simp [hb']))
        (fun b' hb' => hi b' (by simp [hb'])) hq.2]
      rfl

/-- The variables of a document come before its blocks. -/
theorem outline_variables {d : Document} (h : d.Writable) :
    outline .lineStart d.text = (outline .lineStart (sheetText (d.blocks.map Block.lines))).map
      (d.variables.map .item ++ ·) := by
  rw [outline_text h]
  unfold Document.sheets
  cases hd : d.declarations with
  | nil => simp [Document.variables, hd]
  | cons v vs =>
      have hvariables := outline_each .lineStart Variable.render
        (fun v => .item (.variable (Token.bare .identifier v.key) (valueToken v.value)))
        (fun v (hv : v ∈ d.declarations) rest =>
          outline_variable (h.declarations v hv).1 (h.declarations v hv).2 rest)
        (sheetText (d.blocks.map Block.lines))
      have htext : sheetText ((if (v :: vs).isEmpty then [] else [(v :: vs).map Variable.render]) ++
          d.blocks.map Block.lines) = '\n' :: (endLines (d.declarations.map Variable.render) ++
            sheetText (d.blocks.map Block.lines)) := by
        rw [hd]
        rfl
      rw [htext, outline_newline rfl, hvariables]
      simp [Document.variables, Function.comp_def]

/-- **A written document is read back as its entries.** -/
theorem outline_document {d : Document} (h : d.Writable)
    (hc : ∀ b ∈ d.blocks, ∀ c ∈ b.comments, ¬['#', '#', '#'] <+: c)
    (hi : ∀ b ∈ d.blocks, ∀ r ∈ b.request, ∀ w ∈ r.body, Inert w) (hq : QuietBlocks d.blocks) :
    outline .lineStart d.text = some d.entries := by
  rw [outline_variables h, outline_blocks (fun b hb => (h.blocks b hb).2) hc hi hq]
  rfl

end HttpFile
