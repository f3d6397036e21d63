import HttpFile.Proofs.Document.ReadBack

/-!
# `HttpFile.Proofs.Document.Reread` — the document of what was written

The entries that a settled document is written as stand for the document itself, but for two things:
bodies end with the newlines behind them, and inline code is what is left when it is indented and
dedented again.

## Contents
- **Parts.** `Script.reread`, `Request.reread`, `Block.reread`, `Document.reread`.
- **From sections.** `ofSection_section`, `ofEntries_entries`.
- **Reading back.** `parse_text`.
-/

namespace HttpFile

open Text Unicode Syntax

/-! ## Parts -/

/-- The script that is read where a script was written. -/
def Script.reread (s : Script) : Script := Script.ofToken s.token

/-- The request that is read where a request was written, given what ends its body. -/
def Request.reread (r : Request) (ending : Text) : Request :=
  { r with body := r.body.map (· ++ ending) }

/-- The block that is read where a block was written. -/
def Block.reread (b : Block) (ending : Text) : Block :=
  { b with
    preRequestScripts := b.preRequestScripts.map Script.reread
    request := b.request.map (·.reread ending)
    postRequestScripts := b.postRequestScripts.map Script.reread }

/-- The blocks that are read where blocks were written. -/
def rereadBlocks : List Block → List Block
  | [] => []
  | b :: bs => b.reread (b.ending bs) :: rereadBlocks bs

/-- The document that is read where a document was written. -/
def Document.reread (d : Document) : Document := { d with blocks := rereadBlocks d.blocks }

theorem blank_ending (b : Block) (bs : List Block) : ∀ c ∈ b.ending bs, isBlank c = true := by
  unfold Block.ending bodyEnd
  split <;> decide

theorem Block.isEmpty_reread (b : Block) (ending : Text) : (b.reread ending).isEmpty = b.isEmpty := by
  cases hr : b.request <;> simp [Block.isEmpty, Block.reread, Request.reread, hr]

/-- A script comes back from a file exactly when the lines of its code are steady. -/
theorem Script.reread_eq_iff {s : Script} (h : s.Extracted) :
    s.reread = s ↔ ∀ code, s = .inline code → ∀ f ∈ fieldsAt '\n' code, Steady f := by
  cases s with
  | inline code =>
      have hread : (Script.inline code).reread = .inline (unwrapScript (Script.inline code).render) := rfl
      rw [hread, Script.inline.injEq, unwrapScript_render_iff h.1]
      simp
  | file path =>
      have hread : (Script.file path).reread = .file path := congrArg Script.file h.1.1
      simp [hread]

/-! ## From sections -/

theorem ofToken_token (s : Script) : Script.ofToken s.token = s.reread := rfl

theorem content_bare {k : Terminal} {l : Text} (h : Trimmed l) : (Token.bare k l).content = l := h

theorem content_valueToken {v : Text} (hv : IsValue v) :
    ((valueToken v).map (·.content)).getD [] = v := by
  cases v with
  | nil => rfl
  | cons c v => exact content_bare hv.1

theorem ofLine_headerLine {h : Header} (hh : h.Extracted) :
    Header.ofLine (Token.bare .header (headerLine h.key h.value)).content = h := by
  obtain ⟨key, value⟩ := h
  obtain ⟨hne, hkey, hv⟩ := hh
  have hline := Header.ofLine_content (g := []) (v := if value.isEmpty then [] else ' ' :: value) hne hkey
    (by simp)
  rw [List.append_nil] at hline
  have hstrip : strip (if value.isEmpty then [] else ' ' :: value) = value := by
    cases value with
    | nil => rfl
    | cons c v =>
        have hblank := hv.1.strip_append (u := [' ']) (v := []) (by decide) (by simp)
        rwa [List.append_nil] at hblank
  rw [hstrip] at hline
  exact hline

theorem ofNode_node (defaults : Defaults) {r : Request} (h : r.Writable) (ending : Text)
    (responses : List Response) : Request.ofNode defaults (r.node ending responses) = r.reread ending := by
  have hheaders : (r.headers.map fun h => Token.bare .header (headerLine h.key h.value)).map
      (fun t => Header.ofLine t.content) = r.headers := by
    rw [List.map_map]
    conv => rhs; rw [← List.map_id r.headers]
    exact List.map_congr_left fun x hx => ofLine_headerLine (h.headers x hx)
  have hkind : (r.body.map fun w => Token.bare (announced w) (w ++ ending)).bind
      (fun t => BodyKind.ofTerminal? t.kind) = r.bodyKind := by
    rw [h.bodyKind]
    cases r.body <;> rfl
  have hbody : (r.body.map fun w => Token.bare (announced w) (w ++ ending)).map (·.lexeme) =
      r.body.map (· ++ ending) := by
    cases r.body <;> rfl
  have hurl := h.folded
  obtain ⟨method, url, version, headers, body, bodyKind⟩ := r
  simp only [Request.ofNode, Request.node, Request.reread] at hheaders hkind hbody hurl ⊢
  rw [hheaders, hkind, hbody, Token.bare_lexeme, hurl]
  rfl

theorem handlers_node (b : Block) (r : Request) (ending : Text) :
    (r.node ending b.responses).handlers = b.postRequestScripts.map Script.reread := by
  simp [RequestNode.handlers, Request.node, Block.responses, List.filterMap_map, Function.comp_def,
    ofToken_token]

theorem redirect?_node {b : Block} (h : b.Writable) (r : Request) (ending : Text) :
    (r.node ending b.responses).redirect? = b.responseRedirect := by
  simp only [RequestNode.redirect?, Request.node, Block.responses, List.filterMap_append,
    List.filterMap_map, Function.comp_def]
  cases hx : b.responseRedirect with
  | none => simp
  | some x => simp [content_bare (h.responseRedirect x hx).1.1]

theorem ofSection_section (defaults : Defaults) {b : Block} (h : b.Writable) (ending : Text) :
    Block.ofSection defaults b.separator (b.section ending) = b.reread ending := by
  have hseparator : (b.separator.map (·.content)).filter (· ≠ []) = b.separatorText := by
    unfold Block.separator
    cases hs : b.separatorText with
    | none => rfl
    | some x =>
        obtain ⟨hv, hne⟩ := h.separatorText x hs
        have hx : (Token.bare .separatorText (' ' :: x)).content = x := by
          have hblank := hv.1.strip_append (u := [' ']) (v := []) (by decide) (by simp)
          rwa [List.append_nil] at hblank
        simp [hx, hne]
  -- comments and metadata hold what they were written from
  have hcomments : b.comments.map (fun c => (Token.bare .comment c).content) = b.comments := by
    conv => rhs; rw [← List.map_id b.comments]
    exact List.map_congr_left fun c hc => content_bare (h.comments c hc).1.1
  have hmetadata : b.metadata.map (fun m => (⟨(Token.bare .identifier m.key).content,
      ((valueToken m.value).map (·.content)).getD []⟩ : Metadata)) = b.metadata := by
    conv => rhs; rw [← List.map_id b.metadata]
    refine List.map_congr_left fun m hm => ?_
    obtain ⟨hk, hv⟩ := h.metadata m hm
    rw [content_bare (solid_of_identifier hk).trimmed, content_valueToken hv]
    rfl
  simp only [Block.ofSection, Block.section, hseparator, Block.items, List.filterMap_append,
    List.filterMap_map, Function.comp_def]
  cases hr : b.request with
  | none =>
      obtain ⟨hpost, hred⟩ := h.responses hr
      simp [Block.reread, hr, hpost, hred, hcomments, hmetadata, ofToken_token]
  | some r =>
      simp [Block.reread, hr, hcomments, hmetadata, ofToken_token, ofNode_node defaults (h.request r hr),
        handlers_node, redirect?_node h]

theorem group_entries (d : Document) :
    group d.entries = { here := { items := d.variables }, after := sectionsOf d.blocks } := by
  have hsections := group_sections (sectionsOf d.blocks)
  unfold group at hsections ⊢
  unfold Document.entries
  rw [List.foldr_append, hsections, foldr_items]
  simp

theorem declarations_variables {d : Document} (h : d.Writable) :
    ({ items := d.variables } : Section).declarations = d.declarations := by
  unfold Section.declarations Document.variables
  simp only [List.filterMap_map, Function.comp_def]
  rw [List.filterMap_eq_map']
  conv => rhs; rw [← List.map_id d.declarations]
  refine List.map_congr_left fun v hv => ?_
  obtain ⟨hk, hval⟩ := h.declarations v hv
  rw [content_bare (solid_of_identifier hk).trimmed, content_valueToken hval]
  rfl

/-- A block declares nothing. -/
theorem declarations_section (b : Block) (ending : Text) : (b.section ending).declarations = [] := by
  simp [Section.declarations, Block.section, Block.items, List.filterMap_map,]

theorem declarations_sectionsOf (bs : List Block) :
    (sectionsOf bs).flatMap (fun (_, s) => s.declarations) = [] := by
  induction bs with
  | nil => rfl
  | cons b bs ih =>
      rw [sectionsOf, List.flatMap_cons, ih]
      simp only [declarations_section, List.append_nil]

theorem blocks_sectionsOf (defaults : Defaults) {bs : List Block}
    (h : ∀ b ∈ bs, b.isEmpty = false ∧ b.Writable) :
    ((sectionsOf bs).map fun (separator, s) => Block.ofSection defaults separator s).filter
      (fun b => !b.isEmpty) = rereadBlocks bs := by
  induction bs with
  | nil => rfl
  | cons b bs ih =>
      obtain ⟨hne, hw⟩ := h b (by simp)
      have hblock := ofSection_section defaults hw (b.ending bs)
      have hkeep : (b.reread (b.ending bs)).isEmpty = false := by rw [Block.isEmpty_reread, hne]
      have hrest := ih fun b' hb' => h b' (by simp [hb'])
      rw [sectionsOf, List.map_cons, rereadBlocks, ← hrest]
      simp only [hblock]
      rw [List.filter_cons_of_pos (by simp [hkeep])]

/-- **The entries that a document is written as stand for the document that is read back.** -/
theorem ofEntries_entries (defaults : Defaults) {d : Document} (h : d.Writable) :
    Document.ofEntries defaults d.entries = d.reread := by
  have hhead : (Block.ofSection defaults none { items := d.variables }).isEmpty = true := by
    simp [Block.isEmpty, Block.ofSection, Document.variables, List.filterMap_map]
  unfold Document.ofEntries Document.ofSections Grouped.sections
  rw [group_entries]
  simp only [List.flatMap_cons, declarations_variables h, declarations_sectionsOf, List.append_nil,
    List.map_cons]
  rw [List.filter_cons_of_neg (by simp [hhead]), blocks_sectionsOf defaults h.blocks]
  rfl

/-! ## Reading back -/

/-- **A written document is read back.** -/
theorem parse_text (defaults : Defaults) (source : Text) {d : Document} (h : d.Writable)
    (hr : ∀ b ∈ d.blocks, ∀ r ∈ b.request, ∀ w ∈ r.body, '\r' ∉ w)
    (ho : outline .lineStart d.text = some d.entries) :
    Document.parse defaults source d.text = .ok d.reread := by
  rw [← normalize_text h hr] at ho
  rw [parse_of_outline defaults source ho, ofEntries_entries defaults h]

end HttpFile
