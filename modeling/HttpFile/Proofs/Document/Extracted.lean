import HttpFile.Proofs.Document.Script
import HttpFile.Proofs.Syntax.Entries
import HttpFile.Proofs.Text.Newlines
import Mathlib.Data.List.Basic

/-!
# `HttpFile.Proofs.Document.Extracted` — what a document that was read is like

The parts of a document come from tokens, and what is known of a token of its kind is known of the
part. Reading a file either fails with a position or gives a document in which every part has the
form of its kind; and no request of the file is left out.

## Contents
- **Newlines.** `SingleLine`, `carriage_notMem_normalize`.
- **Parts.** `Request.Extracted`, `Block.Sound`, `Block.Extracted`, `Document.Extracted`.
- **From tokens to parts.** One lemma for each part, from the entry it comes from.
- **Sections.** `sections`, `Document.ofSections`, `ofTree_ofTokens`.
- **Documents.** `extracted_of_parse`, `parse_extracted`.
-/

namespace HttpFile

open Text Unicode Syntax

/-! ## Newlines -/

/-- A text on one line. -/
def SingleLine (t : Text) : Prop := '\n' ∉ t ∧ '\r' ∉ t

instance (t : Text) : Decidable (SingleLine t) := inferInstanceAs (Decidable (_ ∧ _))

theorem SingleLine.of_isInfix {s t : Text} (ht : SingleLine t) (h : s <:+: t) : SingleLine s :=
  ⟨fun hm => ht.1 (h.subset hm), fun hm => ht.2 (h.subset hm)⟩

theorem carriage_notMem_normalize (t : Text) : '\r' ∉ normalize t := by
  have hu := carriage_notMem_unifyNewlines t
  unfold Syntax.normalize
  simp only
  split
  · exact hu
  · rw [List.mem_append]
    exact fun hm => hm.elim hu (by decide)

/-! ## Parts -/

/-- A declared value: nothing, or a trimmed line. -/
def IsValue (v : Text) : Prop := Trimmed v ∧ SingleLine v

instance (v : Text) : Decidable (IsValue v) := inferInstanceAs (Decidable (_ ∧ _))

/-- What is known of a script that was read. A path that starts like inline code is not closed. -/
def Script.Extracted : Script → Prop
  | .inline code => Trimmed code ∧ '\r' ∉ code ∧ occursIn closing code = false
  | .file path => IsValue path ∧ path ≠ [] ∧
    (['{', '%'] <+: path → occursIn closing (path.drop 2) = false)

/-- What is known of a header that was read. -/
def Header.Extracted (h : Header) : Prop :=
  h.key ≠ [] ∧ (∀ c ∈ h.key, isHeaderKey c = true) ∧ IsValue h.value

instance (h : Header) : Decidable h.Extracted := inferInstanceAs (Decidable (_ ∧ _))

/-- What is known of a request that was read. -/
structure Request.Extracted (defaults : Defaults) (r : Request) : Prop where
  method : r.method ∈ methods.map String.toList ∨ r.method = defaults.method
  target : target? r.url = some r.url
  nonempty : r.url ≠ []
  folded : Url.fold r.url = r.url
  version : version? r.version = some r.version ∨ r.version = defaults.version
  headers : ∀ h ∈ r.headers, h.Extracted
  /-- A body holds something, and none of its lines starts with `###` or `>`. -/
  body : ∀ b ∈ r.body, (∃ c ∈ b, isBlank c = false) ∧ Inert b ∧ '\r' ∉ b
  bodyKind : r.bodyKind.isSome = r.body.isSome

/-- A comment: a trimmed line behind a mark that opens neither a separator nor metadata. -/
def IsComment (c : Text) : Prop :=
  IsValue c ∧ (['#'] <+: c ∨ ['/', '/'] <+: c) ∧ ¬['#', '#', '#'] <+: c ∧ metadataMark? c = none

/-- What is known of the parts of a block around its request. -/
structure Block.Sound (b : Block) : Prop where
  separatorText : ∀ x ∈ b.separatorText, IsValue x ∧ x ≠ []
  comments : ∀ c ∈ b.comments, IsComment c
  metadata : ∀ m ∈ b.metadata, identifier? m.key = some m.key ∧ IsValue m.value
  preRequestScripts : ∀ s ∈ b.preRequestScripts, s.Extracted
  postRequestScripts : ∀ s ∈ b.postRequestScripts, s.Extracted
  responseRedirect : ∀ x ∈ b.responseRedirect, IsValue x ∧ ['>', '>'] <+: x
  /-- Scripts and redirects of a response belong to a request. -/
  responses : b.request = none → b.postRequestScripts = [] ∧ b.responseRedirect = none

/-- What is known of a block that was read. -/
structure Block.Extracted (defaults : Defaults) (b : Block) : Prop extends b.Sound where
  request : ∀ r ∈ b.request, r.Extracted defaults

/-- What is known of a document that was read. -/
structure Document.Extracted (defaults : Defaults) (d : Document) : Prop where
  declarations : ∀ v ∈ d.declarations, identifier? v.key = some v.key ∧ IsValue v.value
  blocks : ∀ b ∈ d.blocks, b.isEmpty = false ∧ b.Extracted defaults

/-! ## From tokens to parts -/

/-- What is known of a token of a file. -/
structure Syntax.Token.Sound (t : Token) : Prop where
  holds : t.kind.Holds t.lexeme
  carriage : '\r' ∉ t.lexeme
  closed : t.IsOpen → occursIn closing (t.lexeme.drop 2) = false

theorem Syntax.Token.Sound.of_kind {t : Token} (h : t.Sound) {k : Terminal} (hk : t.kind = k) :
    k.Holds t.lexeme := hk ▸ h.holds

/-- What is known of an entry of a file. -/
def Syntax.Entry.Sound (e : Entry) : Prop := e.Kinds ∧ ∀ t ∈ e.tokens, t.Sound

theorem isValue_content {t : Token} (hk : t.kind = .value ∨ t.kind = .path)
    (h : t.Sound) :
    t.content = t.lexeme ∧ IsValue t.content ∧ t.content ≠ [] := by
  have hv : Trimmed t.lexeme ∧ '\n' ∉ t.lexeme ∧ t.lexeme ≠ [] := by
    rcases hk with hk | hk <;> exact h.of_kind hk
  have hc : t.content = t.lexeme := hv.1
  rw [hc]
  exact ⟨rfl, ⟨hv.1, hv.2.1, h.carriage⟩, hv.2.2⟩

theorem name_content {t : Token} (hk : t.kind = .identifier) (h : t.kind.Holds t.lexeme) :
    t.content = t.lexeme ∧ identifier? t.content = some t.content := by
  rw [hk] at h
  have hc : t.content = t.lexeme := (solid_of_identifier h).trimmed
  rw [hc]
  exact ⟨rfl, h⟩

/-- The value of a declaration, or nothing. -/
theorem isValue_getD {v : Option Token} (hk : ∀ t ∈ v, t.kind = .value)
    (h : ∀ t ∈ v.toList, t.Sound) :
    IsValue ((v.map (·.content)).getD []) := by
  cases v with
  | none => exact ⟨rfl, by simp, by simp⟩
  | some t => exact (isValue_content (.inl (hk t rfl)) (h t (by simp))).2.1

theorem isComment_content {t : Token} (hk : t.kind = .comment)
    (h : t.Sound) : IsComment t.content := by
  obtain ⟨hmark, hn, hno, hmeta⟩ := h.of_kind hk
  have hr := h.carriage
  -- the mark stays where it is, so trimming only shortens the line
  obtain ⟨c, rest, hl, hc⟩ : ∃ c rest, t.lexeme = c :: rest ∧ isBlank c = false := by
    rcases hmark with ⟨u, hu⟩ | ⟨u, hu⟩
    · exact ⟨'#', u, hu.symm, by decide⟩
    · exact ⟨'/', '/' :: u, hu.symm, by decide⟩
  have hcontent : t.content = stripRight t.lexeme := by
    rw [Token.content, hl, strip_cons _ hc, stripRight_cons _ hc]
  have hp : t.content <+: t.lexeme := hcontent ▸ stripRight_isPrefix t.lexeme
  refine ⟨⟨trimmed_strip _, SingleLine.of_isInfix ⟨hn, hr⟩ hp.isInfix⟩, ?_,
    fun h3 => hno (h3.trans hp), ?_⟩
  · rw [hcontent]
    rcases hmark with ⟨u, hu⟩ | ⟨u, hu⟩
    · left
      rw [← hu, List.singleton_append, stripRight_cons _ (by decide)]
      exact ⟨_, rfl⟩
    · right
      rw [← hu, List.cons_append, List.singleton_append, stripRight_cons _ (by decide),
        stripRight_cons _ (by decide)]
      exact ⟨_, rfl⟩
  · cases hs : metadataMark? t.content with
    | none => rfl
    | some m =>
        rw [metadataMark?_of_isPrefix hp hs] at hmeta
        simp at hmeta

theorem script_extracted {t : Token} (hk : t.kind = .script ∨ t.kind = .path)
    (h : t.Sound) : (Script.ofToken t).Extracted := by
  rcases hk with hk | hk
  · rw [Script.ofToken, hk]
    obtain ⟨code, hl, hno⟩ := h.of_kind hk
    have hr := h.carriage
    refine ⟨trimmed_unwrapScript _, ?_, ?_⟩
    · rw [hl, unwrapScript_wrapped]
      have hcode : '\r' ∉ code := by
        rw [hl] at hr
        exact fun hm => hr (by simp [hm])
      have htrim : occursIn ['\r'] (trimWhere (· == '\n') code) = false :=
        occursIn_of_isInfix (trimWhere_isInfix _ _) (occursIn_singleton.mpr hcode)
      have hded := occursIn_dedent (by decide) (by decide) htrim
      exact fun hm => occursIn_singleton.mp hded (mem_of_mem_strip hm)
    · rw [hl]
      exact occursIn_unwrapScript hno
  · obtain ⟨hc, hv, hne⟩ := isValue_content (.inr hk) h
    rw [Script.ofToken, hk]
    exact ⟨hv, hne, fun ho => hc ▸ h.closed ⟨hk, hc ▸ ho⟩⟩

/-- The key of a header stands before the colon and its value behind it, trimmed. -/
theorem Header.ofLine_content {key g v : Text} (hne : key ≠ [])
    (hkey : ∀ c ∈ key, isHeaderKey c = true) (hg : ∀ c ∈ g, isGap c = true) :
    Header.ofLine (strip (key ++ g ++ ':' :: v)) = ⟨key, strip v⟩ := by
  have hsolid : Solid key := fun c hc => isBlank_of_isGraphic (isGraphic_of_isHeaderKey (hkey c hc))
  have hcolon : ':' ∉ key ++ g := by
    rw [List.mem_append]
    rintro (hm | hm)
    · exact absurd (hkey _ hm) (by decide)
    · exact absurd (hg _ hm) (by decide)
  have hstrip : strip (key ++ g ++ ':' :: v) = key ++ g ++ ':' :: stripRight v := by
    obtain ⟨c, key', rfl⟩ := List.exists_cons_of_ne_nil hne
    have hc : isBlank c = false := hsolid c (by simp)
    rw [List.cons_append, List.cons_append, strip_cons _ hc,
      stripRight_append_cons _ (by decide : isBlank ':' = false)]
    rfl
  have hk : strip (key ++ g) = key := by
    have := hsolid.trimmed.strip_append (u := []) (v := g) (by simp)
      fun c hc => isBlank_of_isGap (hg c hc)
    simpa using this
  rw [hstrip, Header.ofLine, cutAt_append hcolon]
  simp [hk, strip_stripRight]

theorem header_extracted {t : Token} (hk : t.kind = .header)
    (h : t.Sound) : (Header.ofLine t.content).Extracted := by
  obtain ⟨key, g, v, hne, hkey, hg, hn, hl⟩ := h.of_kind hk
  have hr := h.carriage
  rw [Token.content, hl, Header.ofLine_content hne hkey hg]
  have hrv : '\r' ∉ v := fun hm => hr (by rw [hl]; simp [hm])
  exact ⟨hne, hkey, trimmed_strip v, SingleLine.of_isInfix ⟨hn, hrv⟩ (strip_isInfix v)⟩

theorem redirect_content {t : Token} (hk : t.kind = .redirect)
    (h : t.Sound) : IsValue t.content ∧ ['>', '>'] <+: t.content := by
  obtain ⟨ht, hn, hp⟩ := h.of_kind hk
  have hr := h.carriage
  have hc : t.content = t.lexeme := ht
  rw [hc]
  exact ⟨⟨ht, hn, hr⟩, hp⟩

theorem isSome_ofTerminal? (k : Terminal) : (BodyKind.ofTerminal? k).isSome = k.isBody := by
  cases k <;> rfl

/-- The request of a node has the parts that its tokens say. -/
theorem request_extracted (defaults : Defaults) {n : RequestNode} (h : ∀ e ∈ n.entries, e.Sound) :
    (Request.ofNode defaults n).Extracted defaults := by
  have tail : ∀ e ∈ n.tail.entries, e.Sound := fun e he => h e (by simp [RequestNode.entries, he])
  have htarget : target? n.target.lexeme = some n.target.lexeme := by
    obtain ⟨hk, ht⟩ := h (.target n.target) (by simp [RequestNode.entries])
    exact (ht n.target (by simp [Entry.tokens])).of_kind hk
  obtain ⟨hfold, hidem, hne⟩ := Url.target?_fold htarget
  refine ⟨?_, hfold, hne, hidem, ?_, ?_, ?_, ?_⟩
  · -- without a method or a version the default stands in
    cases hm : n.method with
    | none => exact .inr (by simp [Request.ofNode, hm])
    | some t =>
        obtain ⟨hk, ht⟩ := h (.method t) (by simp [RequestNode.entries, hm])
        have hholds := (ht t (by simp [Entry.tokens])).of_kind hk
        have hmethod : (Request.ofNode defaults n).method = t.lexeme := by simp [Request.ofNode, hm]
        exact .inl (hmethod ▸ hholds)
  · cases hv : n.tail.version with
    | none => exact .inr (by simp [Request.ofNode, hv])
    | some t =>
        obtain ⟨hk, ht⟩ := tail (.version t) (by simp [RequestTail.entries, hv])
        have hholds := (ht t (by simp [Entry.tokens])).of_kind hk
        have hversion : (Request.ofNode defaults n).version = t.lexeme := by simp [Request.ofNode, hv]
        rw [hversion]
        exact .inl hholds
  · intro x hx
    obtain ⟨t, ht, rfl⟩ := List.mem_map.mp hx
    obtain ⟨hk, hholds⟩ := tail (.header t) (by simp [RequestTail.entries, ht])
    exact header_extracted hk (hholds t (by simp [Entry.tokens]))
  · intro x hx
    obtain ⟨t, ht, rfl⟩ := Option.map_eq_some_iff.mp hx
    obtain ⟨hk, hholds⟩ := tail (.body t) (by simp [RequestTail.entries, ht])
    have hbody : t.kind.isBody = true := hk
    have hsound := hholds t (by simp [Entry.tokens])
    obtain ⟨hinert, hsome⟩ := Terminal.Holds.body hbody hsound.holds
    exact ⟨hsome, hinert, hsound.carriage⟩
  · cases hb : n.tail.body with
    | none => simp [Request.ofNode, hb]
    | some t =>
        have hbody : t.kind.isBody = true := (tail (.body t) (by simp [RequestTail.entries, hb])).1
        simp only [Request.ofNode, hb, Option.bind_some, Option.map_some, Option.isSome_some]
        rw [isSome_ofTerminal?, hbody]

section Parts

variable {defaults : Defaults} {separator : Option Token} {s : Section}

/-- Each part of a block comes from a token of its section. -/
theorem comment_ofSection {c : Text} (h : c ∈ (Block.ofSection defaults separator s).comments) :
    ∃ t, .comment t ∈ s.items ∧ c = t.content := by
  obtain ⟨i, hi, hc⟩ := List.mem_filterMap.mp h
  cases i with
  | comment t => exact ⟨t, hi, (Option.some.inj hc).symm⟩
  | «variable» _ _ | metadata _ _ | preRequest _ => simp at hc

theorem metadata_ofSection {m : Metadata} (h : m ∈ (Block.ofSection defaults separator s).metadata) :
    ∃ name value, .metadata name value ∈ s.items ∧
      m = ⟨name.content, (value.map (·.content)).getD []⟩ := by
  obtain ⟨i, hi, hm⟩ := List.mem_filterMap.mp h
  cases i with
  | metadata name value => exact ⟨name, value, hi, (Option.some.inj hm).symm⟩
  | «variable» _ _ | comment _ | preRequest _ => simp at hm

theorem preRequest_ofSection {x : Script}
    (h : x ∈ (Block.ofSection defaults separator s).preRequestScripts) :
    ∃ t, .preRequest t ∈ s.items ∧ x = Script.ofToken t := by
  obtain ⟨i, hi, hx⟩ := List.mem_filterMap.mp h
  cases i with
  | preRequest t => exact ⟨t, hi, (Option.some.inj hx).symm⟩
  | «variable» _ _ | comment _ | metadata _ _ => simp at hx

theorem handler_ofSection {x : Script}
    (h : x ∈ (Block.ofSection defaults separator s).postRequestScripts) :
    ∃ n t, s.request = some n ∧ .handler t ∈ n.tail.responses ∧ x = Script.ofToken t := by
  cases hn : s.request with
  | none => simp [Block.ofSection, hn] at h
  | some n =>
      have hmem : x ∈ n.handlers := by simpa [Block.ofSection, hn] using h
      obtain ⟨r, hr, hx⟩ := List.mem_filterMap.mp hmem
      cases r with
      | handler t => exact ⟨n, t, rfl, hr, (Option.some.inj hx).symm⟩
      | redirect _ => simp at hx

theorem redirect_ofSection {x : Text}
    (h : x ∈ (Block.ofSection defaults separator s).responseRedirect) :
    ∃ n t, s.request = some n ∧ .redirect t ∈ n.tail.responses ∧ x = t.content := by
  obtain ⟨n, hn, hred⟩ := Option.bind_eq_some_iff.mp h
  obtain ⟨r, hr, hx⟩ := List.mem_filterMap.mp (List.mem_of_getLast? hred)
  cases r with
  | redirect t => exact ⟨n, t, hn, hr, (Option.some.inj hx).symm⟩
  | handler _ => simp at hx

end Parts

/-- The block of a section has the parts that its tokens say. -/
theorem block_extracted (defaults : Defaults) {separator : Option Token} {s : Section}
    (hsep : (Entry.separator separator).Sound) (h : ∀ e ∈ s.entries, e.Sound) :
    (Block.ofSection defaults separator s).Extracted defaults := by
  have item : ∀ i ∈ s.items, (Entry.item i).Sound := fun i hi => h _ (by simp [Section.entries, hi])
  have node : ∀ n, s.request = some n → ∀ e ∈ n.entries, e.Sound := by
    intro n hn e he
    exact h e (by simp [Section.entries, hn, he])
  have response : ∀ n, s.request = some n → ∀ r ∈ n.tail.responses, (Entry.response r).Sound := by
    intro n hn r hr
    exact node n hn _ (by simp [RequestNode.entries, RequestTail.entries, hr])
  -- each part of the block comes from an entry of the section, whose tokens are sound
  refine ⟨⟨?_, ?_, ?_, ?_, ?_, ?_, ?_⟩, ?_⟩
  · intro x hx
    obtain ⟨hmap, hne⟩ := Option.filter_eq_some_iff.mp hx
    obtain ⟨t, ht, rfl⟩ := Option.map_eq_some_iff.mp hmap
    have hs := hsep.2 t (by simp [Entry.tokens, ht])
    have hl : '\n' ∉ t.lexeme := hs.of_kind (hsep.1 t ht)
    exact ⟨⟨trimmed_strip _, SingleLine.of_isInfix ⟨hl, hs.carriage⟩ (strip_isInfix _)⟩, by simpa using hne⟩
  · intro x hx
    obtain ⟨t, hi, rfl⟩ := comment_ofSection hx
    obtain ⟨hk, ht⟩ := item _ hi
    exact isComment_content hk (ht t (by simp [Entry.tokens]))
  · intro x hx
    obtain ⟨name, value, hi, rfl⟩ := metadata_ofSection hx
    obtain ⟨⟨hk, hv⟩, ht⟩ := item _ hi
    exact ⟨(name_content hk (ht name (by simp [Entry.tokens])).holds).2,
      isValue_getD hv fun t htv => ht t (by simp [Entry.tokens, Option.mem_toList.mp htv])⟩
  · intro x hx
    obtain ⟨t, hi, rfl⟩ := preRequest_ofSection hx
    obtain ⟨hk, ht⟩ := item _ hi
    exact script_extracted hk (ht t (by simp [Entry.tokens]))
  · intro x hx
    obtain ⟨n, t, hn, hr, rfl⟩ := handler_ofSection hx
    obtain ⟨hk, ht⟩ := response n hn _ hr
    exact script_extracted hk (ht t (by simp [Entry.tokens]))
  · intro x hx
    obtain ⟨n, t, hn, hr, rfl⟩ := redirect_ofSection hx
    obtain ⟨hk, ht⟩ := response n hn _ hr
    exact redirect_content hk (ht t (by simp [Entry.tokens]))
  · intro hnone
    have hn : s.request = none := Option.map_eq_none_iff.mp hnone
    exact ⟨by simp [Block.ofSection, hn], by simp [Block.ofSection, hn]⟩
  · intro x hx
    obtain ⟨n, hn, rfl⟩ := Option.map_eq_some_iff.mp hx
    exact request_extracted defaults (node n hn)

/-! ## Sections -/

/-- The sections of what is grouped, with a head in any case. -/
def Syntax.Grouped.sections (g : Grouped) : List (Option Token × Section) := (none, g.here) :: g.after

/-- The document of a list of sections. -/
def Document.ofSections (defaults : Defaults) (ss : List (Option Token × Section)) : Document :=
  { declarations := ss.flatMap fun (_, s) => s.declarations
    blocks := (ss.map fun (separator, s) => Block.ofSection defaults separator s).filter
      fun b => !b.isEmpty }

theorem ofTree_ofTokens (defaults : Defaults) (ts : List Token) :
    Document.ofTree defaults (Tree.ofTokens ts) =
      Document.ofSections defaults (gather ts).sections := by
  have hgather : group (entries (ts.filter fun t => !t.kind.isLayout)) = gather ts := rfl
  unfold Document.ofTree Tree.allSections Tree.ofTokens
  simp only [hgather]
  by_cases hhead : ((nextOf .separatorMark ts).isSome || ts.isEmpty) = true
  · -- an empty head declares nothing, and its block is left out
    rw [if_pos hhead]
    unfold Document.ofSections Grouped.sections
    rw [here_of_head_none hhead]
    rfl
  · rw [if_neg hhead]
    rfl

/-- What is found in the blocks of a document is found in its sections, if nothing is found in an empty
    block. -/
theorem filterMap_ofSections {α : Type} (defaults : Defaults) {f : Block → Option α}
    {ss : List (Option Token × Section)}
    (h : ∀ x ∈ ss, (Block.ofSection defaults x.1 x.2).isEmpty = true →
      f (Block.ofSection defaults x.1 x.2) = none) :
    (Document.ofSections defaults ss).blocks.filterMap f =
      ss.filterMap fun x => f (Block.ofSection defaults x.1 x.2) := by
  unfold Document.ofSections
  rw [List.filterMap_filter, List.filterMap_map]
  refine List.filterMap_congr fun x hx => ?_
  cases he : (Block.ofSection defaults x.1 x.2).isEmpty with
  | true => simp [he, h x hx he]
  | false => simp [he]

/-- Every request of the sections is a request of the document, in the same order. -/
theorem requests_ofSections (defaults : Defaults) {ss : List (Option Token × Section)}
    (h : ∀ x ∈ ss, ∀ n, x.2.request = some n → (Request.ofNode defaults n).url ≠ []) :
    (Document.ofSections defaults ss).blocks.filterMap (·.request) =
      (ss.filterMap (·.2.request)).map (Request.ofNode defaults) := by
  rw [filterMap_ofSections, List.map_filterMap]
  · rfl
  · intro x hx hempty
    cases hn : x.2.request with
    | none => simp [Block.ofSection, hn]
    | some n => simp [Block.isEmpty, Block.ofSection, hn, h x hx n hn] at hempty

/-! ## Documents -/

theorem parse_eq_ok {defaults : Defaults} {source t : Text} {d : Document}
    (h : Document.parse defaults source t = .ok d) :
    ∃ ts, tokens t = .ok ts ∧ Syntax.parse t = .ok (Tree.ofTokens ts) ∧
      d = Document.ofTree defaults (Tree.ofTokens ts) := by
  unfold Document.parse Syntax.parse at h
  unfold Syntax.parse
  cases hts : tokens t with
  | error e => rw [hts] at h; simp [Except.map] at h
  | ok ts =>
      rw [hts] at h
      have hd : Document.ofTree defaults (Tree.ofTokens ts) = d := by simpa [Except.map] using h
      exact ⟨ts, rfl, rfl, hd.symm⟩

/-- The entries of a file are what their kinds say. -/
theorem sound_of_tokens {t : Text} {ts : List Token} (h : tokens t = .ok ts) :
    ∀ e ∈ entries (shown ts), e.Sound := by
  have hs := scanned h
  intro e he
  obtain ⟨hk, hsub⟩ := hs.kinds e he
  refine ⟨hk, fun tok htok => ?_⟩
  obtain ⟨hl, hin⟩ := hs.holds tok (hsub htok)
  exact ⟨hl, fun hm => carriage_notMem_normalize t (hin.subset hm), hs.paths tok (hsub htok)⟩

theorem sound_of_section {tree : Tree} (h : ∀ e ∈ tree.entries, e.Sound)
    {x : Option Token × Section} (hx : x ∈ tree.allSections) :
    (Entry.separator x.1).Sound ∧ ∀ e ∈ x.2.entries, e.Sound := by
  rcases List.mem_append.mp hx with hx | hx
  · obtain ⟨s, hs, rfl⟩ : ∃ s, tree.head = some s ∧ (none, s) = x := by simpa using hx
    refine ⟨⟨by simp [Entry.Kinds], by simp [Entry.tokens]⟩, fun e he => h e ?_⟩
    simp [Tree.entries, hs, he]
  · refine ⟨h _ ?_, fun e he => h e ?_⟩
    · exact List.mem_append_right _ (List.mem_flatMap.mpr ⟨x, hx, by simp⟩)
    · exact List.mem_append_right _ (List.mem_flatMap.mpr ⟨x, hx, by simp [he]⟩)

theorem declaration_extracted {s : Section} (h : ∀ e ∈ s.entries, e.Sound) :
    ∀ v ∈ s.declarations, identifier? v.key = some v.key ∧ IsValue v.value := by
  intro v hv
  obtain ⟨i, hi, hs⟩ := List.mem_filterMap.mp hv
  cases i with
  | «variable» name value =>
      obtain rfl := Option.some.inj hs
      obtain ⟨⟨hk, hkv⟩, ht⟩ := h (.item (.variable name value)) (by simp [Section.entries, hi])
      exact ⟨(name_content hk (ht name (by simp [Entry.tokens])).holds).2,
        isValue_getD hkv fun t htv => ht t (by simp [Entry.tokens, Option.mem_toList.mp htv])⟩
  | comment _ | metadata _ _ | preRequest _ => simp at hs

/-- What is known of the document of a tree whose entries are known. -/
theorem document_extracted (defaults : Defaults) {tree : Tree} (h : ∀ e ∈ tree.entries, e.Sound) :
    (Document.ofTree defaults tree).Extracted defaults := by
  refine ⟨fun v hv => ?_, fun b hb => ?_⟩
  · obtain ⟨x, hx, hv⟩ := List.mem_flatMap.mp hv
    exact declaration_extracted (sound_of_section h hx).2 v hv
  · obtain ⟨hb, hne⟩ := List.mem_filter.mp hb
    obtain ⟨x, hx, rfl⟩ := List.mem_map.mp hb
    obtain ⟨hsep, hs⟩ := sound_of_section h hx
    exact ⟨by simpa using hne, block_extracted defaults hsep hs⟩

/-- What is known of the entries of a file that was scanned. -/
theorem sound_of_entries {t : Text} {ts : List Token} (h : tokens t = .ok ts) :
    ∀ e ∈ (Tree.ofTokens ts).entries, e.Sound := by
  rw [entries_ofTokens h rfl]
  exact sound_of_tokens h

/-- A document that was read has parts that are what their kinds call for. -/
theorem extracted_of_parse {defaults : Defaults} {source t : Text} {d : Document}
    (h : Document.parse defaults source t = .ok d) : d.Extracted defaults := by
  obtain ⟨ts, hts, -, rfl⟩ := parse_eq_ok h
  exact document_extracted defaults (sound_of_entries hts)

/-- **What reading a file guarantees.** A file that is not refused gives a document whose parts are
    what their kinds call for. The tree in between has every entry of the file in its place, in
    particular each body, and each script of the file is code or a path; the requests of the document
    are those of the tree, one for one and in order. -/
theorem parse_extracted {defaults : Defaults} {source t : Text} {d : Document}
    (h : Document.parse defaults source t = .ok d) :
    d.Extracted defaults ∧
      ∃ ts tree, tokens t = .ok ts ∧ Syntax.parse t = .ok tree ∧
        tree.entries = entries (shown ts) ∧ (∀ e ∈ tree.entries, e.Kinds) ∧
        d.blocks.filterMap (·.request) =
          (tree.allSections.filterMap (·.2.request)).map (Request.ofNode defaults) := by
  have hextracted := extracted_of_parse h
  obtain ⟨ts, hts, htree, rfl⟩ := parse_eq_ok h
  have hsound := sound_of_entries hts
  refine ⟨hextracted, ts, _, hts, htree, entries_ofTokens hts rfl,
    fun e he => (hsound e he).1, ?_⟩
  refine requests_ofSections defaults fun x hx n hn => ?_
  have hnode : ∀ e ∈ n.entries, e.Sound := by
    intro e he
    exact (sound_of_section hsound hx).2 e (by simp [Section.entries, hn, he])
  exact (request_extracted defaults hnode).nonempty

/-- A file with a comment, a script, metadata, a request with a body and two responses. -/
theorem parse_extracted_example :
    let d : Document := { blocks := [
      { comments := ["// note"]
        metadata := [⟨"name", "x"⟩]
        request := some {
          method := "POST"
          url := "h\n  ?a=1\n  &b=2"
          headers := [⟨"K", "v"⟩]
          body := some "body\n"
          bodyKind := some .raw }
        preRequestScripts := [.inline "a()"]
        postRequestScripts := [.inline "x"]
        responseRedirect := some ">> out" }] }
    Document.parse {} [] ("// note\n< \x7b%\n  a()\n%\x7d\n# @name x\nPOST h?a=1&b=2\nK : v \n\n" ++
      "body\n> \x7b%x%\x7d\n>> out\n###") = .ok d ∧ d.Extracted {} := by
  refine ⟨?read, (parse_extracted ?read).1⟩
  decide +kernel

end HttpFile
