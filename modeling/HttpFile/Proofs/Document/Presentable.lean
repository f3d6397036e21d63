import HttpFile.Proofs.Document.Canonical
import HttpFile.Proofs.Document.RoundTrip

/-!
# `HttpFile.Proofs.Document.Presentable` — when the text of a converted document is canonical

A converter makes up some parts of a document itself: comments, names of facts, versions, the marks of
scripts. Others it copies from a source that knows nothing of request files. The former can always be read
back. This module says what the latter have to be like for the whole document to be reproduced from its
text, and that nothing less will do.

## Contents
- **Right ends.** `Document.tidy`: values as they end on their lines; `text_tidy`.
- **Converted documents.** `IsRemark`, `Block.Converted`, `Document.Converted`.
- **Presentable documents.** `Request.Presentable`, `Block.Presentable`, `Document.Presentable`.
- **Writable parts.** `Block.Converted.settled`, `Block.Converted.writable`.
- **Reproduced documents.** `Document.Converted.reproduced_iff`.
- **Bodies.** `Document.Formatted`, `formatted_of_lasting`.
-/

namespace HttpFile

open Text Unicode Syntax

/-! ## Right ends -/

/-- A variable with its value as it ends on its line. -/
def Variable.tidy (v : Variable) : Variable := { v with value := stripRight v.value }

/-- A header with its value as it ends on its line. -/
def Header.tidy (h : Header) : Header := { h with value := stripRight h.value }

/-- A fact with its value as it ends on its line. -/
def Metadata.tidy (m : Metadata) : Metadata := { m with value := stripRight m.value }

/-- A request with the values of its headers as they end on their lines. -/
def Request.tidy (r : Request) : Request := { r with headers := r.headers.map Header.tidy }

/-- A block with its values as they end on their lines. -/
def Block.tidy (b : Block) : Block :=
  { b with metadata := b.metadata.map Metadata.tidy, request := b.request.map Request.tidy }

/-- A document with its values as they end on their lines. -/
def Document.tidy (d : Document) : Document :=
  { declarations := d.declarations.map Variable.tidy, blocks := d.blocks.map Block.tidy }

theorem stripRight_append_stripRight (u v : Text) : stripRight (u ++ stripRight v) = stripRight (u ++ v) := by
  obtain ⟨w, hv, hw, -⟩ := stripRight_spec v
  conv => rhs; rw [hv, ← List.append_assoc, stripRight_append_blank _ hw]

theorem lines_tidy (b : Block) : b.tidy.lines = b.lines := by
  have hmetadata : ∀ m : Metadata, m.tidy.render = m.render := fun m =>
    stripRight_append_stripRight ("# @" ++ m.key ++ " ") m.value
  have hheader : ∀ h : Header, stripRight (h.tidy.key ++ ": " ++ h.tidy.value) =
      stripRight (h.key ++ ": " ++ h.value) := fun h =>
    stripRight_append_stripRight (h.key ++ ": ") h.value
  have hrequest : ∀ r : Request, r.tidy.lines = r.lines := by
    intro r
    simp only [Request.lines, Request.tidy, List.map_map, Function.comp_def, hheader]
  unfold Block.lines Block.itemLines Block.responseLines
  cases hr : b.request <;> simp [Block.tidy, Function.comp_def, hmetadata, hr, hrequest]

/-- What stands blank at the end of a value is not written. -/
theorem text_tidy (d : Document) : d.tidy.text = d.text := by
  have hvariable : ∀ v : Variable, v.tidy.render = v.render := fun v =>
    stripRight_append_stripRight ("@" ++ v.key ++ " = ") v.value
  simp [Document.text, Document.sheets, Document.tidy, Function.comp_def, hvariable, lines_tidy]

/-! ## Converted documents -/

/-- A comment behind a number sign and a space that opens no metadata. It may have several lines. -/
def IsRemark (c : Text) : Prop := ['#', ' '] <+: c ∧ metadataMark? c = none

/-- Inline code that is trimmed. -/
def Script.IsTrimmedCode (s : Script) : Prop := ∃ code, s = .inline code ∧ Trimmed code

/-- What is known of a block that was converted: what its converter makes up itself can be read back. -/
structure Block.Converted (b : Block) : Prop where
  separatorText : b.separatorText = none
  comments : ∀ c ∈ b.comments, IsRemark c
  metadata : ∀ m ∈ b.metadata, identifier? m.key = some m.key
  preRequestScripts : ∀ s ∈ b.preRequestScripts, s.IsTrimmedCode
  version : ∀ r ∈ b.request, r.version = defaultVersion
  postRequestScripts : ∀ s ∈ b.postRequestScripts, s.IsTrimmedCode
  responseRedirect : b.responseRedirect = none
  /-- A block without a request is about a folder. -/
  folder : b.request = none → b.comments ≠ [] ∧ b.postRequestScripts = []

/-- A document of converted blocks. -/
def Document.Converted (d : Document) : Prop := ∀ b ∈ d.blocks, b.Converted

/-! ## Presentable documents -/

/-- A request whose parts can stand in a file as they are written. -/
structure Request.Presentable (r : Request) : Prop where
  method : r.method ∈ methods.map String.toList
  target : target? r.url = some r.url
  folded : Url.fold r.url = r.url
  headers : ∀ h ∈ r.headers, h.Extracted
  body : ∀ w ∈ r.body, Inert w ∧ '\r' ∉ w

/-- Code that can stand between the marks of a script. -/
structure IsPresentableCode (code : Text) : Prop where
  carriage : '\r' ∉ code
  closing : occursIn closing code = false
  lines : ∀ f ∈ fieldsAt '\n' code, Steady f

/-- A block whose parts can stand in a file as they are written. -/
structure Block.Presentable (b : Block) : Prop where
  comments : ∀ c ∈ b.comments, SingleLine c
  metadata : ∀ m ∈ b.metadata, IsValue m.value
  scripts : ∀ code, .inline code ∈ b.preRequestScripts ∨ .inline code ∈ b.postRequestScripts →
    IsPresentableCode code
  request : ∀ r ∈ b.request, r.Presentable

/-- A document whose parts can stand in a file as they are written. -/
structure Document.Presentable (d : Document) : Prop where
  declarations : ∀ v ∈ d.declarations, identifier? v.key = some v.key ∧ IsValue v.value
  blocks : ∀ b ∈ d.blocks, b.Presentable

/-- A document whose bodies are left alone by their formatters. -/
def Document.Formatted (d : Document) : Prop :=
  ∀ b ∈ d.blocks, ∀ r ∈ b.request, ∀ w ∈ r.body, formatAs (contentKind r) w = .ok (letters w)

/-! ## Writable parts -/

/-- A remark is written as a comment that opens nothing. -/
theorem IsRemark.written {c : Text} (h : IsRemark c) :
    Trimmed (normalizeComment c) ∧ ['#'] <+: normalizeComment c ∧
      ¬['#', '#', '#'] <+: normalizeComment c ∧ metadataMark? (normalizeComment c) = none := by
  obtain ⟨⟨rest, rfl⟩, hmeta⟩ := h
  have hsolid : isBlank '#' = false := by decide
  have hcomment : normalizeComment (['#', ' '] ++ rest) = strip (['#', ' '] ++ rest) := by
    unfold normalizeComment
    rw [List.cons_append, strip_cons _ hsolid]
    rfl
  have hstrip : strip (['#', ' '] ++ rest) = '#' :: stripRight (' ' :: rest) := by
    rw [List.cons_append, strip_cons _ hsolid]
    rfl
  -- what is left is a start of the comment, so it opens nothing that the comment does not open
  have hstart : strip (['#', ' '] ++ rest) <+: ['#', ' '] ++ rest := by
    rw [hstrip, List.cons_append]
    exact (List.prefix_cons_inj '#').mpr (stripRight_isPrefix _)
  rw [hcomment]
  refine ⟨trimmed_strip _, by rw [hstrip]; exact ⟨_, rfl⟩, fun hmark => ?_, ?_⟩
  · have := hmark.trans hstart
    simp at this
  · cases hm : metadataMark? (strip (['#', ' '] ++ rest)) with
    | none => rfl
    | some l =>
        rw [metadataMark?_of_isPrefix hstart hm] at hmeta
        simp at hmeta

/-- A request with the default version whose parts are presentable is writable. -/
theorem Request.Presentable.writable {r : Request} {w : Text} (hw : Trimmed w)
    (hv : r.version = defaultVersion) (h : (r.written w).tidy.Presentable) :
    (r.written w).tidy.Writable := by
  have hversion : version? (r.written w).tidy.version = some (r.written w).tidy.version := by
    show version? r.version = some r.version
    rw [hv]
    rfl
  refine ⟨⟨h.method, h.target, h.folded, hversion, h.headers⟩, fun y hy => ?_, ?_⟩
  · cases w with
    | nil => simp [Request.tidy, Request.written] at hy
    | cons c w =>
        obtain rfl : c :: w = y := by simpa [Request.tidy, Request.written] using hy
        exact ⟨hw, by simp⟩
  · cases w <;> rfl

theorem Request.Presentable.cased {r : Request} {w : Text} (hv : r.version = defaultVersion)
    (h : (r.written w).tidy.Presentable) : (r.written w).tidy.Cased := by
  intro x hx
  obtain ⟨y, hy, rfl⟩ := List.mem_map.mp hx
  obtain ⟨z, -, rfl⟩ := List.mem_map.mp hy
  have hkey := (h.headers _ hx).2.1
  show headerKey (headerKey z.key r.version) r.version = headerKey z.key r.version
  rw [hv]
  refine headerKey_headerKey fun c hc => hkey c ?_
  show c ∈ headerKey z.key r.version
  rw [hv]
  exact hc

theorem Script.IsTrimmedCode.extracted {s : Script} (h : s.IsTrimmedCode)
    (hp : ∀ code, s = .inline code → IsPresentableCode code) : s.Extracted := by
  obtain ⟨code, rfl, ht⟩ := h
  exact ⟨ht, (hp code rfl).carriage, (hp code rfl).closing⟩

/-- What is left of a converted block once it is settled and its values are cut to their lines. -/
theorem Block.Converted.settled {b e : Block} (h : b.Converted) (hs : b.settle true = .ok e) :
    ∃ request : Option Request, e.tidy = { b with
        comments := b.comments.map normalizeComment
        metadata := b.metadata.map Metadata.tidy
        request := request } ∧
      (request = none → b.request = none) ∧ ∀ r ∈ request, ∃ (r₀ : Request) (w : Text),
        r₀.version = defaultVersion ∧ Trimmed w ∧ r = (r₀.written w).tidy := by
  have hparts : ∀ request, (b.written request).tidy = { b with
      comments := b.comments.map normalizeComment
      metadata := b.metadata.map Metadata.tidy
      request := request.map Request.tidy } := by
    intro request
    simp [Block.tidy, Block.written, h.separatorText, h.responseRedirect]
  rcases Block.settle_cases hs with ⟨hnone, rfl⟩ | ⟨r, w, hreq, hw, rfl⟩
  · exact ⟨none, hparts none, fun _ => hnone, by simp⟩
  · refine ⟨some (r.written w).tidy, hparts _, by simp, fun r' hr' => ?_⟩
    exact ⟨r, w, h.version r hreq, trimmed_bodyText hw, by simpa using hr'.symm⟩

/-- A converted block whose parts are presentable is writable. -/
theorem Block.Converted.writable {b e : Block} (h : b.Converted) (hs : b.settle true = .ok e)
    (hp : e.tidy.Presentable) : e.tidy.isEmpty = false ∧ e.tidy.Writable := by
  obtain ⟨request, he, hnone, hrequest⟩ := h.settled hs
  rw [he] at hp ⊢
  have hwritable : ∀ r ∈ request, r.Writable := by
    intro r hr
    obtain ⟨r₀, w, hv, hw, rfl⟩ := hrequest r hr
    exact (hp.request _ hr).writable hw hv
  constructor
  · -- a folder has comments, and a request has an address
    cases hr : request with
    | none =>
        have hcomments := (h.folder (hnone hr)).1
        simp [Block.isEmpty, hcomments]
    | some r =>
        have hurl : r.url ≠ [] := by
          obtain ⟨c, u, hu, -⟩ := target_solid (hwritable r hr).target
          rw [hu]
          simp
        simp [Block.isEmpty, hurl]
  · refine ⟨?_, ?_, ?_, ?_, hwritable, ?_, ?_, ?_⟩
    · simp [h.separatorText]
    · intro c hc
      obtain ⟨c₀, hc₀, rfl⟩ := List.mem_map.mp hc
      obtain ⟨ht, hmark, -, hmeta⟩ := (h.comments c₀ hc₀).written
      exact ⟨⟨ht, hp.comments _ hc⟩, hmark, hmeta⟩
    · intro m hm
      obtain ⟨m₀, hm₀, rfl⟩ := List.mem_map.mp hm
      exact ⟨h.metadata m₀ hm₀, hp.metadata _ hm⟩
    · intro s hs
      exact (h.preRequestScripts s hs).extracted fun code hcode => hp.scripts code (.inl (hcode ▸ hs))
    · intro s hs
      exact (h.postRequestScripts s hs).extracted fun code hcode => hp.scripts code (.inr (hcode ▸ hs))
    · simp [h.responseRedirect]
    · intro hr
      exact ⟨(h.folder (hnone hr)).2, h.responseRedirect⟩

/-! ## Reproduced documents -/

/-- The blocks of a settled document, cut to their lines, come from converted ones. -/
theorem Document.Converted.blocks_tidy {d e : Document} (h : d.Converted) (hs : d.settle true = .ok e) :
    ∀ f ∈ e.tidy.blocks, ∃ b e', b.Converted ∧ Block.settle true b = .ok e' ∧ f = e'.tidy := by
  intro f hf
  obtain ⟨e', he', rfl⟩ := List.mem_map.mp hf
  obtain ⟨b, hb, hsettle⟩ := exists_of_forall₂ (settle_blocks hs).2 he'
  exact ⟨b, e', h b hb, hsettle, rfl⟩

/-- A converted document whose parts are presentable is reproduced from its text, if its bodies are left alone. -/
theorem Document.Converted.reproduced {d e : Document} (h : d.Converted) (hs : d.settle true = .ok e)
    (hp : e.tidy.Presentable) (hformatted : e.tidy.Formatted) : e.tidy.Reproduced true := by
  have hblocks := h.blocks_tidy hs
  have hw : e.tidy.Writable := by
    refine ⟨hp.declarations, fun f hf => ?_⟩
    obtain ⟨b, e', hb, hsettle, rfl⟩ := hblocks f hf
    exact hb.writable hsettle (hp.blocks _ hf)
  have hcased : ∀ f ∈ e.tidy.blocks, ∀ r ∈ f.request, r.Cased := by
    intro f hf r hr
    obtain ⟨b, e', hb, hsettle, rfl⟩ := hblocks f hf
    obtain ⟨request, he, -, hrequest⟩ := hb.settled hsettle
    have hr' : r ∈ request := by rwa [he] at hr
    obtain ⟨r₀, w, hv, -, rfl⟩ := hrequest r hr'
    exact ((hp.blocks _ hf).request _ hr).cased hv
  have hcomments : ∀ f ∈ e.tidy.blocks, ∀ c ∈ f.comments, ¬['#', '#', '#'] <+: c := by
    intro f hf c hc
    obtain ⟨b, e', hb, hsettle, rfl⟩ := hblocks f hf
    obtain ⟨request, he, -⟩ := hb.settled hsettle
    rw [he] at hc
    obtain ⟨c₀, hc₀, rfl⟩ := List.mem_map.mp hc
    exact (hb.comments c₀ hc₀).written.2.2.1
  -- inline code is never open, so nothing is closed by mistake
  have hquiet : QuietBlocks e.tidy.blocks := by
    refine quietBlocks_of_not_open fun f hf => ?_
    obtain ⟨b, e', hb, hsettle, rfl⟩ := hblocks f hf
    obtain ⟨request, he, -⟩ := hb.settled hsettle
    rw [he]
    constructor
    · intro s hs
      obtain ⟨code, rfl, -⟩ := hb.preRequestScripts s hs
      exact id
    · intro s hs
      obtain ⟨code, rfl, -⟩ := hb.postRequestScripts s hs
      exact id
  have hbody : ∀ f ∈ e.tidy.blocks, ∀ r ∈ f.request, ∀ w ∈ r.body, Inert w ∧ '\r' ∉ w :=
    fun f hf r hr => ((hp.blocks f hf).request r hr).body
  have houtline := outline_document hw hcomments (fun f hf r hr w hx => (hbody f hf r hr w hx).1) hquiet
  have hnormal := normalize_text hw fun f hf r hr w hx => (hbody f hf r hr w hx).2
  refine ⟨by rw [hnormal]; exact houtline, ?_⟩
  rw [ofEntries_entries {} hw, settle_reread_iff hw hcased]
  intro f hf
  refine ⟨(reread_scripts_iff (hw.blocks f hf).2).mpr ?_, fun r hr w hx _ => hformatted f hf r hr w hx⟩
  exact fun code hcode => ((hp.blocks f hf).scripts code hcode).lines

/-- A document that is reproduced from its text is presentable, and its bodies are left alone. -/
theorem Document.Reproduced.presentable {d : Document} (h : d.Reproduced true) : d.Presentable ∧ d.Formatted := by
  obtain ⟨houtline, hagain⟩ := h
  -- it settles from what was read, so all that is known of what was read applies
  have hextracted := extracted_of_parse (parse_of_outline {} [] houtline)
  have hw := settle_writable hextracted hagain
  obtain ⟨-, hbodies, -⟩ := legible_of_outline houtline
  have hcased := settle_cased hextracted hagain
  rw [ofEntries_entries {} hw, settle_reread_iff hw hcased] at hagain
  refine ⟨⟨hw.declarations, fun b hb => ?_⟩, fun b hb r hr w hx => (hagain b hb).2 r hr w hx rfl⟩
  have hb' := (hw.blocks b hb).2
  refine ⟨fun c hc => (hb'.comments c hc).1.2, fun m hm => (hb'.metadata m hm).2, ?_, ?_⟩
  · intro code hcode
    have hlines := (reread_scripts_iff hb').mp (hagain b hb).1 code hcode
    rcases hcode with hcode | hcode
    · exact ⟨(hb'.preRequestScripts _ hcode).2.1, (hb'.preRequestScripts _ hcode).2.2, hlines⟩
    · exact ⟨(hb'.postRequestScripts _ hcode).2.1, (hb'.postRequestScripts _ hcode).2.2, hlines⟩
  · intro r hr
    have hr' := hb'.request r hr
    exact ⟨hr'.method, hr'.target, hr'.folded, hr'.headers, hbodies b hb r hr⟩

/-- **A converted document is reproduced from its text exactly when its parts are presentable** and the formatters of
    its bodies leave them alone. -/
theorem Document.Converted.reproduced_iff {d e : Document} (h : d.Converted)
    (hs : d.settle true = .ok e) : e.tidy.Reproduced true ↔ e.tidy.Presentable ∧ e.tidy.Formatted :=
  ⟨fun hr => hr.presentable, fun ⟨hp, hformatted⟩ => h.reproduced hs hp hformatted⟩

/-! ## Bodies -/

/-- A document whose header keys are of the characters that a file allows. -/
def Document.Keyed (d : Document) : Prop :=
  ∀ b ∈ d.blocks, ∀ r ∈ b.request, ∀ h ∈ r.headers, ∀ c ∈ h.key, isHeaderKey c = true

theorem strip_cut_stripRight (t : Text) : strip (cutAt ';' (stripRight t)).1 = strip (cutAt ';' t).1 := by
  obtain ⟨u, ht, hu, -⟩ := stripRight_spec t
  have hsemicolon : ';' ∉ u := fun hin => absurd (hu _ hin) (by decide)
  rcases cutAt_cases ';' (stripRight t) with ⟨hnone, hcut⟩ | ⟨v, w, hv, hright, hcut⟩
  · have hwhole : ';' ∉ t := by
      rw [ht, List.mem_append]
      exact fun hin => hin.elim hnone hsemicolon
    rw [hcut, cutAt_of_notMem hwhole, strip_stripRight]
  · rw [hcut, ht, hright, List.append_assoc, List.cons_append, cutAt_append hv]

theorem header?_tidy (r : Request) (key : Text) : r.tidy.header? key = (r.header? key).map stripRight := by
  unfold Request.header? Request.tidy
  rw [List.find?_map, Option.map_map, Option.map_map]
  rfl

/-- What is cut from the end of a value tells nothing about the kind of a body. -/
theorem contentKind_tidy (r : Request) : contentKind r.tidy = contentKind r := by
  have htype : ∀ x : Option Text, strip ((x.map stripRight).getD []) = strip (x.getD []) := by
    intro x
    cases x with
    | none => rfl
    | some t => exact strip_stripRight t
  have hmedia : ∀ x : Option Text,
      strip (cutAt ';' ((x.map stripRight).getD [])).1 = strip (cutAt ';' (x.getD [])).1 := by
    intro x
    cases x with
    | none => rfl
    | some t => exact strip_cut_stripRight t
  unfold contentKind
  rw [header?_tidy, header?_tidy, htype, hmedia]

/-- The bodies of a converted document are left alone by their formatters, if those of its source are formatted once
    and for all and headers are told apart as in a file. -/
theorem formatted_of_lasting {d e : Document} (hs : d.settle true = .ok e) (hkeyed : d.Keyed) (hlasts : d.Lasting) :
    e.tidy.Formatted := by
  intro b hb r hr w hw
  obtain ⟨b', hb', rfl⟩ := List.mem_map.mp hb
  obtain ⟨r', hr', rfl⟩ := Option.map_eq_some_iff.mp hr
  obtain ⟨b₀, hb₀, r₀, hr₀, v, hv, rfl⟩ := settle_requests hs b' hb' r' hr'
  have hkind : contentKind (r₀.written v) = contentKind r₀ := contentKind_written (hkeyed b₀ hb₀ r₀ hr₀) v
  rw [contentKind_tidy]
  exact formatAs_settled hkind hv (hlasts b₀ hb₀ r₀ hr₀) hw

end HttpFile
