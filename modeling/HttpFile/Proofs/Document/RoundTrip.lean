import HttpFile.Proofs.Document.Settled
import Mathlib.Tactic.MkIffOfInductiveProp

/-!
# `HttpFile.Proofs.Document.RoundTrip` — reading undoes writing

A document need not come from a file: other formats are converted into documents. Of a well-formed
one, everything that is written is read back as it was, but for the blanks around bodies and the case
of header keys.

## Contents
- **Well-formed documents.** `Request.WellFormed`, `Block.WellFormed`, `Document.WellFormed`.
- **What comes back.** `Request.Restored`, `Block.Restored`.
- **Scripts.** `steady_of_wellFormed`: the lines of well-formed code are steady.
- **Round trip.** `parse_plain`, `parse_render`.
-/

namespace HttpFile

open Text Unicode Syntax

/-! ## Well-formed documents -/

/-- Nothing, or a text that is read as a value. -/
def IsDeclared (v : Text) : Prop := (v = [] ∨ value? v = some v) ∧ '\r' ∉ v

instance (v : Text) : Decidable (IsDeclared v) := inferInstanceAs (Decidable (_ ∧ _))

theorem IsDeclared.isValue {v : Text} (h : IsDeclared v) : IsValue v := by
  obtain ⟨rfl | hv, hr⟩ := h
  · exact ⟨rfl, by simp, hr⟩
  · obtain ⟨ht, hn, -⟩ := value?_trimmed hv
    exact ⟨ht, hn, hr⟩

/-- Trimmed code that is not closed before its end, with no break but newlines and no line of blanks;
    or the path of a file on one line, which does not start like code. -/
def Script.WellFormed : Script → Prop
  | .inline code => Trimmed code ∧ occursIn closing code = false ∧
    (∀ c ∈ code, isBreak c = true → c = '\n') ∧
    ∀ f ∈ fieldsAt '\n' code, f = [] ∨ ∃ c ∈ f, isBlank c = false
  | .file path => path ≠ [] ∧ IsValue path ∧ ¬['{', '%'] <+: path

instance (s : Script) : Decidable s.WellFormed :=
  match s with
  | .inline _ => inferInstanceAs (Decidable (_ ∧ _))
  | .file _ => inferInstanceAs (Decidable (_ ∧ _))

/-- A request whose line and headers are what their kinds say, and whose body, trimmed, holds
    something and no line that starts with `###` or `>`. -/
@[mk_iff] structure Request.WellFormed (r : Request) : Prop extends r.Sound where
  body : ∀ b ∈ r.body, (∃ c ∈ b, isBlank c = false) ∧ Inert (strip b) ∧ '\r' ∉ b

/-- A block whose parts are what their kinds say. -/
@[mk_iff] structure Block.WellFormed (b : Block) : Prop where
  separatorText : ∀ x ∈ b.separatorText, IsValue x ∧ x ≠ []
  comments : ∀ c ∈ b.comments,
    IsValue c ∧ ['#'] <+: c ∧ ¬['#', '#', '#'] <+: c ∧ metadataMark? c = none
  metadata : ∀ m ∈ b.metadata, identifier? m.key = some m.key ∧ IsDeclared m.value
  preRequestScripts : ∀ s ∈ b.preRequestScripts, s.WellFormed
  request : ∀ r ∈ b.request, r.WellFormed
  postRequestScripts : ∀ s ∈ b.postRequestScripts, s.WellFormed
  responseRedirect : ∀ x ∈ b.responseRedirect, IsValue x ∧ ['>', '>'] <+: x
  responses : b.request = none → b.postRequestScripts = [] ∧ b.responseRedirect = none

/-- A document of such blocks, none of them empty. -/
@[mk_iff] structure Document.WellFormed (d : Document) : Prop where
  declarations : ∀ v ∈ d.declarations, identifier? v.key = some v.key ∧ IsDeclared v.value
  blocks : ∀ b ∈ d.blocks, b.isEmpty = false ∧ b.WellFormed

instance (r : Request) : Decidable r.Sound := decidable_of_iff _ (Request.sound_iff r).symm

instance (r : Request) : Decidable r.WellFormed := decidable_of_iff _ (Request.wellFormed_iff r).symm

instance (b : Block) : Decidable b.WellFormed := decidable_of_iff _ (Block.wellFormed_iff b).symm

instance (d : Document) : Decidable d.WellFormed := decidable_of_iff _ (Document.wellFormed_iff d).symm

/-! ## What comes back -/

/-- The request that is read where a request was written: its header keys are in the case of its
    version, and its body is the same but for the blanks around it. -/
structure Request.Restored (r r' : Request) : Prop where
  method : r'.method = r.method
  url : r'.url = r.url
  version : r'.version = r.version
  headers : r'.headers = r.headers.map fun h => { h with key := headerKey h.key r.version }
  body : r'.body.map strip = r.body.map strip
  bodyKind : r'.bodyKind = r.body.bind fun b => BodyKind.ofTerminal? (announced (strip b))

/-- The block that is read where a block was written. -/
structure Block.Restored (b b' : Block) : Prop where
  separatorText : b'.separatorText = b.separatorText
  comments : b'.comments = b.comments
  metadata : b'.metadata = b.metadata
  preRequestScripts : b'.preRequestScripts = b.preRequestScripts
  request : Option.Rel Request.Restored b.request b'.request
  postRequestScripts : b'.postRequestScripts = b.postRequestScripts
  responseRedirect : b'.responseRedirect = b.responseRedirect

/-! ## Scripts -/

theorem Script.WellFormed.extracted {s : Script} (h : s.WellFormed) : s.Extracted := by
  cases s with
  | inline code =>
      obtain ⟨ht, hno, hbreak, -⟩ := h
      refine ⟨ht, fun hm => ?_, hno⟩
      exact absurd (hbreak _ hm (by decide)) (by decide)
  | file path =>
      obtain ⟨hne, hv, hopen⟩ := h
      exact ⟨hv, hne, fun ho => absurd ho hopen⟩

theorem Script.WellFormed.not_open {s : Script} (h : s.WellFormed) : ¬s.IsOpen := by
  cases s with
  | inline code => exact id
  | file path => exact h.2.2

/-- The lines of well-formed code are steady: each holds something and no break. -/
theorem steady_of_wellFormed {code : Text} (h : (Script.inline code).WellFormed) :
    ∀ f ∈ fieldsAt '\n' code, Steady f := by
  obtain ⟨-, -, hbreak, hlines⟩ := h
  intro f hf
  rcases hlines f hf with rfl | ⟨c, hc, hsolid⟩
  · exact .inl rfl
  · refine .inr ⟨fun hall => by rw [hall c hc] at hsolid; simp at hsolid, ?_⟩
    rintro u d v rfl hd
    have hmem : d ∈ code := (infix_of_mem_fieldsAt hf).subset (by simp)
    refine absurd ?_ (notMem_of_mem_fieldsAt hf)
    rw [← hbreak d hmem hd]
    simp

theorem Script.WellFormed.reread {s : Script} (h : s.WellFormed) : s.reread = s := by
  refine (Script.reread_eq_iff h.extracted).mpr ?_
  rintro code rfl
  exact steady_of_wellFormed h

/-! ## Round trip -/

theorem Block.WellFormed.sound {b : Block} (h : b.WellFormed) : b.Sound where
  separatorText := h.separatorText
  comments c hc := by
    obtain ⟨hv, hmark, hno, hmeta⟩ := h.comments c hc
    exact ⟨hv, .inl hmark, hno, hmeta⟩
  metadata m hm := ⟨(h.metadata m hm).1, (h.metadata m hm).2.isValue⟩
  preRequestScripts s hs := (h.preRequestScripts s hs).extracted
  postRequestScripts s hs := (h.postRequestScripts s hs).extracted
  responseRedirect := h.responseRedirect
  responses := h.responses

theorem Document.WellFormed.writable {d : Document} (h : d.WellFormed) : d.plain.Writable := by
  refine ⟨fun v hv => ⟨(h.declarations v hv).1, (h.declarations v hv).2.isValue⟩, fun b' hb' => ?_⟩
  obtain ⟨b, hb, rfl⟩ := List.mem_map.mp hb'
  obtain ⟨hne, hw⟩ := h.blocks b hb
  obtain ⟨hempty, hwrite⟩ := Block.settle_writable hw.sound (fun r hr => (hw.request r hr).toSound)
    (Block.settle_false b)
  exact ⟨by rw [hempty, hne], hwrite⟩

theorem Block.WellFormed.comments_plain {b : Block} (h : b.WellFormed) :
    b.plain.comments = b.comments := by
  show b.comments.map normalizeComment = b.comments
  conv => rhs; rw [← List.map_id b.comments]
  exact List.map_congr_left fun c hc =>
    normalizeComment_eq_self (h.comments c hc).1.1 (h.comments c hc).2.1

/-- Without paths that start like inline code, nothing is closed by mistake. -/
theorem quiet_of_not_open {b : Block} (hpre : ∀ s ∈ b.preRequestScripts, ¬s.IsOpen)
    (hpost : ∀ s ∈ b.postRequestScripts, ¬s.IsOpen) (rest : Text) : b.Quiet rest where
  pre := List.pairwise_of_forall_mem_list fun s hs _ _ ho => absurd ho (hpre s hs)
  belowPre s hs ho := absurd ho (hpre s hs)
  post := List.pairwise_of_forall_mem_list fun s hs _ _ ho => absurd ho (hpost s hs)
  belowPost s hs ho := absurd ho (hpost s hs)

theorem quietBlocks_of_not_open {bs : List Block}
    (h : ∀ b ∈ bs, (∀ s ∈ b.preRequestScripts, ¬s.IsOpen) ∧ ∀ s ∈ b.postRequestScripts, ¬s.IsOpen) :
    QuietBlocks bs := by
  induction bs with
  | nil => trivial
  | cons b bs ih =>
      obtain ⟨hpre, hpost⟩ := h b (by simp)
      exact ⟨quiet_of_not_open hpre hpost _, ih fun b' hb' => h b' (by simp [hb'])⟩

theorem Request.WellFormed.restored {r : Request} (h : r.WellFormed) {ending : Text}
    (he : ∀ c ∈ ending, isBlank c = true) : r.Restored (r.plain.reread ending) := by
  have hbody : r.plain.body = r.body.map strip ∧
      r.plain.bodyKind = r.body.bind fun b => BodyKind.ofTerminal? (announced (strip b)) := by
    unfold Request.plain Request.written
    cases hb : r.body with
    | none => exact ⟨rfl, rfl⟩
    | some b =>
        obtain ⟨⟨c, hc, hsolid⟩, -⟩ := h.body b hb
        have hne : (strip b).isEmpty = false := by
          rw [List.isEmpty_eq_false_iff]
          intro hnil
          rw [strip_eq_nil_iff.mp hnil c hc] at hsolid
          simp at hsolid
        simp [hne]
  refine ⟨rfl, rfl, rfl, rfl, ?_, hbody.2⟩
  show (r.plain.body.map (· ++ ending)).map strip = _
  rw [hbody.1]
  cases r.body with
  | none => rfl
  | some b =>
      have htrim : strip (strip b) = strip b := trimmed_strip b
      simp [strip_append_blank _ he, htrim]

theorem Block.WellFormed.restored {b : Block} (h : b.WellFormed) {ending : Text}
    (he : ∀ c ∈ ending, isBlank c = true) : b.Restored (b.plain.reread ending) where
  separatorText := by
    show b.separatorText.filter (· ≠ []) = b.separatorText
    cases hs : b.separatorText with
    | none => rfl
    | some x => simp [(h.separatorText x hs).2]
  comments := h.comments_plain
  metadata := rfl
  preRequestScripts := by
    show b.preRequestScripts.map Script.reread = b.preRequestScripts
    conv => rhs; rw [← List.map_id b.preRequestScripts]
    exact List.map_congr_left fun s hs => (h.preRequestScripts s hs).reread
  request := by
    show Option.Rel _ b.request ((b.request.map Request.plain).map (·.reread ending))
    cases hr : b.request with
    | none => exact .none
    | some r => exact .some ((h.request r hr).restored he)
  postRequestScripts := by
    show b.postRequestScripts.map Script.reread = b.postRequestScripts
    conv => rhs; rw [← List.map_id b.postRequestScripts]
    exact List.map_congr_left fun s hs => (h.postRequestScripts s hs).reread
  responseRedirect := redirect_settled h.responseRedirect

theorem restored_blocks {bs : List Block} (h : ∀ b ∈ bs, b.WellFormed) :
    List.Forall₂ Block.Restored bs (rereadBlocks (bs.map Block.plain)) := by
  induction bs with
  | nil => exact .nil
  | cons b bs ih =>
      exact .cons ((h b (by simp)).restored (blank_ending _ _)) (ih fun b' hb' => h b' (by simp [hb']))

/-- The text of a well-formed document, its bodies only trimmed, is read back. -/
theorem Document.WellFormed.parse_plain {d : Document} (h : d.WellFormed) (defaults : Defaults) (source : Text) :
    Document.parse defaults source d.plain.text = .ok d.plain.reread := by
  have hwritable := h.writable
  have hbodies : ∀ b ∈ d.blocks, ∀ r ∈ b.request, ∀ x ∈ r.body, Inert (strip x) ∧ '\r' ∉ strip x := by
    intro b hb r hr x hx
    obtain ⟨-, hi, hc⟩ := ((h.blocks b hb).2.request r hr).body x hx
    exact ⟨hi, fun hm => hc (mem_of_mem_strip hm)⟩
  have hcomments : ∀ b ∈ d.plain.blocks, ∀ c ∈ b.comments, ¬['#', '#', '#'] <+: c := by
    intro b' hb' c hc
    obtain ⟨b, hb, rfl⟩ := List.mem_map.mp hb'
    rw [(h.blocks b hb).2.comments_plain] at hc
    exact ((h.blocks b hb).2.comments c hc).2.2.1
  have hquiet : QuietBlocks d.plain.blocks := by
    refine quietBlocks_of_not_open fun b' hb' => ?_
    obtain ⟨b, hb, rfl⟩ := List.mem_map.mp hb'
    exact ⟨fun s hs => ((h.blocks b hb).2.preRequestScripts s hs).not_open,
      fun s hs => ((h.blocks b hb).2.postRequestScripts s hs).not_open⟩
  have houtline := outline_document hwritable hcomments
    (bodies_plain fun b hb r hr x hx => (hbodies b hb r hr x hx).1) hquiet
  exact parse_text defaults source hwritable
    (bodies_plain fun b hb r hr x hx => (hbodies b hb r hr x hx).2) houtline

/-- **Reading undoes writing on well-formed documents.** The text that a well-formed document is
    written as, with its bodies only trimmed, is read back, into a document with the same variables
    and, one for one and in order, the same blocks. -/
theorem parse_render {d : Document} (h : d.WellFormed) (defaults : Defaults) (source : Text) :
    ∃ (t : Text) (d' : Document), d.render false = .ok (letters t) ∧ Document.parse defaults source t = .ok d' ∧
      d'.declarations = d.declarations ∧ List.Forall₂ Block.Restored d.blocks d'.blocks := by
  have hrender : d.render false = .ok (letters d.plain.text) := render_eq_ok.mpr ⟨_, settle_false d, rfl⟩
  exact ⟨d.plain.text, d.plain.reread, hrender, h.parse_plain defaults source, rfl,
    restored_blocks fun b hb => (h.blocks b hb).2⟩

/-- A document with a variable, comments, scripts, metadata, a request with a body and a redirect. -/
theorem parse_render_example :
    let d : Document := {
      declarations := [⟨"host", "h"⟩, ⟨"empty", []⟩]
      blocks := [
        { separatorText := some "first"
          comments := ["# note"]
          metadata := [⟨"name", "x"⟩]
          request := some {
            method := "POST"
            url := "h\n  ?a=1\n  &b=2"
            headers := [⟨"X-Key", "v"⟩]
            body := some " body\n ### not a separator\n" }
          preRequestScripts := [.inline "a()\n\n  b()", .file "./pre.js"]
          postRequestScripts := [.file "./post.js"]
          responseRedirect := some ">> out" },
        { comments := ["# nothing else"] }] }
    d.WellFormed ∧ ∃ (t : Text) (d' : Document), d.render false = .ok (letters t) ∧ Document.parse {} [] t = .ok d' ∧
      d'.declarations = d.declarations ∧ List.Forall₂ Block.Restored d.blocks d'.blocks := by
  refine ⟨?formed, parse_render ?formed {} []⟩
  decide +kernel

end HttpFile
