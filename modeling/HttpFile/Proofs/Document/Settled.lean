import HttpFile.Proofs.Document.Header
import HttpFile.Proofs.Document.Reread
import HttpFile.Proofs.Log

/-!
# `HttpFile.Proofs.Document.Settled` — what settled parts are like

Settling changes the mark of comments, the case of header keys and the text of bodies. What comes out
is writable, whatever the formatter of a body does: it may refuse the body, but what it gives is
trimmed.

## Contents
- **Comments.** `normalizeComment_spec`, `normalizeComment_eq_self`.
- **Bodies.** `trimmed_bodyText`.
- **Settled parts.** `written_request`, `written_block`, `settle_cases`, `settle_writable`.
- **Bodies as they are.** `Document.plain`: settling without formatting.
-/

namespace HttpFile

open Text Unicode Syntax

/-! ## Comments -/

theorem metadataMark?_slashes (rest : Text) (h : metadataMark? ('/' :: '/' :: rest) = none) :
    metadataMark? ('#' :: rest) = none := by
  cases hs : metadataMark? ('#' :: rest) with
  | none => rfl
  | some l =>
      obtain ⟨mark, g, c, more, hm, hg, hc, ht, -⟩ := metadataMark?_spec hs
      have hmark : mark = ['#'] := by
        rcases hm with rfl | rfl
        · rfl
        · simp at ht
      subst hmark
      have hrest : rest = g ++ '@' :: c :: more := by simpa using ht
      have hmeta := metadataMark?_append (.inr rfl : ['/', '/'] = ['#'] ∨ ['/', '/'] = ['/', '/'])
        hg hc more
      rw [List.append_assoc, ← hrest, List.cons_append, List.singleton_append, h] at hmeta
      simp at hmeta

/-- A comment behind a number sign is still a line that opens no metadata. -/
theorem normalizeComment_spec {c : Text} (h : IsComment c) :
    IsValue (normalizeComment c) ∧ ['#'] <+: normalizeComment c ∧
      metadataMark? (normalizeComment c) = none := by
  obtain ⟨⟨ht, hline⟩, hmark, -, hmeta⟩ := h
  have hstrip : strip c = c := ht
  unfold normalizeComment
  rw [hstrip]
  rcases hmark with ⟨r, rfl⟩ | ⟨r, rfl⟩
  · exact ⟨⟨ht, hline⟩, List.prefix_append _ _, hmeta⟩
  · have hsolid : isBlank '/' = false := by decide
    have hr : stripRight r = r := by
      have hright := ht.stripRight
      rw [List.cons_append, List.singleton_append, stripRight_cons _ hsolid, stripRight_cons _ hsolid] at hright
      simpa using hright
    have hline' : SingleLine r := hline.of_isInfix (List.suffix_append _ r).isInfix
    refine ⟨⟨Trimmed.of_cons (by decide) hr, ?_, ?_⟩, ⟨r, rfl⟩, metadataMark?_slashes r hmeta⟩
    · exact List.not_mem_cons_of_ne_of_not_mem (by decide) hline'.1
    · exact List.not_mem_cons_of_ne_of_not_mem (by decide) hline'.2

theorem normalizeComment_eq_self {c : Text} (ht : Trimmed c) (hmark : ['#'] <+: c) :
    normalizeComment c = c := by
  have hstrip : strip c = c := ht
  obtain ⟨r, rfl⟩ := hmark
  unfold normalizeComment
  rw [hstrip]
  rfl

/-! ## Bodies -/

/-- Joined pieces that hold no blank are trimmed. -/
theorem trimmed_intercalate {sep : Text} {f : Text} {fs : List Text}
    (h : ∀ g ∈ f :: fs, Solid g ∧ g ≠ []) : Trimmed (sep.intercalate (f :: fs)) := by
  have hends : EndsSolid (sep.intercalate (f :: fs)) := by
    induction fs generalizing f with
    | nil =>
        obtain ⟨hs, hne⟩ := h f (by simp)
        simpa using hs.trimmed.endsSolid hne
    | cons g gs ih =>
        rw [List.intercalate_cons_cons, List.append_assoc]
        exact ((ih fun x hx => h x (by simp [hx])).append sep).append f
  obtain ⟨c, f', rfl⟩ := List.exists_cons_of_ne_nil (h f (by simp)).2
  have hc : isBlank c = false := (h (c :: f') (by simp)).1 c (by simp)
  refine trimmed_iff.mpr ⟨fun x hx => ?_, fun x hx => ?_⟩
  · have hhead : (sep.intercalate ((c :: f') :: fs)).head? = some c := by
      cases fs with
      | nil => simp
      | cons g gs => rw [List.intercalate_cons_cons]; rfl
    rw [hhead] at hx
    exact Option.some.inj hx ▸ hc
  · obtain ⟨u, d, hu, hd⟩ := hends
    rw [hu, List.getLast?_concat] at hx
    exact Option.some.inj hx ▸ hd

theorem trimmed_formatForm (t : Text) : Trimmed (formatForm t) := by
  have hfields : ∀ g ∈ (fieldsAt '&' (t.filter fun c => !isBlank c)).filter (· ≠ []), Solid g ∧ g ≠ [] := by
    intro g hg
    obtain ⟨hg, hne⟩ := List.mem_filter.mp hg
    refine ⟨fun c hc => ?_, by simpa using hne⟩
    have hmem := (infix_of_mem_fieldsAt hg).subset hc
    simpa using (List.mem_filter.mp hmem).2
  unfold formatForm
  simp only
  split
  · next first second more heq =>
      rw [heq] at hfields
      exact trimmed_intercalate hfields
  · exact trimmed_strip t

/-- A trimmed wide text that is a text is a trimmed one. -/
theorem trimmed_of_stripWide {v : Wide} {w : Text} (h : stripWide v = letters w) : Trimmed w := by
  obtain ⟨φ, -, -⟩ := exists_standIns
  have hread := reading_trimWhere φ v
  rw [show trimWhere (Sum.elim isBlank fun _ => false) v = letters w from h, reading_letters] at hread
  exact hread ▸ trimmed_strip _

theorem trimmed_formatJson {t w : Text} (h : formatJson t = .ok (letters w)) : Trimmed w := by
  unfold formatJson at h
  simp only at h
  split at h
  · simp at h
  · exact trimmed_of_stripWide (Except.ok.inj h)

theorem trimmed_formatGraphql {t w : Text} (h : formatGraphql t = .ok (letters w)) : Trimmed w := by
  unfold formatGraphql at h
  generalize splitGraphql t = parts at h
  obtain ⟨query, vars⟩ := parts
  simp only at h
  generalize GraphQL.parse (Body.Guard.of query).text = parsed at h
  cases parsed with
  | error e => simp at h
  | ok document =>
      simp only at h
      match vars with
      | none | some [] => exact letters_injective (Except.ok.inj h) ▸ trimmed_strip _
      | some (c :: v) =>
          simp only at h
          generalize formatJson (c :: v) = printed at h
          cases printed with
          | error e => simp at h
          | ok json => exact trimmed_of_stripWide (Except.ok.inj h)

theorem trimmed_formatAs {kind : ContentKind} {t w : Text} (ht : Trimmed t)
    (h : formatAs kind t = .ok (letters w)) : Trimmed w := by
  cases kind with
  | json => exact trimmed_formatJson h
  | graphql => exact trimmed_formatGraphql h
  | form => exact letters_injective (Except.ok.inj h) ▸ trimmed_formatForm t
  | raw => exact letters_injective (Except.ok.inj h) ▸ ht

/-- **Whatever text a formatter gives for a body is trimmed.** -/
theorem trimmed_bodyText {r : Request} {reformat : Bool} {w : Text}
    (h : r.bodyText reformat = .ok (letters w)) : Trimmed w := by
  unfold Request.bodyText at h
  split at h
  · unfold formatBody at h
    split at h
    · obtain rfl : [] = w := letters_injective (Except.ok.inj h)
      rfl
    · exact trimmed_formatAs (trimmed_strip _) h
  · exact letters_injective (Except.ok.inj h) ▸ trimmed_strip _

/-! ## Settled parts -/

theorem Request.Extracted.sound {r : Request} (h : r.Extracted {}) : r.Sound := by
  refine ⟨?_, h.target, h.folded, ?_, h.headers⟩
  · rcases h.method with hm | hm
    · exact hm
    · rw [hm]
      decide
  · rcases h.version with hv | hv
    · exact hv
    · rw [hv]
      rfl

theorem written_request {r : Request} (h : r.Sound) {w : Text} (hw : Trimmed w) :
    (r.written w).Writable := by
  refine ⟨⟨h.method, h.target, h.folded, h.version, fun x hx => ?_⟩, fun y hy => ?_, ?_⟩
  · obtain ⟨y, hy, rfl⟩ := List.mem_map.mp hx
    obtain ⟨hne, hkey, hv⟩ := h.headers y hy
    exact ⟨headerKey_ne_nil hkey hne _, isHeaderKey_headerKey hkey _, hv⟩
  · cases w with
    | nil => simp [Request.written] at hy
    | cons c w =>
        obtain rfl : c :: w = y := by simpa [Request.written] using hy
        exact ⟨hw, by simp⟩
  · cases w <;> rfl

/-- A redirect is written as it is. -/
theorem redirect_settled {x : Option Text} (h : ∀ y ∈ x, IsValue y ∧ ['>', '>'] <+: y) :
    (x.filter (· ≠ [])).map strip = x := by
  cases x with
  | none => rfl
  | some y =>
      obtain ⟨hv, ⟨r, rfl⟩⟩ := h y rfl
      have hstrip : strip (['>', '>'] ++ r) = ['>', '>'] ++ r := hv.1
      exact congrArg some hstrip

theorem written_block {b : Block} (h : b.Sound) {request : Option Request}
    (hr : ∀ r ∈ request, r.Writable) (hnone : request = none → b.request = none) :
    (b.written request).Writable where
  separatorText x hx := h.separatorText x (Option.filter_eq_some_iff.mp hx).1
  comments c hc := by
    obtain ⟨c', hc', rfl⟩ := List.mem_map.mp hc
    exact normalizeComment_spec (h.comments c' hc')
  metadata := h.metadata
  preRequestScripts := h.preRequestScripts
  request := hr
  postRequestScripts := h.postRequestScripts
  responseRedirect := by
    show ∀ x ∈ (b.responseRedirect.filter (· ≠ [])).map strip, _
    rw [redirect_settled h.responseRedirect]
    exact h.responseRedirect
  responses hn := by
    obtain ⟨hpost, hred⟩ := h.responses (hnone hn)
    exact ⟨hpost, by simp [Block.written, hred]⟩

theorem Block.isEmpty_written {b : Block} {request : Option Request}
    (h : request.map (·.url) = b.request.map (·.url)) : (b.written request).isEmpty = b.isEmpty := by
  cases hr : request <;> cases hb : b.request <;> rw [hr, hb] at h <;>
    simp_all [Block.isEmpty, Block.written]

/-- A settled block is the block with its request as it is written. -/
theorem Block.settle_cases {reformat : Bool} {b e : Block} (h : b.settle reformat = .ok e) :
    (b.request = none ∧ e = b.written none) ∨
      ∃ r w, b.request = some r ∧ r.bodyText reformat = .ok (letters w) ∧ e = b.written (some (r.written w)) := by
  unfold Block.settle Request.settle at h
  cases hr : b.request with
  | none =>
      rw [hr] at h
      exact .inl ⟨rfl, (Except.ok.inj h).symm⟩
  | some r =>
      rw [hr] at h
      simp only at h
      cases hw : r.settledBody reformat with
      | error f => rw [hw] at h; simp [Except.map] at h
      | ok w =>
          rw [hw] at h
          exact .inr ⟨r, w, rfl, settledBody_eq_ok.mp hw, (Except.ok.inj h).symm⟩

theorem Block.settle_writable {reformat : Bool} {b e : Block} (hb : b.Sound)
    (hr : ∀ r ∈ b.request, r.Sound) (h : b.settle reformat = .ok e) :
    e.isEmpty = b.isEmpty ∧ e.Writable := by
  rcases Block.settle_cases h with ⟨hreq, rfl⟩ | ⟨r, w, hreq, hw, rfl⟩
  · exact ⟨Block.isEmpty_written (by rw [hreq]), written_block hb (by simp) fun _ => hreq⟩
  · refine ⟨Block.isEmpty_written (by rw [hreq]; rfl), written_block hb ?_ (by simp)⟩
    intro r' hr'
    obtain rfl : r.written w = r' := by simpa using hr'
    exact written_request (hr r hreq) (trimmed_bodyText hw)

/-- The blocks of a settled document are those of the document, one for one. -/
theorem settle_blocks {reformat : Bool} {d e : Document} (h : d.settle reformat = .ok e) :
    e.declarations = d.declarations ∧
      List.Forall₂ (fun b e => b.settle reformat = .ok e) d.blocks e.blocks := by
  unfold Document.settle at h
  cases hbs : d.blocks.mapM (Block.settle reformat) with
  | error f => rw [hbs] at h; simp [Except.map] at h
  | ok bs =>
      rw [hbs] at h
      obtain rfl := Except.ok.inj h
      exact ⟨rfl, forall₂_of_mapM hbs⟩

/-- **A settled document is writable.** -/
theorem settle_writable {reformat : Bool} {d e : Document} (h : d.Extracted {})
    (hs : d.settle reformat = .ok e) : e.Writable := by
  obtain ⟨hdecl, hblocks⟩ := settle_blocks hs
  refine ⟨by rw [hdecl]; exact h.declarations, fun b hb => ?_⟩
  obtain ⟨b', hb', hsettle⟩ := exists_of_forall₂ hblocks hb
  obtain ⟨hne, hsound⟩ := h.blocks b' hb'
  obtain ⟨hempty, hw⟩ := Block.settle_writable hsound.toSound (fun r hr => (hsound.request r hr).sound) hsettle
  exact ⟨by rw [hempty, hne], hw⟩

/-! ## Bodies as they are -/

/-- A request with its body only trimmed. -/
def Request.plain (r : Request) : Request := r.written (strip (r.body.getD []))

/-- A block with its body only trimmed. -/
def Block.plain (b : Block) : Block := b.written (b.request.map Request.plain)

/-- A document with its bodies only trimmed. -/
def Document.plain (d : Document) : Document := { d with blocks := d.blocks.map Block.plain }

theorem Block.settle_false (b : Block) : b.settle false = .ok b.plain := by
  have hbody : ∀ r : Request, r.settledBody false = .ok (strip (r.body.getD [])) := fun r => settledBody_eq_ok.mpr rfl
  unfold Block.settle Request.settle Block.plain Request.plain
  cases b.request with
  | none => rfl
  | some r =>
      dsimp only
      rw [hbody]
      rfl

theorem settle_false (d : Document) : d.settle false = .ok d.plain := by
  have hblocks : ∀ bs : List Block, bs.mapM (Block.settle false) = .ok (bs.map Block.plain) := by
    intro bs
    induction bs with
    | nil => rfl
    | cons b bs ih => rw [List.mapM_cons, Block.settle_false, ih]; rfl
  unfold Document.settle
  rw [hblocks]
  rfl

/-- A body that is written is the body of the request, trimmed. -/
theorem body_plain {r : Request} {w : Text} (h : w ∈ r.plain.body) :
    ∃ b ∈ r.body, w = strip b := by
  unfold Request.plain Request.written at h
  cases hb : r.body with
  | none =>
      rw [hb] at h
      exact absurd h (by simp [show strip [] = [] from rfl])
  | some b =>
      rw [hb] at h
      simp only [Option.getD_some] at h
      split at h
      · simp at h
      · exact ⟨b, rfl, (Option.some.inj h).symm⟩

theorem bodies_plain {d : Document} {P : Text → Prop}
    (h : ∀ b ∈ d.blocks, ∀ r ∈ b.request, ∀ x ∈ r.body, P (strip x)) :
    ∀ b ∈ d.plain.blocks, ∀ r ∈ b.request, ∀ w ∈ r.body, P w := by
  intro b' hb' r' hr' w hw
  obtain ⟨b, hb, rfl⟩ := List.mem_map.mp hb'
  obtain ⟨r, hr, rfl⟩ := Option.map_eq_some_iff.mp hr'
  obtain ⟨x, hx, rfl⟩ := body_plain hw
  exact h b hb r hr x hx

end HttpFile
