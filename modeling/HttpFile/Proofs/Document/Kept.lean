import HttpFile.Proofs.Document.Misread

/-!
# `HttpFile.Proofs.Document.Kept` — which exchanges are read back

Of the blocks of a settled document, each is read back as an exchange of its own, or it is misread in
one of three ways. A misread block either makes the text refused or puts another exchange in the place
of its own, so the exchanges come back exactly when no block is misread.

## Contents
- **What may go wrong.** `Block.Kept`; `Block.Calm`: what reading a file rules out.
- **Blocks.** `exchangesIn_request`, `exchangesIn_block_kept`, `exchangesIn_block_lost`.
- **Documents.** `exchangesIn_blocks_iff`, `exchangesIn_text_iff`.
-/

namespace HttpFile

open Text Unicode Syntax

/-! ## What may go wrong -/

/-- A redirect does not close inline code, unless no path above it starts like it. -/
def Block.RedirectKept (b : Block) : Prop :=
  (∃ s ∈ b.postRequestScripts, s.IsOpen) → ∀ x ∈ b.responseRedirect, occursIn closing x = false

/-- A block whose request and responses are read back: its body, trimmed, does not end where it starts,
    and what is moved below a path that starts like inline code does not close it, or closes it at the
    end of a line of metadata. -/
@[mk_iff] structure Block.Kept (b : Block) : Prop where
  body : ∀ r ∈ b.request, ∀ x ∈ r.body, endsBody (strip x) = false
  metadata : b.MetadataKept
  redirect : b.RedirectKept

/-- Below a path that starts like inline code, nothing closes it but what is moved there: metadata
    below a script above the request, a redirect below a script behind it. -/
structure Block.Calm (b : Block) (rest : Text) : Prop where
  pre : Unclosed b.preRequestScripts
  belowPre : ∀ s ∈ b.preRequestScripts, s.IsOpen → occursIn closing
    (endLines (b.request.toList.flatMap Request.lines ++ b.responseLines) ++ rest) = false
  post : Unclosed b.postRequestScripts
  belowPost : ∀ s ∈ b.postRequestScripts, s.IsOpen → occursIn closing rest = false

/-! ## Blocks -/

/-- The node that a request is written as asks for what the request asks for. -/
theorem exchange_node {b : Block} (h : b.Writable) {r : Request} (hr : b.request = some r)
    (below : Text) : some (r.node (bodyEnd below) b.responses).exchange = b.exchange? := by
  have hblank : ∀ c ∈ bodyEnd below, isBlank c = true := by
    unfold bodyEnd
    split <;> decide
  have hbody : (r.reread (bodyEnd below)).body.map strip = r.body.map strip := by
    show (r.body.map (· ++ bodyEnd below)).map strip = _
    cases r.body with
    | none => rfl
    | some w => exact congrArg some (strip_append_blank w hblank)
  unfold RequestNode.exchange Block.exchange?
  rw [ofNode_node {} (h.request r hr), handlers_node, redirect?_node h, List.length_map, hr]
  unfold Request.exchange
  rw [hbody]
  rfl

/-- A request whose body and redirect are kept is read back with what is below it. -/
theorem exchangesIn_request {b : Block} (h : b.Writable) {r : Request} (hr : b.request = some r)
    (hi : ∀ w ∈ r.body, Inert w) (hk : b.RedirectKept) {rest : Text} (hs : Starts rest)
    (hc : b.Calm rest) :
    exchangesIn (endLines (r.lines ++ b.responseLines) ++ rest) =
      (exchangesIn rest).map (b.exchange?.toList ++ ·) := by
  have hclosed : ∀ s ∈ b.postRequestScripts, s.IsOpen →
      occursIn closing (endLines (b.responseRedirect.toList.flatMap fun x => [[], x]) ++ rest) = false :=
    fun s hs ho => occursIn_endLines (by decide)
      (FreeLines.spaced fun x hx => hk ⟨s, hs, ho⟩ x (Option.mem_toList.mp hx)) (hc.belowPost s hs ho)
  unfold exchangesIn
  rw [outline_request h hr hi hc.post hs hclosed, Option.map_map]
  cases hes : outline .lineStart rest with
  | none => rfl
  | some es =>
      obtain ⟨ss, hss⟩ := group_of_starts hs hes
      rw [← exchange_node h hr]
      exact congrArg some (exchangesOf_node _ hss)

/-- A redirect that closes inline code above it is lost. -/
theorem exchangesIn_redirect_lost {b : Block} (h : b.Writable) {r : Request} (hr : b.request = some r)
    (hi : ∀ w ∈ r.body, Inert w) (hk : ¬b.RedirectKept) {rest : Text} (hs : Starts rest)
    (hc : b.Calm rest) {xs : List Exchange}
    (hread : exchangesIn (endLines (r.lines ++ b.responseLines) ++ rest) = some xs) :
    ∃ x xs', xs = x :: xs' ∧ x.redirect = none := by
  obtain ⟨s, hs', hopen, x, hx, hclosed⟩ : ∃ s, s ∈ b.postRequestScripts ∧ s.IsOpen ∧
      ∃ x, b.responseRedirect = some x ∧ occursIn closing x = true := by
    simpa [Block.RedirectKept] using hk
  -- the first open path takes along all that is between it and the mark in the redirect
  obtain ⟨ss₁, path, ss₂, hss, ho, hnot⟩ := exists_first_open ⟨s, hs', hopen⟩
  have hw := h.request r hr
  have hpost := hc.post
  rw [hss] at hpost
  have hfree := (List.pairwise_cons.mp (List.pairwise_append.mp hpost).2.1).1
  obtain ⟨place, hp, hbody⟩ := outline_belowHead hw.body hi (h.follows hs.follows)
  have htext : endLines (r.lines ++ b.responseLines) ++ rest =
      endLines ((r.method ++ ' ' :: (r.url ++ ' ' :: r.version)) ::
        r.headers.map fun h => stripRight (h.key ++ ": " ++ h.value)) ++
        (endLines (r.body.toList.flatMap fun w => [[], w]) ++ (endLines b.responseLines ++ rest)) := by
    simp [Request.lines, endLines_append]
  have hlines : b.responseLines = (ss₁ ++ .file path :: ss₂).flatMap
      (fun s => [[], ['>', ' '] ++ s.render]) ++ [[], x] := by
    simp [Block.responseLines, hss, hx]
  unfold exchangesIn at hread
  rw [htext, outline_head hw, hbody, Option.map_map, Option.map_map] at hread
  obtain ⟨es, hes, rfl⟩ := Option.map_eq_some_iff.mp hread
  rw [hlines] at hes
  obtain ⟨ts, es', rfl, hes'⟩ := outline_redirect_lost
    (fun s hs => h.postRequestScripts s (by simp [hss, hs])) hnot ho
    (h.postRequestScripts _ (by simp [hss])) (fun s hs => hfree s hs ho) (h.responseRedirect x hx).1
    hclosed hs hp hes
  obtain ⟨ss, hsections⟩ := group_of_starts hs hes'
  let n := r.node (bodyEnd (endLines b.responseLines ++ rest)) (ts.map .handler)
  have hnode := exchangesOf_node n hsections
  rw [node_entries, List.append_assoc, List.append_assoc] at hnode
  refine ⟨n.exchange, exchangesOf es', hnode, ?_⟩
  show n.redirect? = none
  simp [RequestNode.redirect?, n, Request.node, List.filterMap_map]

/-- A block is read from its items on. -/
theorem exchangesIn_lines {b : Block} (h : b.Writable) (rest : Text) :
    exchangesIn (endLines b.lines ++ rest) = exchangesIn (endLines b.itemLines ++
      (endLines (b.request.toList.flatMap Request.lines ++ b.responseLines) ++ rest)) :=
  exchangesIn_of_aside (outline_opening h rest) trivial

/-- **A block that is kept is read back as its exchange.** -/
theorem exchangesIn_block_kept {b : Block} (h : b.Writable)
    (hi : ∀ r ∈ b.request, ∀ w ∈ r.body, endsBody w = false → Inert w) (hk : b.Kept) {rest : Text}
    (hs : Starts rest) (hc : b.Calm rest) :
    exchangesIn (endLines b.lines ++ rest) = (exchangesIn rest).map (b.exchange?.toList ++ ·) := by
  rw [exchangesIn_lines h]
  rcases exchangesIn_items h hc.pre hc.belowPre with ⟨-, hitems⟩ | ⟨hnot, -⟩
  · rw [hitems]
    cases hr : b.request with
    | none =>
        obtain ⟨hpost, hred⟩ := h.responses hr
        have hnone : b.exchange? = none := by simp [Block.exchange?, hr]
        simp [Block.responseLines, hpost, hred, hnone]
    | some r =>
        have hinert : ∀ w ∈ r.body, Inert w := fun w hw => hi r hr w hw (by
          have hend := hk.body r hr w hw
          rwa [((h.request r hr).body w hw).1] at hend)
        have hread := exchangesIn_request h hr hinert hk.redirect hs hc
        simpa using hread
  · exact absurd hk.metadata hnot

/-- **A block that is not kept is not read back**: the text is refused, or another exchange stands in
    its place. -/
theorem exchangesIn_block_lost {b : Block} (h : b.Writable)
    (hi : ∀ r ∈ b.request, ∀ w ∈ r.body, endsBody w = false → Inert w) (hk : ¬b.Kept) {rest : Text}
    (hs : Starts rest) (hc : b.Calm rest) (xs : List Exchange) :
    exchangesIn (endLines b.lines ++ rest) ≠ some (b.exchange?.toList ++ xs) := by
  intro hread
  rw [exchangesIn_lines h] at hread
  rcases exchangesIn_items h hc.pre hc.belowPre with ⟨hmeta, hitems⟩ | ⟨-, hitems⟩
  · rw [hitems] at hread
    cases hr : b.request with
    | none =>
        obtain ⟨hpost, -⟩ := h.responses hr
        refine hk ⟨by simp [hr], hmeta, ?_⟩
        simp [Block.RedirectKept, hpost]
    | some r =>
        have hexchange : b.exchange? = some (r.exchange b.postRequestScripts.length b.responseRedirect) := by
          simp [Block.exchange?, hr]
        rw [hr, hexchange] at hread
        simp only [Option.toList_some, List.flatMap_cons, List.flatMap_nil, List.append_nil,
          List.singleton_append] at hread
        -- the items are kept, so the body was lost or the redirect was
        by_cases hbody : ∃ w, r.body = some w ∧ endsBody w = true
        · obtain ⟨w, hw, hend⟩ := hbody
          obtain ⟨x, xs', hx, hnone⟩ := exchangesIn_body_lost (h.request r hr) hw hend hread
          rw [← (List.cons.inj hx).1] at hnone
          simp [Request.exchange, hw] at hnone
        · have hends : ∀ w ∈ r.body, endsBody w = false := fun w hw => by
            cases hend : endsBody w with
            | false => rfl
            | true => exact absurd ⟨w, hw, hend⟩ hbody
          have hred : ¬b.RedirectKept := fun hred => hk ⟨fun r' hr' w hw => by
            obtain rfl : r = r' := Option.some.inj (hr.symm.trans hr')
            rw [((h.request r hr).body w hw).1]
            exact hends w hw, hmeta, hred⟩
          obtain ⟨x, xs', hx, hnone⟩ := exchangesIn_redirect_lost h hr
            (fun w hw => hi r hr w hw (hends w hw)) hred hs hc hread
          rw [← (List.cons.inj hx).1] at hnone
          refine hred fun _ y hy => ?_
          rw [show b.responseRedirect = none from hnone] at hy
          simp at hy
  · rw [hitems] at hread
    simp at hread

/-! ## Documents -/

/-- Each of the blocks is calm. -/
def CalmBlocks : List Block → Prop
  | [] => True
  | b :: bs => b.Calm (sheetText (bs.map Block.lines)) ∧ CalmBlocks bs

/-- **The exchanges of blocks are read back exactly when every block is kept.** -/
theorem exchangesIn_blocks_iff {bs : List Block} (h : ∀ b ∈ bs, b.Writable)
    (hi : ∀ b ∈ bs, ∀ r ∈ b.request, ∀ w ∈ r.body, endsBody w = false → Inert w) (hc : CalmBlocks bs) :
    exchangesIn (sheetText (bs.map Block.lines)) = some (bs.filterMap Block.exchange?) ↔
      ∀ b ∈ bs, b.Kept := by
  induction bs with
  | nil => exact iff_of_true rfl (by simp)
  | cons b bs ih =>
      have hrest := ih (fun b' hb' => h b' (by simp [hb'])) (fun b' hb' => hi b' (by simp [hb'])) hc.2
      have htext : exchangesIn (sheetText ((b :: bs).map Block.lines)) =
          exchangesIn (endLines b.lines ++ sheetText (bs.map Block.lines)) :=
        congrArg (Option.map exchangesOf) (outline_newline rfl _)
      have hlist : (b :: bs).filterMap Block.exchange? =
          b.exchange?.toList ++ bs.filterMap Block.exchange? := by
        rw [List.filterMap_cons]
        cases b.exchange? <;> rfl
      rw [htext, hlist, List.forall_mem_cons, ← hrest]
      by_cases hk : b.Kept
      · rw [exchangesIn_block_kept (h b (by simp)) (hi b (by simp)) hk (starts_blocks bs) hc.1]
        simp [hk]
      · have hlost := exchangesIn_block_lost (h b (by simp)) (hi b (by simp)) hk (starts_blocks bs) hc.1
        exact iff_of_false (hlost _) fun hall => hk hall.1

/-- **The exchanges of a document are read back exactly when every block is kept.** -/
theorem exchangesIn_text_iff {d : Document} (h : d.Writable)
    (hi : ∀ b ∈ d.blocks, ∀ r ∈ b.request, ∀ w ∈ r.body, endsBody w = false → Inert w)
    (hc : CalmBlocks d.blocks) :
    exchangesIn d.text = some d.exchanges ↔ ∀ b ∈ d.blocks, b.Kept := by
  have hvariables : exchangesIn d.text = exchangesIn (sheetText (d.blocks.map Block.lines)) := by
    refine exchangesIn_of_asides (fun e he => ?_) (outline_variables h)
    obtain ⟨i, -, rfl⟩ := List.mem_map.mp he
    trivial
  rw [← exchangesIn_blocks_iff (fun b hb => (h.blocks b hb).2) hi hc, hvariables]
  rfl

end HttpFile
