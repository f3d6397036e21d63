import HttpFile.Proofs.Document.Exchanges
import HttpFile.Proofs.Document.Hush

/-!
# `HttpFile.Proofs.Document.Misread` — written lines that are read as something else

Some lines of a settled document are not read back as what they were written as. A comment that starts
with `###` opens a section; this costs nothing, as a section may be empty. A path that starts like
inline code is closed by what was moved below it, and takes the lines in between along. A body that
ends where it starts is read as responses or as other sections.

## Contents
- **Comments.** `exchangesIn_comments`.
- **Closed paths.** `lexeme?_closed`, `exchangesIn_closed_preRequest`, `outline_closed_handler`.
- **Above a request.** `Block.MetadataKept`, `exchangesIn_items`, `exchangesIn_items_eq_none`.
- **Bodies.** `outline_beforeBody_of_endsBody`, `exchangesOf_head`.
-/

namespace HttpFile

open Text Unicode Syntax

/-! ## Comments -/

/-- A comment asks for nothing, even if it is read as a separator. -/
theorem exchangesIn_comment {c : Text} (hv : IsValue c) (hmark : ['#'] <+: c)
    (hmeta : metadataMark? c = none) (rest : Text) :
    exchangesIn (c ++ '\n' :: rest) = exchangesIn rest := by
  by_cases hsection : ['#', '#', '#'] <+: c
  · obtain ⟨y, rfl⟩ := hsection
    obtain ⟨ht, hn, -⟩ := hv
    have hy : stripRight y = y := by
      have hright := ht.stripRight
      simp only [List.cons_append, List.nil_append, stripRight_cons _ (show isBlank '#' = false by decide)] at hright
      simpa using hright
    have hny : '\n' ∉ y := fun hm => hn (by simp [hm])
    have hread := outline_mark hny hy rest
    rw [List.append_assoc]
    exact exchangesIn_of_aside hread trivial
  · have hread := outline_comment ⟨hv, .inl hmark, hsection, hmeta⟩ hmark rest
    exact exchangesIn_of_aside hread trivial

theorem exchangesIn_comments {cs : List Text}
    (h : ∀ c ∈ cs, IsValue c ∧ ['#'] <+: c ∧ metadataMark? c = none) (rest : Text) :
    exchangesIn (endLines cs ++ rest) = exchangesIn rest := by
  induction cs with
  | nil => rfl
  | cons c cs ih =>
      obtain ⟨hv, hmark, hmeta⟩ := h c (by simp)
      rw [endLines_cons, List.append_assoc, List.cons_append, exchangesIn_comment hv hmark hmeta]
      exact ih fun c' hc' => h c' (by simp [hc'])

/-! ## Closed paths -/

/-- A path that starts like inline code is read as such, through the first mark that closes it. -/
theorem lexeme?_closed {place : Context} (hplace : place.lexeme? = firstLexeme? [.script, .path])
    {path between : Text} (ho : ['{', '%'] <+: path)
    (hfree : occursIn closing (path.drop 2 ++ (between ++ ['%'])) = false) (rest : Text) :
    place.lexeme? (path ++ between ++ closing ++ rest) = some (.script, path ++ between ++ closing) := by
  obtain ⟨p, rfl⟩ := ho
  have hscript : Terminal.script.lexeme? (['{', '%'] ++ p ++ between ++ closing ++ rest) =
      some (['{', '%'] ++ p ++ between ++ closing) := by
    have hend : throughScriptEnd? (p ++ between ++ closing ++ rest) = some (p ++ between ++ closing) :=
      throughScriptEnd?_append (by simpa using hfree) rest
    show (throughScriptEnd? (p ++ between ++ closing ++ rest)).map _ = _
    rw [hend]
    rfl
  rw [hplace]
  exact firstLexeme?_here .script hscript _

/-- Such a path above a request. -/
theorem outline_closed_preRequest {path between : Text} (ho : ['{', '%'] <+: path)
    (hfree : occursIn closing (path.drop 2 ++ (between ++ ['%'])) = false) (rest : Text) :
    outline .lineStart (['<', ' '] ++ (path ++ between ++ closing ++ rest)) =
      (outline .lineEnd rest).map
        (.item (.preRequest (Token.bare .script (path ++ between ++ closing))) :: ·) := by
  have hmark : Context.lineStart.lexeme? (['<', ' '] ++ (path ++ between ++ closing ++ rest)) =
      some (.preRequestMark, ['<', ' ']) := by
    obtain ⟨p, rfl⟩ := ho
    exact lexeme?_preRequestMark (by decide) _
  have hread : reading .lineStart (['<', ' '] ++ (path ++ between ++ closing ++ rest)) =
      (reading .lineEnd rest).map ([Token.bare .preRequestMark ['<', ' '],
        Token.bare .script (path ++ between ++ closing)] ++ ·) :=
    reading_cons (reading_step hmark rfl) (reading_step (lexeme?_closed rfl ho hfree rest) rfl)
  exact outline_line hread fun us _ => rfl

/-- Such a path below a request. -/
theorem outline_closed_handler {place : Context} (hp : BelowRequest place) {path between : Text}
    (ho : ['{', '%'] <+: path)
    (hfree : occursIn closing (path.drop 2 ++ (between ++ ['%'])) = false) (rest : Text) :
    outline place (['>', ' '] ++ (path ++ between ++ closing ++ rest)) =
      (outline .responseEnd rest).map
        (.response (.handler (Token.bare .script (path ++ between ++ closing))) :: ·) := by
  have hmark : place.lexeme? (['>', ' '] ++ (path ++ between ++ closing ++ rest)) =
      some (.handlerMark, ['>', ' ']) := by
    obtain ⟨p, rfl⟩ := ho
    exact lexeme?_handlerMark hp (by decide) _
  have hread : reading place (['>', ' '] ++ (path ++ between ++ closing ++ rest)) =
      (reading .responseEnd rest).map ([Token.bare .handlerMark ['>', ' '],
        Token.bare .script (path ++ between ++ closing)] ++ ·) :=
    reading_cons (reading_step hmark hp.next_handlerMark)
      (reading_step (lexeme?_closed rfl ho hfree rest) rfl)
  exact outline_line hread fun us _ => rfl

/-- Behind a script its line must end. -/
theorem outline_lineEnd {place place' : Context} (hplace : place.lexeme? = firstLexeme? [.endOfLine])
    (hn : place.next .endOfLine = some place') {v : Text} (hv : '\n' ∉ v) (hright : stripRight v = v)
    (rest : Text) :
    outline place (v ++ '\n' :: rest) = if v = [] then outline place' rest else none := by
  cases v with
  | nil => exact outline_newline hn rest
  | cons c v =>
      have hlex : place.lexeme? (c :: v ++ '\n' :: rest) = none := by
        rw [hplace, firstLexeme?_skip .endOfLine (endOfLine?_line hv hright (by simp) rest)]
        rfl
      unfold outline
      rw [List.cons_append] at hlex ⊢
      rw [reading_stuck hlex]
      rfl

/-- A value that closes inline code, cut behind the first mark that does. -/
theorem exists_closing {v : Text} (hv : IsValue v) (h : occursIn closing v = true) :
    ∃ code tail, v = code ++ closing ++ tail ∧ occursIn closing (code ++ ['%']) = false ∧
      '\n' ∉ tail ∧ stripRight tail = tail ∧ (throughScriptEnd? v = some v ↔ tail = []) := by
  cases hend : throughScriptEnd? v with
  | none =>
      rw [throughScriptEnd?_eq_none_iff.mp hend] at h
      simp at h
  | some l =>
      obtain ⟨code, tail, rfl, rfl, hno⟩ := throughScriptEnd?_spec hend
      obtain ⟨ht, hn, -⟩ := hv
      have hright := ht.stripRight
      have hmark : code ++ closing ++ tail = (code ++ ['%']) ++ '}' :: tail := by simp [closing]
      rw [hmark, stripRight_append_cons _ (by decide)] at hright
      refine ⟨code, tail, rfl, hno, fun hm => hn (by simp [hm]), ?_, by simp⟩
      simpa using hright

/-! ## Above a request -/

instance (s : Script) : Decidable s.IsOpen :=
  match s with
  | .inline _ => inferInstanceAs (Decidable False)
  | .file path => inferInstanceAs (Decidable (_ <+: path))

/-- Of scripts with an open path among them, the first one that is. -/
theorem exists_first_open {ss : List Script} (h : ∃ s ∈ ss, s.IsOpen) :
    ∃ ss₁ path ss₂, ss = ss₁ ++ Script.file path :: ss₂ ∧ ['{', '%'] <+: path ∧ ∀ s ∈ ss₁, ¬s.IsOpen := by
  obtain ⟨s, hs⟩ : ∃ s, ss.find? (fun s => decide s.IsOpen) = some s := by
    obtain ⟨s, hs, ho⟩ := h
    exact Option.isSome_iff_exists.mp (List.find?_isSome.mpr ⟨s, hs, by simpa using ho⟩)
  obtain ⟨ho, ss₁, ss₂, rfl, hno⟩ := List.find?_eq_some_iff_append.mp hs
  cases s with
  | inline code => exact absurd (of_decide_eq_true ho) id
  | file path => exact ⟨ss₁, path, ss₂, rfl, of_decide_eq_true ho, fun s hs => by simpa using hno s hs⟩

/-- The first value among metadata that closes inline code does so at its end, unless no path above it
    starts like inline code. -/
def Block.MetadataKept (b : Block) : Prop :=
  (∃ s ∈ b.preRequestScripts, s.IsOpen) →
    ∀ m, b.metadata.find? (fun m => occursIn closing m.value) = some m →
      throughScriptEnd? m.value = some m.value

/-- Metadata ask for nothing. -/
theorem exchangesIn_metadata {ms : List Metadata}
    (h : ∀ m ∈ ms, identifier? m.key = some m.key ∧ IsValue m.value) (rest : Text) :
    exchangesIn (endLines (ms.map Metadata.render) ++ rest) = exchangesIn rest := by
  have hread := outline_each .lineStart Metadata.render
    (fun m => .item (.metadata (Token.bare .identifier m.key) (valueToken m.value)))
    (fun m hm rest => outline_metadata (h m hm).1 (h m hm).2 rest) rest
  refine exchangesIn_of_asides (fun e he => ?_) hread
  obtain ⟨m, -, rfl⟩ := List.mem_map.mp he
  trivial

/-- Scripts above a request ask for nothing, unless a path is closed below them. -/
theorem exchangesIn_preRequests {ss : List Script} (h : ∀ s ∈ ss, s.Extracted) (hq : Unclosed ss)
    {rest : Text} (hr : ∀ s ∈ ss, s.IsOpen → occursIn closing rest = false) :
    exchangesIn (endLines (ss.map fun s => ['<', ' '] ++ s.render) ++ rest) = exchangesIn rest := by
  refine exchangesIn_of_asides (fun e he => ?_) (outline_preRequests h hq hr)
  obtain ⟨s, -, rfl⟩ := List.mem_map.mp he
  trivial

/-- A path that starts like inline code takes along what is between it and the value that closes it.
    If more of the value is left on the line, the text is refused. -/
theorem exchangesIn_closed {path : Text} (ho : ['{', '%'] <+: path)
    (hpath : occursIn closing (path.drop 2) = false) {ls : List Text} (hls : FreeLines ls)
    {m : Metadata} (hm : identifier? m.key = some m.key ∧ IsValue m.value)
    (hclosed : occursIn closing m.value = true) (rest : Text) :
    exchangesIn (['<', ' '] ++ (path ++ '\n' :: (endLines ls ++ (m.render ++ '\n' :: rest)))) =
      if throughScriptEnd? m.value = some m.value then exchangesIn rest else none := by
  obtain ⟨hk, hvalue⟩ := hm
  obtain ⟨code, tail, hv, hcode, hn, hright, hend⟩ := exists_closing hvalue hclosed
  have hrender : m.render = ['#', ' ', '@'] ++ (m.key ++ ' ' :: m.value) := by
    have hne : m.value.isEmpty = false := by simp [hv, closing]
    have hmeta := render_metadata hk hvalue
    rwa [hne] at hmeta
  -- from the path down to the mark in the value, all is read as one script
  have htext : ['<', ' '] ++ (path ++ '\n' :: (endLines ls ++ (m.render ++ '\n' :: rest))) =
      ['<', ' '] ++ (path ++ ('\n' :: (endLines ls ++ (['#', ' ', '@'] ++ (m.key ++ ' ' :: code)))) ++
        closing ++ (tail ++ '\n' :: rest)) := by
    rw [hrender, hv]
    simp
  have hfree : occursIn closing (path.drop 2 ++
      ('\n' :: (endLines ls ++ (['#', ' ', '@'] ++ (m.key ++ ' ' :: code))) ++ ['%'])) = false := by
    have hvalue : occursIn closing (['#', ' ', '@'] ++ (m.key ++ ' ' :: (code ++ ['%']))) = false :=
      occursIn_cons (by decide) (occursIn_cons (by decide) (occursIn_cons (by decide)
        (occursIn_append_cons (by decide) (free_identifier hk) hcode)))
    have hlines := occursIn_endLines (by decide) hls hvalue
    have hbelow := occursIn_append_cons (c := '\n') (by decide) hpath hlines
    simpa using hbelow
  have hread := outline_closed_preRequest ho hfree (tail ++ '\n' :: rest)
  rw [outline_lineEnd rfl rfl hn hright] at hread
  rw [htext]
  by_cases htail : tail = []
  · rw [if_pos htail] at hread
    rw [if_pos (hend.mpr htail)]
    exact exchangesIn_of_aside hread trivial
  · rw [if_neg htail] at hread
    rw [if_neg fun he => htail (hend.mp he)]
    unfold exchangesIn
    rw [hread]
    rfl

/-- The lines above a request ask for nothing, but they may be refused: exactly if a path among them
    is closed within a value. -/
theorem exchangesIn_items {b : Block} (h : b.Writable) (hq : Unclosed b.preRequestScripts) {rest : Text}
    (hr : ∀ s ∈ b.preRequestScripts, s.IsOpen → occursIn closing rest = false) :
    b.MetadataKept ∧ exchangesIn (endLines b.itemLines ++ rest) = exchangesIn rest ∨
      ¬b.MetadataKept ∧ exchangesIn (endLines b.itemLines ++ rest) = none := by
  have hmetadata := exchangesIn_metadata h.metadata rest
  unfold Block.itemLines
  rw [endLines_append, endLines_append, List.append_assoc, List.append_assoc,
    exchangesIn_comments h.comments]
  by_cases hopen : ∃ s ∈ b.preRequestScripts, s.IsOpen
  · cases hfind : b.metadata.find? (fun m => occursIn closing m.value) with
    | none =>
        refine .inl ⟨fun _ m hm => by rw [hfind] at hm; simp at hm, ?_⟩
        have hfree : ∀ m ∈ b.metadata, identifier? m.key = some m.key ∧ occursIn closing m.value = false :=
          fun m hm => ⟨(h.metadata m hm).1, by simpa using List.find?_eq_none.mp hfind m hm⟩
        rw [exchangesIn_preRequests h.preRequestScripts hq fun s hs ho =>
          occursIn_endLines (by decide) (free_metadataLines hfree) (hr s hs ho), hmetadata]
    | some m =>
        have hkept : b.MetadataKept ↔ throughScriptEnd? m.value = some m.value := by
          refine ⟨fun hk => hk hopen m hfind, fun hend _ m' hm' => ?_⟩
          rw [hfind] at hm'
          exact Option.some.inj hm' ▸ hend
        -- the first open path reaches down to the value that is found
        obtain ⟨hclosed, ms₁, ms₂, hms, hno⟩ := List.find?_eq_some_iff_append.mp hfind
        obtain ⟨ss₁, path, ss₂, hss, ho, hnot⟩ := exists_first_open hopen
        have hfile : (Script.file path).Extracted := h.preRequestScripts _ (by simp [hss])
        have hrender : (Script.file path).render = path := hfile.1.1
        rw [hss] at hq
        obtain ⟨hq₁, hq₂, -⟩ := List.pairwise_append.mp hq
        have hlines : FreeLines (ss₂.map (fun s => ['<', ' '] ++ s.render) ++ ms₁.map Metadata.render) := by
          refine FreeLines.append (fun l hl => ?_) (free_metadataLines fun m' hm' =>
            ⟨(h.metadata m' (by simp [hms, hm'])).1, by simpa using hno m' hm'⟩)
          obtain ⟨s, hs, rfl⟩ := List.mem_map.mp hl
          exact occursIn_cons (by decide)
            (occursIn_cons (by decide) ((List.pairwise_cons.mp hq₂).1 s hs ho))
        have hbelow : exchangesIn (endLines (ms₂.map Metadata.render) ++ rest) = exchangesIn rest :=
          exchangesIn_metadata (fun m' hm' => h.metadata m' (by simp [hms, hm'])) rest
        have hread := exchangesIn_closed ho (hfile.2.2 ho) hlines (h.metadata m (by simp [hms]))
          (by simpa using hclosed) (endLines (ms₂.map Metadata.render) ++ rest)
        have htext : endLines (b.preRequestScripts.map fun s => ['<', ' '] ++ s.render) ++
            (endLines (b.metadata.map Metadata.render) ++ rest) =
            endLines (ss₁.map fun s => ['<', ' '] ++ s.render) ++ (['<', ' '] ++ (path ++ '\n' ::
              (endLines (ss₂.map (fun s => ['<', ' '] ++ s.render) ++ ms₁.map Metadata.render) ++
                (m.render ++ '\n' :: (endLines (ms₂.map Metadata.render) ++ rest))))) := by
          rw [hss, hms]
          simp [endLines_append, hrender]
        rw [htext, exchangesIn_preRequests (fun s hs => h.preRequestScripts s (by simp [hss, hs])) hq₁
          fun s hs hs' => absurd hs' (hnot s hs), hread, hbelow, hkept]
        by_cases hend : throughScriptEnd? m.value = some m.value
        · exact .inl ⟨hend, if_pos hend⟩
        · exact .inr ⟨hend, if_neg hend⟩
  · refine .inl ⟨fun ho => absurd ho hopen, ?_⟩
    rw [exchangesIn_preRequests h.preRequestScripts hq fun s hs ho => absurd ⟨s, hs, ho⟩ hopen, hmetadata]

/-! ## Bodies -/

/-- Places where the same lexeme is found and leads to the same place read a text alike. -/
theorem reading_congr {place place' : Context} {t : Text} (hne : t ≠ [])
    (hlex : place.lexeme? t = place'.lexeme? t)
    (hnext : ∀ k l, place'.lexeme? t = some (k, l) → place.next k = place'.next k) :
    reading place t = reading place' t := by
  obtain ⟨c, rest, rfl⟩ := List.exists_cons_of_ne_nil hne
  cases hl : place'.lexeme? (c :: rest) with
  | none => rw [reading_stuck hl, reading_stuck (hlex.trans hl)]
  | some found =>
      obtain ⟨k, l⟩ := found
      have hboth := hlex.trans hl
      have hn := hnext k l hl
      obtain ⟨r, hr⟩ := (lexeme?_isPrefix (Context.lexeme?_spec hl).1).1
      rw [← hr] at hl hboth ⊢
      cases hp : place'.next k with
      | none => rw [reading_refused hboth (hn.trans hp), reading_refused hl hp]
      | some q => rw [reading_step hboth (hn.trans hp), reading_step hl hp]

/-- A text that ends a body is read where one may start as it is read below one. -/
theorem outline_endsBody {t : Text} (h : endsBody t = true) :
    outline .beforeBody t = outline .afterBody t := by
  unfold endsBody at h
  rw [Bool.or_eq_true, List.isPrefixOf_iff_prefix, List.isPrefixOf_iff_prefix] at h
  rcases h with ⟨r, rfl⟩ | ⟨r, rfl⟩
  · exact (outline_section (.inl rfl) r).trans (outline_section (.inr (.inl rfl)) r).symm
  · have hlex : Context.beforeBody.lexeme? ('>' :: r) = Context.afterBody.lexeme? ('>' :: r) := by
      rw [BelowRequest.lexeme? (.inl rfl), BelowRequest.lexeme? (.inr (.inl rfl))]
    have hread := reading_congr (by simp) hlex fun k l hk => by
      have hseeks := (Context.lexeme?_spec hk).2
      cases k with
      | redirect | handlerMark | separatorMark => rfl
      | _ => simp [Context.seeks, Context.accepts, Context.next, Context.afterRequest] at hseeks
    exact congrArg (Option.map fun ts => entries (shown ts)) hread

/-- In front of what stands below a body, the head of a request has none. -/
theorem exchangesOf_head (r : Request) {es : List Entry} (h : Stage.responses.Fits (group es)) :
    ∃ x xs, exchangesOf (r.head ++ es) = x :: xs ∧ x.body = none := by
  obtain ⟨hhere, hversion, hheaders, hbody⟩ := h
  let n : RequestNode :=
    { method := some (Token.bare .method r.method)
      target := Token.bare .target r.url
      tail :=
        { version := some (Token.bare .version r.version)
          headers := r.headers.map fun h => Token.bare .header (headerLine h.key h.value)
          responses := (group es).tail.responses } }
  have hgroup : group (r.head ++ es) = { here := { request := some n }, after := (group es).after } := by
    have hlines : r.headers.map (fun h => Entry.header (Token.bare .header (headerLine h.key h.value))) =
        (r.headers.map fun h => Token.bare .header (headerLine h.key h.value)).map .header := by simp
    have hfold : group (r.head ++ es) = r.head.foldr Grouped.push (group es) := List.foldr_append
    rw [hfold, Request.head, hlines, List.foldr_cons, List.foldr_cons, List.foldr_cons, foldr_headers]
    simp [Grouped.push, hhere, hheaders, hbody, n]
  refine ⟨n.exchange, (group es).after.filterMap fun x => x.2.request.map RequestNode.exchange, ?_, rfl⟩
  unfold exchangesOf
  rw [hgroup]
  rfl

/-- A body that ends where it starts is lost. -/
theorem exchangesIn_body_lost {r : Request} (h : r.Writable) {w : Text} (hw : r.body = some w)
    (he : endsBody w = true) {ls : List Text} {rest : Text} {xs : List Exchange}
    (hread : exchangesIn (endLines (r.lines ++ ls) ++ rest) = some xs) :
    ∃ x xs', xs = x :: xs' ∧ x.body = none := by
  have htext : endLines (r.lines ++ ls) ++ rest =
      endLines ((r.method ++ ' ' :: (r.url ++ ' ' :: r.version)) ::
        r.headers.map fun h => stripRight (h.key ++ ": " ++ h.value)) ++
        '\n' :: (w ++ '\n' :: (endLines ls ++ rest)) := by
    simp [Request.lines, hw, endLines_append]
  have hends : endsBody (w ++ '\n' :: (endLines ls ++ rest)) = true := by rw [endsBody_append_newline, he]
  unfold exchangesIn at hread
  rw [htext, outline_head h, outline_newline rfl, outline_endsBody hends] at hread
  cases hbelow : outline .afterBody (w ++ '\n' :: (endLines ls ++ rest)) with
  | none => rw [hbelow] at hread; simp at hread
  | some es =>
      rw [hbelow] at hread
      obtain ⟨x, xs', hx, hbody⟩ := exchangesOf_head r (fits_outline hbelow)
      exact ⟨x, xs', (Option.some.inj hread).symm.trans hx, hbody⟩

/-! ## Redirects -/

/-- What is read from the start of a section is made of sections. -/
theorem group_of_starts {rest : Text} (h : Starts rest) {es : List Entry}
    (hes : outline .lineStart rest = some es) : ∃ ss, group es = { after := ss } := by
  rcases h with rfl | ⟨s, rfl⟩
  · exact ⟨[], by rw [← Option.some.inj hes]; rfl⟩
  · rw [outline_newline rfl] at hes
    unfold outline at hes
    rw [reading_step (separatorMark_lineStart s) rfl, Option.map_map] at hes
    obtain ⟨us, -, rfl⟩ := Option.map_eq_some_iff.mp hes
    exact ⟨_, rfl⟩

/-- The scripts below a request, down to the first path that starts like inline code and is closed in
    the redirect: the redirect is lost, and if more of it is left on the line, the text is refused. -/
theorem outline_redirect_lost {ss₁ ss₂ : List Script} {path x : Text} (h₁ : ∀ s ∈ ss₁, s.Extracted)
    (hnot : ∀ s ∈ ss₁, ¬s.IsOpen) (ho : ['{', '%'] <+: path) (hfile : (Script.file path).Extracted)
    (hfree : ∀ s ∈ ss₂, occursIn closing s.render = false) (hx : IsValue x)
    (hclosed : occursIn closing x = true) {rest : Text} (hs : Starts rest) {place : Context}
    (hp : BelowRequest place) {es : List Entry}
    (hread : outline place ((endLines ((ss₁ ++ .file path :: ss₂).flatMap
      (fun s => [[], ['>', ' '] ++ s.render]) ++ [[], x]) ++ rest).drop 1) = some es) :
    ∃ (ts : List Token) (es' : List Entry), es = (ts.map Response.handler).map .response ++ es' ∧
      outline .lineStart rest = some es' := by
  have hq₁ : Unclosed ss₁ := List.pairwise_of_forall_mem_list fun s hs _ _ ho => absurd ho (hnot s hs)
  obtain ⟨code, tail, hv, hcode, hn, hright, -⟩ := exists_closing hx hclosed
  have hrender : (Script.file path).render = path := hfile.1.1
  -- from the open path down to the mark in the redirect, all is read as one script
  let between := '\n' :: (endLines (ss₂.flatMap fun s => [[], ['>', ' '] ++ s.render]) ++ '\n' :: code)
  let below := '\n' :: (['>', ' '] ++ (path ++ between ++ closing ++ (tail ++ '\n' :: rest)))
  have htext : endLines ((ss₁ ++ .file path :: ss₂).flatMap
      (fun s => [[], ['>', ' '] ++ s.render]) ++ [[], x]) ++ rest =
      endLines (ss₁.flatMap fun s => [[], ['>', ' '] ++ s.render]) ++ below := by
    simp [endLines_append, hrender, hv, below, between]
  have hbetween : occursIn closing (path.drop 2 ++ (between ++ ['%'])) = false := by
    have hlines : FreeLines (ss₂.flatMap fun s => [[], ['>', ' '] ++ s.render]) :=
      FreeLines.spaced fun s hs => occursIn_cons (by decide) (occursIn_cons (by decide) (hfree s hs))
    have hcode' := occursIn_endLines (by decide) hlines (occursIn_cons (c := '\n') (by decide) hcode)
    have hall := occursIn_append_cons (c := '\n') (by decide) (hfile.2.2 ho) hcode'
    simpa [between] using hall
  obtain ⟨place', hp', hhandlers⟩ := outline_handlers h₁ hq₁ (fun s hs ho => absurd ho (hnot s hs))
    (.inr ⟨_, rfl, rfl⟩ : Follows below) hp
  have hdrop : below.drop 1 = ['>', ' '] ++ (path ++ between ++ closing ++ (tail ++ '\n' :: rest)) := rfl
  rw [htext, hhandlers, hdrop, outline_closed_handler hp' ho hbetween, outline_lineEnd rfl rfl hn hright,
    (outline_below hs.follows).2, hs.outline (.inr (.inr rfl))] at hread
  by_cases htail : tail = []
  · rw [if_pos htail, Option.map_map] at hread
    obtain ⟨es', hes', rfl⟩ := Option.map_eq_some_iff.mp hread
    exact ⟨ss₁.map Script.token ++ [Token.bare .script (path ++ between ++ closing)], es',
      by simp [Function.comp_def], hes'⟩
  · rw [if_neg htail] at hread
    simp at hread

end HttpFile
