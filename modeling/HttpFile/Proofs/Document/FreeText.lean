import HttpFile.Proofs.Document.Sections
import HttpFile.Proofs.Source.Converted

/-!
# `HttpFile.Proofs.Document.FreeText` — free text stays in comments

Descriptions of interfaces are prose: headings, mentions, rules of slashes or number signs, and any break
or blank that Unicode knows. Each of their lines is written as a comment, and whatever the line is, a
comment is all that is read from it. The request line below is read as the line that was written, so no
line of the prose takes it along either.

## Contents
- **Comments.** `notBreak_of_mem_lines`, `isValue_marked`, `isComment_commentLines`.
- **Writing.** `Request.IsLine`, `Document.noted`, `settle_noted`, `text_noted`.
- **Reading.** `outline_noted`, `parse_noted`.
- **Free text.** `parse_commentLines`.
-/

namespace HttpFile

open Text Unicode Syntax

/-! ## Comments -/

/-- A line of free text holds no character that ends one. -/
theorem notBreak_of_mem_lines (t : Text) : ∀ l ∈ lines t, ∀ c ∈ l, isBreak c = false := by
  fun_induction lines t with
  | case1 => simp
  | case2 rest ih =>
      rw [List.forall_mem_cons]
      exact ⟨by simp, ih⟩
  | case3 d rest _ hd ih =>
      rw [List.forall_mem_cons]
      exact ⟨by simp, ih⟩
  | case4 d rest _ hd ih =>
      have hd : isBreak d = false := by simpa using hd
      -- the character starts the first of the lines that were found, or is the only line
      cases hrest : lines rest with
      | nil => simpa [consFirst] using hd
      | cons m ms =>
          rw [hrest, List.forall_mem_cons] at ih
          rw [consFirst, List.forall_mem_cons, List.forall_mem_cons]
          exact ⟨⟨hd, ih.1⟩, ih.2⟩

theorem singleLine_strip_of_mem_lines {t l : Text} (h : l ∈ lines t) : SingleLine (strip l) := by
  have hbreak := notBreak_of_mem_lines t l h
  constructor
  · intro hm
    exact absurd (hbreak _ (mem_of_mem_strip hm)) (by decide)
  · intro hm
    exact absurd (hbreak _ (mem_of_mem_strip hm)) (by decide)

/-- A line behind a mark of a comment is a value if it ends with something. -/
theorem isValue_marked {mark l : Text} (hm : SingleLine ('#' :: mark)) (hl : SingleLine l)
    (hends : EndsSolid l) : IsValue ('#' :: mark ++ l) := by
  obtain ⟨u, d, hu, hd⟩ := hends
  refine ⟨trimmed_iff.mpr ⟨fun x hx => ?_, fun x hx => ?_⟩, ?_, ?_⟩
  · rw [← Option.some.inj hx]
    decide
  · rw [hu, ← List.append_assoc, List.getLast?_concat] at hx
    exact Option.some.inj hx ▸ hd
  · rw [List.mem_append]
    exact not_or_intro hm.1 hl.1
  · rw [List.mem_append]
    exact not_or_intro hm.2 hl.2

/-- **Free text becomes comments that are read as such**, each on a line of its own. -/
theorem isComment_commentLines (t : Text) : ∀ c ∈ commentLines t, IsComment c ∧ ['#'] <+: c := by
  intro c hc
  obtain ⟨⟨rest, hrest⟩, hmeta⟩ := isRemark_commentLines t c hc
  have hvalue : IsValue c := by
    obtain ⟨s, hs, rfl⟩ := List.mem_map.mp hc
    obtain ⟨hs, hne⟩ := List.mem_filter.mp hs
    obtain ⟨l, hl, rfl⟩ := List.mem_map.mp hs
    have hline := singleLine_strip_of_mem_lines hl
    have hends : EndsSolid (strip l) := (trimmed_strip l).endsSolid (by simpa using hne)
    have hescape : SingleLine ('#' :: [' ', '-', ' ']) := by decide
    have hplain : SingleLine ('#' :: [' ']) := by decide
    unfold commentLine
    split
    · exact isValue_marked hescape hline hends
    · exact isValue_marked hplain hline hends
  refine ⟨⟨hvalue, .inl ⟨' ' :: rest, hrest⟩, ?_, hmeta⟩, ⟨' ' :: rest, hrest⟩⟩
  rw [← hrest]
  simp

/-! ## Writing -/

/-- A request line with nothing below it. Its target may be folded or not. -/
structure Request.IsLine (r : Request) : Prop where
  method : r.method ∈ methods.map String.toList
  target : target? r.url = some r.url
  version : version? r.version = some r.version
  headers : r.headers = []
  body : r.body = none
  bodyKind : r.bodyKind = none

/-- The request that is read where a request was written: its target is folded. -/
def Request.foldTarget (r : Request) : Request := { r with url := Url.fold r.url }

/-- The document of one block with comments, and a request below them if there is one. -/
def Document.noted (comments : List Text) (request : Option Request) : Document :=
  { blocks := [{ comments := comments, request := request }] }

variable {comments : List Text} {request : Option Request}

/-- Such a document is written as it is, whether bodies are formatted or not. -/
theorem settle_noted (hc : ∀ c ∈ comments, IsComment c ∧ ['#'] <+: c)
    (hr : ∀ r ∈ request, r.IsLine) (reformat : Bool) :
    (Document.noted comments request).settle reformat = .ok (.noted comments request) := by
  have hcomments : comments.map normalizeComment = comments := by
    conv => rhs; rw [← List.map_id comments]
    exact List.map_congr_left fun c hmem =>
      normalizeComment_eq_self (hc c hmem).1.1.1 (hc c hmem).2
  have hblock : Block.settle reformat { comments := comments, request := request } =
      .ok { comments := comments.map normalizeComment, request := request } := by
    cases request with
    | none => rfl
    | some r =>
        obtain ⟨method, url, version, headers, body, kind⟩ := r
        obtain ⟨-, -, -, rfl, rfl, rfl⟩ := hr _ rfl
        cases reformat <;> rfl
  unfold Document.settle Document.noted
  rw [List.mapM_cons, hblock, hcomments]
  rfl

/-- The lines of such a document below its separator. -/
def notedLines (comments : List Text) (request : Option Request) : List Text :=
  comments ++ request.toList.map fun r => r.method ++ ' ' :: (r.url ++ ' ' :: r.version)

theorem closed_notedLines (hc : ∀ c ∈ comments, IsComment c ∧ ['#'] <+: c)
    (hr : ∀ r ∈ request, r.IsLine) : ∀ l ∈ notedLines comments request, EndsSolid l ∧ '\r' ∉ l := by
  intro l hl
  rcases List.mem_append.mp hl with hl | hl
  · obtain ⟨⟨⟨ht, -, hno⟩, -⟩, ⟨rest, rfl⟩⟩ := hc l hl
    exact ⟨ht.endsSolid (by simp), hno⟩
  · obtain ⟨r, hmem, rfl⟩ := List.mem_map.mp hl
    have hline := hr r (Option.mem_toList.mp hmem)
    have hversion := solid_of_version hline.version
    have hends : EndsSolid r.version := by
      refine hversion.trimmed.endsSolid fun he => ?_
      have hv := hline.version
      rw [he] at hv
      exact absurd hv (by decide)
    have hmethod : ∀ m ∈ methods.map String.toList, '\r' ∉ m := by decide
    constructor
    · rw [← List.singleton_append, ← List.append_assoc, ← List.append_assoc]
      simpa using hends.append (r.method ++ ' ' :: (r.url ++ [' ']))
    · simp [hmethod _ hline.method, carriage_notMem_target hline.target, hversion.carriage]

/-- Its text is its lines. -/
theorem text_noted (hc : ∀ c ∈ comments, IsComment c ∧ ['#'] <+: c) (hne : comments ≠ [])
    (hr : ∀ r ∈ request, r.IsLine) :
    (Document.noted comments request).text =
      endLines ("###".toList :: [] :: notedLines comments request) := by
  have hlines : Block.lines { comments := comments, request := request } =
      "###".toList :: [] :: notedLines comments request := by
    cases request with
    | none => simp [Block.lines, Block.itemLines, Block.responseLines, notedLines, separatorLine]
    | some r =>
        have hline := hr r rfl
        simp [Block.lines, Block.itemLines, Block.responseLines, notedLines, separatorLine,
          Request.lines, hline.headers, hline.body]
  -- all lines are on one sheet, which starts and ends with something
  have hframed : ∀ g ∈ ["###".toList :: [] :: notedLines comments request], Framed g := by
    rw [List.forall_mem_singleton]
    refine ⟨⟨'#', ['#', '#'], _, rfl, by decide⟩, fun l hl => ?_⟩
    have hnoted : notedLines comments request ≠ [] := by simp [notedLines, hne]
    rw [List.getLast?_cons_of_ne_nil (by simp), List.getLast?_cons_of_ne_nil hnoted] at hl
    exact (closed_notedLines hc hr l (List.mem_of_getLast? hl)).1
  obtain ⟨t, ht, htext⟩ := sheets_trimmed (List.cons_ne_nil _ _) hframed
  have hsheets : (Document.noted comments request).sheets =
      ["###".toList :: [] :: notedLines comments request] := by
    simp [Document.noted, Document.sheets, hlines]
  rw [Document.text, hsheets, htext, strip_append_blank t (by decide), ht, ← htext]
  simp only [List.flatMap_cons, List.flatMap_nil, List.append_nil]
  exact joinLines_append_nil _

/-! ## Reading -/

/-- The text of such a document is read as what it was written from: a separator without a text, a
    comment for each of the comments, and the parts of the request line. -/
theorem outline_noted (hc : ∀ c ∈ comments, IsComment c ∧ ['#'] <+: c)
    (hr : ∀ r ∈ request, r.IsLine) :
    outline .lineStart (endLines ("###".toList :: [] :: notedLines comments request)) =
      some (Document.noted comments request).entries := by
  have hcomments := outline_each .lineStart id (fun c => .item (.comment (Token.bare .comment c)))
    fun c (hmem : c ∈ comments) rest => outline_comment (hc c hmem).1 (hc c hmem).2 rest
  rw [List.map_id] at hcomments
  have hrequest : outline .lineStart
      (endLines (request.toList.map fun r => r.method ++ ' ' :: (r.url ++ ' ' :: r.version))) =
        some (request.toList.flatMap Request.head) := by
    cases request with
    | none => rfl
    | some r =>
        obtain ⟨hmethod, htarget, hversion, hheaders, -⟩ := hr r rfl
        have hline := outline_requestLine hmethod htarget hversion []
        simpa [show outline .headers [] = some [] from rfl, Request.head, hheaders] using hline
  have hentries : (Document.noted comments request).entries = .separator none ::
      (comments.map (fun c => .item (.comment (Token.bare .comment c))) ++
        request.toList.flatMap Request.head) := by
    cases request with
    | none =>
        simp [Document.entries, Document.variables, Document.noted, sectionsOf, Block.separator,
          Block.section, Block.items, Section.entries]
    | some r =>
        obtain ⟨-, -, -, hheaders, hbody, -⟩ := hr r rfl
        simp [Document.entries, Document.variables, Document.noted, sectionsOf, Block.separator,
          Block.section, Block.items, Block.responses, Section.entries, node_entries, hbody]
  have hplain : ∀ x ∈ (none : Option Text), IsValue x ∧ x ≠ [] := by simp
  have hseparator := outline_separator hplain ('\n' :: endLines (notedLines comments request))
  rw [outline_newline rfl, notedLines, endLines_append, hcomments, hrequest] at hseparator
  rw [hentries]
  simpa [separatorLine, notedLines, endLines_append] using hseparator

/-- The entries stand for the document, its target folded. -/
theorem ofEntries_noted (defaults : Defaults) (hc : ∀ c ∈ comments, IsComment c ∧ ['#'] <+: c)
    (hne : comments ≠ []) (hr : ∀ r ∈ request, r.IsLine) :
    Document.ofEntries defaults (Document.noted comments request).entries =
      .noted comments (request.map Request.foldTarget) := by
  have hcontent : comments.map (fun c => (Token.bare .comment c).content) = comments := by
    conv => rhs; rw [← List.map_id comments]
    exact List.map_congr_left fun c hmem => content_bare (hc c hmem).1.1.1
  have hsection : ∀ ending, Block.ofSection defaults none
      (Block.section { comments := comments, request := request } ending) =
      { comments := comments, request := request.map Request.foldTarget } := by
    intro ending
    cases request with
    | none =>
        simp [Block.ofSection, Block.section, Block.items, List.filterMap_map, hcontent]
    | some r =>
        obtain ⟨method, url, version, headers, body, kind⟩ := r
        obtain ⟨-, -, -, rfl, rfl, rfl⟩ := hr _ rfl
        simp [Block.ofSection, Block.section, Block.items, Block.responses, List.filterMap_map,
          hcontent, Request.ofNode, Request.node, RequestNode.handlers,
          RequestNode.redirect?, Request.foldTarget]
  -- above the separator stands nothing, so it declares nothing and gives no block
  have hhead : (Block.ofSection defaults none {}).isEmpty = true := rfl
  have hnone : Section.declarations {} = [] := rfl
  have hkeep : ∀ r : Option Request,
      Block.isEmpty { comments := comments, request := r } = false := by simp [Block.isEmpty, hne]
  unfold Document.ofEntries Document.ofSections Grouped.sections
  rw [group_entries]
  simp [Document.noted, Document.variables, sectionsOf, Block.separator, hsection, declarations_section,
    hnone, hhead, hkeep]

/-- **Comments and a request line are read back**, the target folded. -/
theorem parse_noted (hc : ∀ c ∈ comments, IsComment c ∧ ['#'] <+: c) (hne : comments ≠ [])
    (hr : ∀ r ∈ request, r.IsLine) (defaults : Defaults) (source : Text) :
    Document.parse defaults source (Document.noted comments request).text =
      .ok (.noted comments (request.map Request.foldTarget)) := by
  have hcarriage : '\r' ∉ endLines ("###".toList :: [] :: notedLines comments request) := by
    intro hm
    obtain ⟨l, hl, hm⟩ := List.mem_flatMap.mp hm
    have hl : '\r' ∉ l := by
      rcases List.mem_cons.mp hl with rfl | hl
      · decide
      rcases List.mem_cons.mp hl with rfl | hl
      · simp
      · exact (closed_notedLines hc hr l hl).2
    simp [hl] at hm
  have hends : ['\n'] <:+ endLines ("###".toList :: [] :: notedLines comments request) := by
    obtain ⟨ls, l, hlast⟩ := List.eq_nil_or_concat
      ("###".toList :: [] :: notedLines comments request) |>.resolve_left (by simp)
    rw [hlast, List.concat_eq_append, endLines_append]
    exact ⟨endLines ls ++ l, by simp⟩
  have houtline := outline_noted hc hr
  rw [← normalize_eq_self hcarriage hends] at houtline
  rw [text_noted hc hne hr, parse_of_outline defaults source houtline, ofEntries_noted defaults hc hne hr]

/-! ## Free text -/

/-- **Free text cannot escape from comments.** Whatever a text holds, the document of its comments, alone
    or with a request line below them, is written, and what is read from it is one block with exactly
    these comments and that request: no separator text, no metadata, no script and no other request comes
    from the text. -/
theorem parse_commentLines {t : Text} (ht : commentLines t ≠ []) {request : Option Request}
    (hr : ∀ r ∈ request, r.IsLine) (reformat : Bool) (defaults : Defaults) (source : Text) :
    ∃ text : Text, (Document.noted (commentLines t) request).render reformat = .ok (letters text) ∧
      Document.parse defaults source text =
        .ok (.noted (commentLines t) (request.map Request.foldTarget)) := by
  have hc := isComment_commentLines t
  exact ⟨(Document.noted (commentLines t) request).text, render_eq_ok.mpr ⟨_, settle_noted hc hr reformat, rfl⟩,
    parse_noted hc ht hr defaults source⟩

/-- Prose that looks like sections, metadata, scripts, requests and redirects, with breaks and blanks of
    all kinds. -/
theorem parse_commentLines_example :
    let t : Text := "### Setup\r\n@name x\u2028\u00a0@ y\r\t// @no-log\x0c> \x7b% a %\x7d\n\n>> f\u0085GET b"
    let r : Request := { method := "GET", url := "https://h/?a=1&b=2" }
    commentLines t = ["# ### Setup", "# - @name x", "# @ y", "# // @no-log", "# > \x7b% a %\x7d",
        "# >> f", "# GET b"] ∧
      ∃ text : Text, (Document.noted (commentLines t) (some r)).render true = .ok (letters text) ∧
        Document.parse {} [] text = .ok (.noted (commentLines t)
          (some { r with url := "https://h/\n  ?a=1\n  &b=2" })) := by
  intro t r
  have hlines : commentLines t = ["# ### Setup", "# - @name x", "# @ y", "# // @no-log",
      "# > \x7b% a %\x7d", "# >> f", "# GET b"] := by decide +kernel
  have hline : ∀ r' ∈ some r, r'.IsLine := by
    intro r' hr'
    obtain rfl := Option.some.inj hr'
    exact ⟨by decide, by decide +kernel, by decide, rfl, rfl, rfl⟩
  have hfold : r.foldTarget = { r with url := "https://h/\n  ?a=1\n  &b=2" } := by decide +kernel
  refine ⟨hlines, ?_⟩
  rw [← hfold]
  exact parse_commentLines (by rw [hlines]; simp) hline true {} []

end HttpFile
