import HttpFile.Canonical
import HttpFile.Proofs.Document.RequestLines
import HttpFile.Proofs.Text.Wide
import Mathlib.Tactic.MkIffOfInductiveProp

/-!
# `HttpFile.Proofs.Document.Written` — the text of a document

Writing a document is two things: its parts are settled, that is, brought into the form in which they
are written, and then they are put on lines. Only the first can fail, and only the second decides
what is read back. A body with halves of characters does not settle: then what is written is no text.
The blocks are set apart by empty lines, and the text is trimmed; but of the empty lines only the last
is in reach, since every block ends with something.

## Contents
- **Settling.** `Request.settle`, `Block.settle`, `Document.settle`.
- **Lines.** `Block.lines`, `Document.sheets`, `Document.text`; `render_eq_ok` puts the two together.
- **Writable parts.** `Request.Writable`, `Block.Writable`, `Document.Writable`.
- **Ends.** `Closed`, `closed_lines`: a block ends with something.
- **The text.** `sheetText`, `text_eq`, `outline_text`.
- **Newlines.** `normalize_text`: the text needs no normalizing.
-/

namespace HttpFile

open Text Unicode Syntax

/-! ## Settling -/

/-- A request as it is written, given the text of its body. -/
def Request.written (r : Request) (w : Text) : Request :=
  { r with
    headers := r.headers.map fun h => { h with key := headerKey h.key r.version }
    body := if w.isEmpty then none else some w
    bodyKind := if w.isEmpty then none else BodyKind.ofTerminal? (announced w) }

/-- The body of a request as it is written, if it is a text. -/
def Request.settledBody (reformat : Bool) (r : Request) : Except CanonicalError Text :=
  match r.bodyText reformat with
  | .error e => .error (.format e)
  | .ok w =>
    match Word.text? w with
    | some t => .ok t
    | none => .error (.halves w)

/-- A request as it is written. -/
def Request.settle (reformat : Bool) (r : Request) : Except CanonicalError Request :=
  (r.settledBody reformat).map r.written

/-- A block as it is written, given its request. -/
def Block.written (b : Block) (request : Option Request) : Block :=
  { b with
    separatorText := b.separatorText.filter (· ≠ [])
    comments := b.comments.map normalizeComment
    request := request
    responseRedirect := (b.responseRedirect.filter (· ≠ [])).map strip }

/-- A block as it is written. -/
def Block.settle (reformat : Bool) (b : Block) : Except CanonicalError Block :=
  match b.request with
  | some r => (r.settle reformat).map fun r' => b.written (some r')
  | none => .ok (b.written none)

/-- A document as it is written. -/
def Document.settle (reformat : Bool) (d : Document) : Except CanonicalError Document :=
  (d.blocks.mapM (Block.settle reformat)).map fun bs => { d with blocks := bs }

/-! ## Lines -/

/-- The lines of a settled request. -/
def Request.lines (r : Request) : List Text :=
  (r.method ++ ' ' :: (r.url ++ ' ' :: r.version)) ::
    r.headers.map (fun h => stripRight (h.key ++ ": " ++ h.value)) ++
    r.body.toList.flatMap fun w => [[], w]

/-- The lines of a settled block above its request. -/
def Block.itemLines (b : Block) : List Text :=
  b.comments ++ (b.preRequestScripts.map (fun s => ['<', ' '] ++ s.render) ++
    b.metadata.map Metadata.render)

/-- The lines of a settled block below its request. -/
def Block.responseLines (b : Block) : List Text :=
  b.postRequestScripts.flatMap (fun s => [[], ['>', ' '] ++ s.render]) ++
    b.responseRedirect.toList.flatMap fun x => [[], x]

/-- The lines of a settled block. -/
def Block.lines (b : Block) : List Text :=
  separatorLine b.separatorText :: [] ::
    (b.itemLines ++ (b.request.toList.flatMap Request.lines ++ b.responseLines))

/-- The lines of a settled document, those that belong together in one list. -/
def Document.sheets (d : Document) : List (List Text) :=
  (if d.declarations.isEmpty then [] else [d.declarations.map Variable.render]) ++
    d.blocks.map Block.lines

/-- The text of a settled document. -/
def Document.text (d : Document) : Text :=
  strip (joinLines (d.sheets.flatMap (· ++ [[]]))) ++ ['\n']

/-- What is written in lines is the text of settled lines, or there was nothing to settle on and a half is in one of
    them, if there are any. -/
def Settles {α : Type} (settled : Except CanonicalError α) (lines : α → List Text)
    (written : Except FormatError (List Wide)) : Prop :=
  (∃ a, settled = .ok a ∧ written = .ok ((lines a).map letters)) ∨
    ((∃ e, settled = .error e) ∧ ∀ ls, written = .ok ls → ∃ l ∈ ls, ∃ x, Sum.inr x ∈ l)

theorem settledBody_eq_ok {r : Request} {reformat : Bool} {t : Text} :
    r.settledBody reformat = .ok t ↔ r.bodyText reformat = .ok (letters t) := by
  unfold Request.settledBody
  cases r.bodyText reformat with
  | error e => simp
  | ok w =>
      rw [Except.ok.injEq]
      exact elim_text?_eq_ok

theorem Request.settles (r : Request) (reformat : Bool) :
    Settles (r.settle reformat) Request.lines (r.render reformat) := by
  unfold Request.settle Request.render Request.settledBody
  cases r.bodyText reformat with
  | error e => exact Or.inr ⟨⟨_, rfl⟩, fun ls h => by cases h⟩
  | ok w =>
      dsimp only
      cases hw : Word.text? w with
      | none =>
          obtain ⟨x, hx⟩ := text?_eq_none.mp hw
          have hne : w.isEmpty = false := by
            cases w with
            | nil => cases hx
            | cons => rfl
          refine Or.inr ⟨⟨_, rfl⟩, fun ls h => ?_⟩
          simp only [bind, Except.bind, hne, Bool.false_eq_true, if_false] at h
          obtain rfl := Except.ok.inj h
          exact ⟨w, by simp, x, hx⟩
      | some t =>
          obtain rfl := text?_eq_some.mp hw
          refine Or.inl ⟨r.written t, rfl, ?_⟩
          cases t <;> simp [bind, Except.bind, pure, Except.pure, Request.lines, Request.written, Header.render,
            Function.comp_def]

theorem Block.settles (b : Block) (reformat : Bool) :
    Settles (b.settle reformat) Block.lines (b.render reformat) := by
  obtain ⟨separator, comments, metadata, request, pre, post, redirect⟩ := b
  unfold Block.render Block.settle
  cases request with
  | none =>
      refine Or.inl ⟨_, rfl, ?_⟩
      rcases separator with _ | (_ | ⟨c, x⟩) <;> rcases redirect with _ | (_ | ⟨d, y⟩) <;>
        simp [bind, Except.bind, pure, Except.pure, Block.lines, Block.written, Block.itemLines, Block.responseLines,
          separatorLine, Option.filter]
  | some r =>
      rcases r.settles reformat with ⟨r', hsettled, hwritten⟩ | ⟨⟨e, hsettled⟩, hhalf⟩
      · dsimp only
        rw [hsettled, hwritten]
        refine Or.inl ⟨_, rfl, ?_⟩
        rcases separator with _ | (_ | ⟨c, x⟩) <;> rcases redirect with _ | (_ | ⟨d, y⟩) <;>
          simp [bind, Except.bind, pure, Except.pure, Block.lines, Block.written, Block.itemLines, Block.responseLines,
            separatorLine, Option.filter]
      · dsimp only
        rw [hsettled]
        refine Or.inr ⟨⟨e, rfl⟩, fun ls h => ?_⟩
        cases hwritten : r.render reformat with
        | error e => rw [hwritten] at h; cases h
        | ok ws =>
            obtain ⟨l, hl, hx⟩ := hhalf ws hwritten
            rw [hwritten] at h
            simp only [bind, Except.bind] at h
            obtain rfl := Except.ok.inj h
            exact ⟨l, List.mem_append_left _ (List.mem_append_right _ hl), hx⟩

theorem settles_renderBlocks (reformat : Bool) (bs : List Block) :
    Settles (bs.mapM (Block.settle reformat)) (fun es => (es.map Block.lines).flatMap (· ++ [[]]))
      (renderBlocks reformat bs) := by
  induction bs with
  | nil => exact Or.inl ⟨[], rfl, rfl⟩
  | cons b bs ih =>
      rw [renderBlocks, List.mapM_cons]
      rcases b.settles reformat with ⟨b', hb, hwritten⟩ | ⟨⟨e, hb⟩, hhalf⟩
      · rw [hb, hwritten]
        rcases ih with ⟨es, hes, hmore⟩ | ⟨⟨e, hes⟩, hhalf⟩
        · rw [hes, hmore]
          refine Or.inl ⟨b' :: es, rfl, ?_⟩
          simp [bind, Except.bind, pure, Except.pure]
        · rw [hes]
          refine Or.inr ⟨⟨e, rfl⟩, fun ls h => ?_⟩
          cases hmore : renderBlocks reformat bs with
          | error e => rw [hmore] at h; cases h
          | ok more =>
              obtain ⟨l, hl, hx⟩ := hhalf more hmore
              rw [hmore] at h
              obtain rfl := Except.ok.inj h
              exact ⟨l, List.mem_append_right _ (List.mem_cons_of_mem _ hl), hx⟩
      · rw [hb]
        refine Or.inr ⟨⟨e, rfl⟩, fun ls h => ?_⟩
        cases hwritten : b.render reformat with
        | error e => rw [hwritten] at h; cases h
        | ok here =>
            obtain ⟨l, hl, hx⟩ := hhalf here hwritten
            rw [hwritten] at h
            cases hmore : renderBlocks reformat bs with
            | error e => rw [hmore] at h; cases h
            | ok more =>
                rw [hmore] at h
                obtain rfl := Except.ok.inj h
                exact ⟨l, List.mem_append_left _ hl, hx⟩

theorem stripWide_letters (t : Text) : stripWide (letters t) = letters (strip t) := by
  refine eq_of_readings fun φ => ?_
  rw [stripWide, reading_trimWhere, reading_letters, reading_letters]

/-- **Writing a document is settling its parts and putting them on lines**, as far as what is written is a text. -/
theorem render_eq_ok {d : Document} {reformat : Bool} {t : Text} :
    d.render reformat = .ok (letters t) ↔ ∃ e, d.settle reformat = .ok e ∧ e.text = t := by
  unfold Document.render Document.settle
  rcases settles_renderBlocks reformat d.blocks with ⟨bs, hbs, hwritten⟩ | ⟨⟨e, hbs⟩, hhalf⟩
  · rw [hbs, hwritten]
    have htext : (Except.ok (stripWide ((letters ['\n']).intercalate
          ((if (d.declarations.map Variable.render).isEmpty then [] else d.declarations.map Variable.render ++ [[]]).map
            letters ++ ((bs.map Block.lines).flatMap (· ++ [[]])).map letters)) ++ letters ['\n']) :
          Except FormatError Wide) = .ok (letters (Document.text { d with blocks := bs })) := by
      rw [← List.map_append, intercalate_letters, stripWide_letters, ← letters_append]
      unfold Document.text Document.sheets joinLines
      rw [List.isEmpty_map]
      cases d.declarations.isEmpty <;> simp
    show Except.ok _ = _ ↔ _
    rw [htext]
    simp only [Except.ok.injEq, letters_injective.eq_iff, Except.map, exists_eq_left']
  · rw [hbs]
    refine ⟨fun h => ?_, fun ⟨e', he', _⟩ => by cases he'⟩
    cases hwritten : renderBlocks reformat d.blocks with
    | error e => rw [hwritten] at h; cases h
    | ok ls =>
        obtain ⟨l, hl, x, hx⟩ := hhalf ls hwritten
        rw [hwritten] at h
        have hin : Sum.inr x ∈ (letters t : Wide) := by
          rw [← Except.ok.inj h]
          refine List.mem_append_left _ (mem_trimWhere ?_ rfl)
          exact mem_intercalate_of_mem (List.mem_append_right _ hl) hx
        exact absurd hin (inr_notMem_letters x t)

/-! ## Writable parts -/

/-- A request whose line and headers are read back as they are. -/
@[mk_iff] structure Request.Sound (r : Request) : Prop where
  method : r.method ∈ methods.map String.toList
  target : target? r.url = some r.url
  folded : Url.fold r.url = r.url
  version : version? r.version = some r.version
  headers : ∀ h ∈ r.headers, h.Extracted

/-- A settled request whose parts are read back as they are, its body aside. -/
structure Request.Writable (r : Request) : Prop extends r.Sound where
  body : ∀ w ∈ r.body, Trimmed w ∧ w ≠ []
  bodyKind : r.bodyKind = r.body.bind fun w => BodyKind.ofTerminal? (announced w)

/-- A settled block whose parts are read back as they are, unless a comment opens a section, a body
    ends where it starts, or a path that starts like inline code is closed like it. -/
structure Block.Writable (b : Block) : Prop where
  separatorText : ∀ x ∈ b.separatorText, IsValue x ∧ x ≠ []
  comments : ∀ c ∈ b.comments, IsValue c ∧ ['#'] <+: c ∧ metadataMark? c = none
  metadata : ∀ m ∈ b.metadata, identifier? m.key = some m.key ∧ IsValue m.value
  preRequestScripts : ∀ s ∈ b.preRequestScripts, s.Extracted
  request : ∀ r ∈ b.request, r.Writable
  postRequestScripts : ∀ s ∈ b.postRequestScripts, s.Extracted
  responseRedirect : ∀ x ∈ b.responseRedirect, IsValue x ∧ ['>', '>'] <+: x
  responses : b.request = none → b.postRequestScripts = [] ∧ b.responseRedirect = none

/-- A settled document of such blocks. -/
structure Document.Writable (d : Document) : Prop where
  declarations : ∀ v ∈ d.declarations, identifier? v.key = some v.key ∧ IsValue v.value
  blocks : ∀ b ∈ d.blocks, b.isEmpty = false ∧ b.Writable

/-! ## Ends -/

/-- A line that ends with something. -/
def EndsSolid (l : Text) : Prop := ∃ u c, l = u ++ [c] ∧ isBlank c = false

theorem EndsSolid.append {l : Text} (h : EndsSolid l) (t : Text) : EndsSolid (t ++ l) := by
  obtain ⟨u, c, rfl, hc⟩ := h
  exact ⟨t ++ u, c, by simp, hc⟩

theorem EndsSolid.of_last {l : Text} (hne : l ≠ [])
    (h : ∀ c, l.getLast? = some c → isBlank c = false) : EndsSolid l := by
  refine ⟨l.dropLast, l.getLast hne, (List.dropLast_concat_getLast hne).symm, ?_⟩
  exact h _ (List.getLast?_eq_some_getLast hne)

theorem Text.Trimmed.endsSolid {l : Text} (h : Trimmed l) (hne : l ≠ []) : EndsSolid l :=
  .of_last hne fun _ hc => h.last hc

/-- A line with something on it, trimmed at its right end. -/
theorem endsSolid_stripRight {l : Text} {c : Char} (hm : c ∈ l) (hc : isBlank c = false) :
    EndsSolid (stripRight l) := by
  obtain ⟨-, -, -, hlast⟩ := stripRight_spec l
  refine .of_last (fun he => ?_) hlast
  rw [stripRight_eq_nil_iff.mp he c hm] at hc
  simp at hc

/-- Lines of which the last ends with something. -/
def Closed (ls : List Text) : Prop := ∀ l, ls.getLast? = some l → EndsSolid l

theorem closed_of_forall {ls : List Text} (h : ∀ l ∈ ls, EndsSolid l) : Closed ls :=
  fun l hl => h l (List.mem_of_getLast? hl)

theorem Closed.append {ls ms : List Text} (hl : Closed ls) (hm : Closed ms) : Closed (ls ++ ms) := by
  intro l h
  rw [List.getLast?_append] at h
  cases hms : ms.getLast? with
  | none =>
      rw [hms] at h
      exact hl l h
  | some m =>
      rw [hms] at h
      obtain rfl : m = l := by simpa using h
      exact hm m hms

/-- Lines that each follow an empty one. -/
theorem closed_spaced {α : Type} {f : α → Text} {xs : List α} (h : ∀ x ∈ xs, EndsSolid (f x)) :
    Closed (xs.flatMap fun x => [[], f x]) := by
  induction xs with
  | nil => intro l hl; simp at hl
  | cons x xs ih =>
      have hx : Closed [[], f x] := by
        intro l hl
        obtain rfl : f x = l := by simpa using hl
        exact h x (by simp)
      exact hx.append (ih fun y hy => h y (by simp [hy]))

theorem solid_of_version {v : Text} (h : version? v = some v) : Solid v := by
  have hhttp : Solid "HTTP/".toList := by unfold Solid; decide
  have hdigit : ∀ {c}, isDigit c = true → isBlank c = false := fun hc =>
    isBlank_of_isGraphic (isGraphic_of_isDigit hc)
  obtain ⟨major, hmaj, ⟨minor, -, hmin, -, rfl⟩ | ⟨-, -, rfl⟩⟩ := version?_spec h
  · refine hhttp.append fun c hc => ?_
    rcases List.mem_cons.mp hc with rfl | hc
    · exact hdigit hmaj
    · rcases List.mem_cons.mp hc with rfl | hc
      · decide
      · rw [List.mem_singleton.mp hc]
        exact hdigit hmin
  · refine hhttp.append fun c hc => ?_
    rw [List.mem_singleton.mp hc]
    exact hdigit hmaj

theorem Script.endsSolid {s : Script} (h : s.Extracted) : EndsSolid s.render := by
  cases s with
  | inline code =>
      rw [render_inline h.1]
      exact ⟨'{' :: '%' :: ('\n' :: (indent scriptPad code ++ ['\n']) ++ ['%']), '}',
        by simp [closing], by decide⟩
  | file path =>
      have hrender : (Script.file path).render = path := h.1.1
      rw [hrender]
      exact h.1.1.endsSolid h.2.1

theorem closed_request {r : Request} (h : r.Writable) : Closed r.lines := by
  have hversion : EndsSolid r.version := by
    refine (solid_of_version h.version).trimmed.endsSolid fun he => ?_
    have hv := h.version
    rw [he] at hv
    exact absurd hv (by decide)
  unfold Request.lines
  refine (closed_of_forall fun l hl => ?_).append
    (closed_spaced fun w hw => (h.body w (Option.mem_toList.mp hw)).1.endsSolid
      (h.body w (Option.mem_toList.mp hw)).2)
  rcases List.mem_cons.mp hl with rfl | hl
  · have hline : r.method ++ ' ' :: (r.url ++ ' ' :: r.version) =
        (r.method ++ ' ' :: (r.url ++ [' '])) ++ r.version := by simp
    rw [hline]
    exact hversion.append _
  · obtain ⟨x, -, rfl⟩ := List.mem_map.mp hl
    exact endsSolid_stripRight (c := ':') (by simp) (by decide)

theorem closed_items {b : Block} (h : b.Writable) : Closed b.itemLines := by
  unfold Block.itemLines
  refine (closed_of_forall fun c hc => ?_).append
    ((closed_of_forall fun l hl => ?_).append (closed_of_forall fun l hl => ?_))
  · obtain ⟨hv, ⟨r, rfl⟩, -⟩ := h.comments c hc
    exact hv.1.endsSolid (by simp)
  · obtain ⟨s, hs, rfl⟩ := List.mem_map.mp hl
    exact (Script.endsSolid (h.preRequestScripts s hs)).append _
  · obtain ⟨m, -, rfl⟩ := List.mem_map.mp hl
    exact endsSolid_stripRight (c := '@') (by simp) (by decide)

theorem closed_responses {b : Block} (h : b.Writable) : Closed b.responseLines := by
  unfold Block.responseLines
  refine (closed_spaced fun s hs => ?_).append (closed_spaced fun x hx => ?_)
  · exact (Script.endsSolid (h.postRequestScripts s hs)).append _
  · obtain ⟨hv, ⟨r, rfl⟩⟩ := h.responseRedirect x (Option.mem_toList.mp hx)
    exact hv.1.endsSolid (by simp)

/-- A block that is not empty has a line below its separator. -/
theorem lines_of_nonempty {b : Block} (h : b.isEmpty = false) :
    b.itemLines ++ (b.request.toList.flatMap Request.lines ++ b.responseLines) ≠ [] := by
  intro hnil
  obtain ⟨hitems, hrest⟩ := List.append_eq_nil_iff.mp hnil
  obtain ⟨hreq, -⟩ := List.append_eq_nil_iff.mp hrest
  obtain ⟨hcomments, hmore⟩ := List.append_eq_nil_iff.mp hitems
  have hmeta : b.metadata = [] := List.map_eq_nil_iff.mp (List.append_eq_nil_iff.mp hmore).2
  have hrequest : b.request = none := by
    cases hr : b.request with
    | none => rfl
    | some r =>
        rw [hr] at hreq
        simp [Request.lines] at hreq
  simp [Block.isEmpty, hrequest, hmeta, hcomments] at h

/-- **A block ends with something.** -/
theorem closed_lines {b : Block} (hne : b.isEmpty = false) (h : b.Writable) : Closed b.lines := by
  have hrequest : Closed (b.request.toList.flatMap Request.lines) := by
    cases hr : b.request with
    | none => intro l hl; simp at hl
    | some r => simpa using closed_request (h.request r hr)
  have hrest := (closed_items h).append (hrequest.append (closed_responses h))
  intro l hl
  unfold Block.lines at hl
  rw [List.getLast?_cons_of_ne_nil (by simp),
    List.getLast?_cons_of_ne_nil (lines_of_nonempty hne)] at hl
  exact hrest l hl

/-! ## The text -/

/-- Lines that belong together start and end with something. -/
def Framed (g : List Text) : Prop :=
  (∃ c l ls, g = (c :: l) :: ls ∧ isBlank c = false) ∧ Closed g

theorem framed_sheets {d : Document} (h : d.Writable) : ∀ g ∈ d.sheets, Framed g := by
  intro g hg
  rcases List.mem_append.mp hg with hg | hg
  · cases hd : d.declarations with
    | nil => simp [hd] at hg
    | cons v vs =>
        obtain rfl : g = (v :: vs).map Variable.render := by simpa [hd] using hg
        have hat : isBlank '@' = false := by decide
        have hrender : ∀ v : Variable, v.render = stripRight ('@' :: (v.key ++ " = " ++ v.value)) :=
          fun v => by simp [Variable.render]
        refine ⟨?_, closed_of_forall fun l hl => ?_⟩
        · rw [List.map_cons, hrender, stripRight_cons _ hat]
          exact ⟨'@', _, _, rfl, hat⟩
        · obtain ⟨x, -, rfl⟩ := List.mem_map.mp hl
          rw [hrender]
          exact endsSolid_stripRight (c := '@') (by simp) hat
  · obtain ⟨b, hb, rfl⟩ := List.mem_map.mp hg
    obtain ⟨hne, hw⟩ := h.blocks b hb
    refine ⟨?_, closed_lines hne hw⟩
    unfold Block.lines
    cases b.separatorText <;> exact ⟨'#', _, _, rfl, by decide⟩

/-- Sheets one below the other, each behind an empty line. -/
def sheetText (gs : List (List Text)) : Text := gs.flatMap fun g => '\n' :: endLines g

theorem joinLines_append (ls : List Text) {ms : List Text} (hm : ms ≠ []) :
    joinLines (ls ++ ms) = endLines ls ++ joinLines ms := by
  induction ls with
  | nil => rfl
  | cons l ls ih =>
      have hne : ls ++ ms ≠ [] := by simp [hm]
      rw [endLines_cons, List.append_assoc, List.cons_append, List.cons_append, ← ih]
      cases hls : ls ++ ms with
      | nil => exact absurd hls hne
      | cons m more =>
          unfold joinLines
          rw [List.intercalate_cons_cons, List.append_assoc]
          rfl

theorem sheetText_eq {gs : List (List Text)} (hne : gs ≠ []) :
    sheetText gs = '\n' :: joinLines (gs.flatMap (· ++ [[]])) := by
  induction gs with
  | nil => exact absurd rfl hne
  | cons g gs ih =>
      cases gs with
      | nil => simp [sheetText, joinLines_append_nil]
      | cons g' gs =>
          have hmore : (g' :: gs).flatMap (· ++ [[]]) ≠ [] := by simp
          have hcons : sheetText (g :: g' :: gs) = '\n' :: endLines g ++ sheetText (g' :: gs) := rfl
          have hflat : (g :: g' :: gs).flatMap (· ++ [[]]) = g ++ [[]] ++ (g' :: gs).flatMap (· ++ [[]]) := rfl
          rw [hcons, ih (by simp), hflat, joinLines_append _ hmore, endLines_append]
          simp

/-- What is written on sheets is trimmed but for one newline. -/
theorem sheets_trimmed {gs : List (List Text)} (hne : gs ≠ []) (h : ∀ g ∈ gs, Framed g) :
    ∃ t, Trimmed t ∧ joinLines (gs.flatMap (· ++ [[]])) = t ++ ['\n'] := by
  -- the first sheet starts with something, and the last one ends with something
  obtain ⟨c, l, hfirst, hc⟩ : ∃ c l, joinLines (gs.flatMap (· ++ [[]])) = c :: l ∧ isBlank c = false := by
    cases gs with
    | nil => exact absurd rfl hne
    | cons g gs =>
        obtain ⟨⟨c, l, ls, rfl, hc⟩, -⟩ := h g (by simp)
        rw [List.flatMap_cons, List.cons_append, List.cons_append, joinLines_cons, List.cons_append]
        exact ⟨c, _, rfl, hc⟩
  obtain ⟨u, d, hlast, hd⟩ : ∃ u d, joinLines (gs.flatMap (· ++ [[]])) = u ++ [d] ++ ['\n'] ∧
      isBlank d = false := by
    obtain ⟨gs, g, rfl⟩ := List.eq_nil_or_concat gs |>.resolve_left hne
    obtain ⟨⟨c, l, ls, hg, -⟩, hclosed⟩ := h g (by simp)
    obtain ⟨ms, m, hgm⟩ := List.eq_nil_or_concat g |>.resolve_left (by rw [hg]; simp)
    rw [List.concat_eq_append] at hgm
    obtain ⟨v, d, rfl, hd⟩ := hclosed m (by rw [hgm]; simp)
    refine ⟨endLines (gs.flatMap (· ++ [[]])) ++ (endLines ms ++ v), d, ?_, hd⟩
    rw [List.concat_eq_append, List.flatMap_append, List.flatMap_cons, List.flatMap_nil, List.append_nil,
      ← List.append_assoc, joinLines_append_nil, endLines_append, hgm, endLines_append]
    simp
  refine ⟨u ++ [d], trimmed_iff.mpr ⟨fun x hx => ?_, fun x hx => ?_⟩, hlast⟩
  · rw [hfirst] at hlast
    have hhead : (u ++ [d]).head? = some c := by
      cases u with
      | nil => exact (congrArg List.head? hlast).symm
      | cons e u => exact (congrArg List.head? hlast).symm
    rw [hhead] at hx
    exact Option.some.inj hx ▸ hc
  · rw [List.getLast?_concat] at hx
    exact Option.some.inj hx ▸ hd

/-- **The text of a document is its sheets one below the other.** -/
theorem text_eq {d : Document} (h : d.Writable) (hne : d.sheets ≠ []) :
    '\n' :: d.text = sheetText d.sheets := by
  obtain ⟨t, ht, htext⟩ := sheets_trimmed hne (framed_sheets h)
  rw [sheetText_eq hne, Document.text, htext, strip_append_blank t (by decide), ht]

/-- So it is read like its sheets. -/
theorem outline_text {d : Document} (h : d.Writable) :
    outline .lineStart d.text = outline .lineStart (sheetText d.sheets) := by
  by_cases hne : d.sheets = []
  · have htext : d.text = ['\n'] := by
      rw [Document.text, hne]
      rfl
    rw [htext, hne, outline_newline rfl]
    rfl
  · rw [← text_eq h hne, outline_newline rfl]

/-! ## Newlines -/

theorem Text.Solid.carriage {l : Text} (h : Solid l) : '\r' ∉ l := fun hm =>
  absurd (h _ hm) (by decide)

theorem carriage_notMem_target {u : Text} (h : target? u = some u) : '\r' ∉ u := by
  obtain ⟨w, ls, rfl, hw, hls⟩ := target?_shape h
  intro hm
  rcases mem_intercalate hm with he | ⟨l, hl, hml⟩
  · exact absurd he (by decide)
  · rcases List.mem_cons.mp hl with rfl | hl
    · exact hw.1.carriage hml
    · obtain ⟨g, c, x, -, hg, hc, hx, rfl⟩ := hls l hl
      rcases List.mem_append.mp hml with hml | hml
      · exact absurd (hg _ hml) (by decide)
      · rcases List.mem_cons.mp hml with rfl | hml
        · exact absurd hc (by decide)
        · exact hx.carriage hml

theorem Script.carriage {s : Script} (h : s.Extracted) : '\r' ∉ s.render := by
  cases s with
  | inline code =>
      rw [render_inline h.1]
      simp only [List.mem_cons, List.mem_append, List.not_mem_nil, or_false]
      have hno : '\r' ∉ indent scriptPad code := by
        intro hm
        rcases mem_indent hm with hm | hm
        · exact absurd hm (by decide)
        · exact h.2.1 hm
      have hclosing : '\r' ∉ closing := by decide
      simp [hno, hclosing]
  | file path =>
      have hrender : (Script.file path).render = path := h.1.1
      rw [hrender]
      exact h.1.2.2

/-- Trimming the right end of a line brings nothing in. -/
theorem carriage_notMem_stripRight {l : Text} (h : '\r' ∉ l) : '\r' ∉ stripRight l :=
  fun hm => h ((stripRight_isPrefix l).subset hm)

theorem carriage_notMem_request {r : Request} (h : r.Writable) (hb : ∀ w ∈ r.body, '\r' ∉ w) :
    ∀ l ∈ r.lines, '\r' ∉ l := by
  have hmethod : ∀ m ∈ methods.map String.toList, '\r' ∉ m := by decide
  intro l hl
  rcases List.mem_append.mp hl with hl | hl
  · rcases List.mem_cons.mp hl with rfl | hl
    · have h1 := hmethod _ h.method
      have h2 := carriage_notMem_target h.target
      have h3 := (solid_of_version h.version).carriage
      simp [h1, h2, h3]
    · obtain ⟨x, hx, rfl⟩ := List.mem_map.mp hl
      obtain ⟨-, hkey, hv⟩ := h.headers x hx
      have hk : '\r' ∉ x.key := fun hm => absurd (hkey _ hm) (by decide)
      have hval := hv.2.2
      exact carriage_notMem_stripRight (by simp [hk, hval])
  · obtain ⟨w, hw, hl⟩ := List.mem_flatMap.mp hl
    have hno := hb w (Option.mem_toList.mp hw)
    have hcases : l = [] ∨ l = w := by simpa using hl
    rcases hcases with rfl | rfl
    · simp
    · exact hno

theorem carriage_notMem_lines {b : Block} (h : b.Writable)
    (hb : ∀ r ∈ b.request, ∀ w ∈ r.body, '\r' ∉ w) : ∀ l ∈ b.lines, '\r' ∉ l := by
  intro l hl
  unfold Block.lines Block.itemLines Block.responseLines at hl
  simp only [List.mem_cons, List.mem_append, List.mem_map, List.mem_flatMap, Option.mem_toList,
    List.not_mem_nil, or_false] at hl
  -- the parts of a block in the order in which they are written
  rcases hl with rfl | rfl | (hl | ⟨s, hs, rfl⟩ | ⟨m, hm, rfl⟩) | ⟨r, hr, hl⟩ | ⟨s, hs, hl⟩ | ⟨x, hx, hl⟩
  · cases hs : b.separatorText with
    | none => decide
    | some x =>
        have hx := (h.separatorText x hs).1.2.2
        simp [separatorLine, hx]
  · simp
  · exact (h.comments l hl).1.2.2
  · have hno := Script.carriage (h.preRequestScripts s hs)
    simp [hno]
  · obtain ⟨hk, hv⟩ := h.metadata m hm
    have hkey := (solid_of_identifier hk).carriage
    have hval := hv.2.2
    exact carriage_notMem_stripRight (by simp [hkey, hval])
  · exact carriage_notMem_request (h.request r hr) (hb r hr) l hl
  · have hno := Script.carriage (h.postRequestScripts s hs)
    rcases hl with rfl | rfl
    · simp
    · simp [hno]
  · rcases hl with rfl | rfl
    · simp
    · exact (h.responseRedirect l hx).1.2.2

/-- **The text of a document is normal**, unless a body holds a carriage return. -/
theorem normalize_text {d : Document} (h : d.Writable)
    (hb : ∀ b ∈ d.blocks, ∀ r ∈ b.request, ∀ w ∈ r.body, '\r' ∉ w) : normalize d.text = d.text := by
  have hlines : ∀ g ∈ d.sheets, ∀ l ∈ g, '\r' ∉ l := by
    intro g hg l hl
    rcases List.mem_append.mp hg with hg | hg
    · obtain ⟨v, hv, rfl⟩ : ∃ v ∈ d.declarations, v.render = l := by
        split at hg
        · simp at hg
        · rw [List.mem_singleton.mp hg] at hl
          simpa using hl
      obtain ⟨hk, hval⟩ := h.declarations v hv
      have hkey := (solid_of_identifier hk).carriage
      have hno := hval.2.2
      exact carriage_notMem_stripRight (by simp [hkey, hno])
    · obtain ⟨b, hmem, rfl⟩ := List.mem_map.mp hg
      exact carriage_notMem_lines (h.blocks b hmem).2 (hb b hmem) l hl
  -- what joins the lines and ends the text holds none either
  have htext : '\r' ∉ d.text := by
    unfold Document.text
    rw [List.mem_append]
    rintro (hm | hm)
    · rcases mem_intercalate (mem_of_mem_strip hm) with he | ⟨l, hl, hm⟩
      · exact absurd he (by decide)
      · obtain ⟨g, hg, hl⟩ := List.mem_flatMap.mp hl
        rcases List.mem_append.mp hl with hl | hl
        · exact hlines g hg l hl hm
        · rw [List.mem_singleton.mp hl] at hm
          simp at hm
    · exact absurd hm (by decide)
  have hend : endsWith d.text ['\n'] = true := by
    unfold endsWith Document.text
    rw [List.isSuffixOf_iff_suffix]
    exact List.suffix_append _ _
  unfold Syntax.normalize
  simp only
  rw [unifyNewlines_eq_self htext, if_pos hend]

end HttpFile
