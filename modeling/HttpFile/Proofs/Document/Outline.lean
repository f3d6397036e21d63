import HttpFile.Proofs.Document.Extracted

/-!
# `HttpFile.Proofs.Document.Outline` — the document of a reading

A document does not depend on where the tokens of its file stand. So it is the document of the
entries of a reading, and reading a text comes down to finding those.

## Contents
- **Without positions.** `unplaced` for entries, sections and what is grouped.
- **Outlines.** `outline`: the entries of a reading; `scanned_outline`, `fits_outline`.
- **Documents.** `Document.ofEntries`, `parse_of_outline`, `parse_of_outline_none`.
-/

namespace HttpFile.Syntax

open Text

/-! ## Without positions -/

/-- An item without the positions of its tokens, and so on. -/
def Item.unplaced : Item → Item
  | .variable name value => .variable name.unplaced (value.map Token.unplaced)
  | .comment text => .comment text.unplaced
  | .metadata name value => .metadata name.unplaced (value.map Token.unplaced)
  | .preRequest source => .preRequest source.unplaced

def Response.unplaced : Response → Response
  | .handler source => .handler source.unplaced
  | .redirect line => .redirect line.unplaced

def RequestTail.unplaced (r : RequestTail) : RequestTail :=
  { version := r.version.map Token.unplaced
    headers := r.headers.map Token.unplaced
    body := r.body.map Token.unplaced
    responses := r.responses.map Response.unplaced }

def RequestNode.unplaced (r : RequestNode) : RequestNode :=
  { method := r.method.map Token.unplaced, target := r.target.unplaced, tail := r.tail.unplaced }

def Section.unplaced (s : Section) : Section :=
  { items := s.items.map Item.unplaced, request := s.request.map RequestNode.unplaced }

def Grouped.unplaced (g : Grouped) : Grouped :=
  { tail := g.tail.unplaced
    here := g.here.unplaced
    after := g.after.map fun x => (x.1.map Token.unplaced, x.2.unplaced) }

def Entry.unplaced : Entry → Entry
  | .separator text => .separator (text.map Token.unplaced)
  | .item i => .item i.unplaced
  | .method t => .method t.unplaced
  | .target t => .target t.unplaced
  | .version t => .version t.unplaced
  | .header t => .header t.unplaced
  | .body t => .body t.unplaced
  | .response r => .response r.unplaced

theorem nextOf_unplaced (k : Terminal) (us : List Token) :
    nextOf k (us.map Token.unplaced) = (nextOf k us).map Token.unplaced := by
  cases us with
  | nil => rfl
  | cons t us =>
      by_cases hk : t.kind = k
      · simp [nextOf, Option.filter, Token.unplaced, hk]
      · simp [nextOf, Option.filter, Token.unplaced, hk]

theorem opened?_unplaced (t : Token) (us : List Token) :
    Entry.opened? t.unplaced (us.map Token.unplaced) = (Entry.opened? t us).map Entry.unplaced := by
  obtain ⟨k, l, p⟩ := t
  have htail : (us.map Token.unplaced).tail = us.tail.map Token.unplaced := by cases us <;> rfl
  have hhead : (us.map Token.unplaced).head? = us.head?.map Token.unplaced := by cases us <;> rfl
  cases k with
  | separatorMark =>
      simp [Entry.opened?, Token.unplaced, Entry.unplaced, ← nextOf_unplaced]
  | variableMark | metadataMark =>
      simp only [Entry.opened?, Token.unplaced, hhead, htail, nextOf_unplaced]
      cases us.head? <;> rfl
  | preRequestMark | handlerMark =>
      simp only [Entry.opened?, Token.unplaced, hhead]
      cases us.head? <;> rfl
  | _ => rfl

theorem entries_unplaced (ts : List Token) :
    entries (ts.map Token.unplaced) = (entries ts).map Entry.unplaced := by
  induction ts with
  | nil => rfl
  | cons t ts ih =>
      rw [List.map_cons, entries, entries, opened?_unplaced, ih, List.map_append]
      cases Entry.opened? t ts <;> rfl

theorem shown_unplaced (ts : List Token) :
    shown (ts.map Token.unplaced) = (shown ts).map Token.unplaced := by
  unfold shown
  rw [List.filter_map]
  rfl

theorem push_unplaced (e : Entry) (g : Grouped) :
    (g.push e).unplaced = g.unplaced.push e.unplaced := by
  cases e with
  | method t =>
      cases hr : g.here.request <;>
        simp [Grouped.push, Grouped.unplaced, Entry.unplaced, Section.unplaced, RequestNode.unplaced, hr]
  | _ => simp [Grouped.push, Grouped.unplaced, Entry.unplaced, Section.unplaced, RequestNode.unplaced,
      RequestTail.unplaced]

theorem group_unplaced (es : List Entry) :
    group (es.map Entry.unplaced) = (group es).unplaced := by
  induction es with
  | nil => rfl
  | cons e es ih =>
      show Grouped.push e.unplaced (group (es.map Entry.unplaced)) = (Grouped.push e (group es)).unplaced
      rw [ih, push_unplaced]

theorem Stage.Fits.unplaced {stage : Stage} {g : Grouped} (h : stage.Fits g) : stage.Fits g.unplaced := by
  obtain ⟨⟨version, headers, body, responses⟩, here, after⟩ := g
  cases stage with
  | items => exact congrArg RequestTail.unplaced h
  | named =>
      obtain ⟨htail, hitems, r, hr, hm⟩ := h
      exact ⟨congrArg RequestTail.unplaced htail, congrArg (List.map Item.unplaced) hitems, r.unplaced,
        congrArg (Option.map RequestNode.unplaced) hr, congrArg (Option.map Token.unplaced) hm⟩
  | line => exact congrArg Section.unplaced h
  | headers => exact ⟨congrArg Section.unplaced h.1, congrArg (Option.map Token.unplaced) h.2⟩
  | body =>
      obtain ⟨hhere, hversion, hheaders⟩ := h
      exact ⟨congrArg Section.unplaced hhere, congrArg (Option.map Token.unplaced) hversion,
        congrArg (List.map Token.unplaced) hheaders⟩
  | responses =>
      obtain ⟨hhere, hversion, hheaders, hbody⟩ := h
      exact ⟨congrArg Section.unplaced hhere, congrArg (Option.map Token.unplaced) hversion,
        congrArg (List.map Token.unplaced) hheaders, congrArg (Option.map Token.unplaced) hbody⟩
end HttpFile.Syntax

namespace HttpFile

open Text Syntax

@[simp] theorem content_unplaced (t : Token) : t.unplaced.content = t.content := rfl

@[simp] theorem ofToken_unplaced (t : Token) : Script.ofToken t.unplaced = Script.ofToken t := rfl

theorem content_map_unplaced (t : Option Token) :
    (t.map Token.unplaced).map (·.content) = t.map (·.content) := by cases t <;> rfl

/-- A part that is picked out does not depend on the positions if the choice does not. -/
theorem filterMap_map_of_eq {α β : Type} {f : α → Option β} {g : α → α} (h : ∀ x, f (g x) = f x)
    (l : List α) : (l.map g).filterMap f = l.filterMap f := by
  rw [List.filterMap_map]
  congr 1
  exact funext h

theorem declarations_unplaced (s : Section) : s.unplaced.declarations = s.declarations := by
  refine filterMap_map_of_eq (fun i => ?_) s.items
  cases i with
  | «variable» name value => cases value <;> rfl
  | _ => rfl

theorem ofNode_unplaced (defaults : Defaults) (n : RequestNode) :
    Request.ofNode defaults n.unplaced = Request.ofNode defaults n := by
  cases hm : n.method <;> cases hv : n.tail.version <;> cases hb : n.tail.body <;>
    simp [Request.ofNode, RequestNode.unplaced, RequestTail.unplaced, hm, hv, hb, Token.unplaced,
      Token.content, Function.comp_def]

theorem handlers_unplaced (n : RequestNode) : n.unplaced.handlers = n.handlers := by
  refine filterMap_map_of_eq (fun r => ?_) n.tail.responses
  cases r <;> rfl

theorem redirect?_unplaced (n : RequestNode) : n.unplaced.redirect? = n.redirect? := by
  refine congrArg List.getLast? (filterMap_map_of_eq (fun r => ?_) n.tail.responses)
  cases r <;> rfl

theorem ofSection_unplaced (defaults : Defaults) (separator : Option Token) (s : Section) :
    Block.ofSection defaults (separator.map Token.unplaced) s.unplaced =
      Block.ofSection defaults separator s := by
  simp only [Block.ofSection, Block.mk.injEq]
  refine ⟨by rw [content_map_unplaced], ?_, ?_, ?_, ?_, ?_, ?_⟩
  · refine filterMap_map_of_eq (fun i => ?_) s.items
    cases i <;> rfl
  · refine filterMap_map_of_eq (fun i => ?_) s.items
    cases i with
    | metadata name value => cases value <;> rfl
    | _ => rfl
  · cases hr : s.request with
    | none => simp [Section.unplaced, hr]
    | some n => simp [Section.unplaced, hr, ofNode_unplaced]
  · refine filterMap_map_of_eq (fun i => ?_) s.items
    cases i <;> rfl
  · cases hr : s.request with
    | none => simp [Section.unplaced, hr]
    | some n => simp [Section.unplaced, hr, handlers_unplaced]
  · cases hr : s.request with
    | none => simp [Section.unplaced, hr]
    | some n => simp [Section.unplaced, hr, redirect?_unplaced]

/-! ## Outlines -/

/-- The entries of a text that is read from a place on. -/
def Syntax.outline (place : Context) (t : Text) : Option (List Entry) :=
  (reading place t).map fun ts => entries (shown ts)

/-- What is known of the entries of a reading. -/
theorem scanned_outline {place : Context} {t : Text} {es : List Entry} (h : outline place t = some es) :
    ∃ ts, Scanned place t ts ∧ entries (shown ts) = es := by
  obtain ⟨ts, hts, hes⟩ := Option.map_eq_some_iff.mp h
  exact ⟨ts, scanned_reading hts, hes⟩

/-- What is read from a place on fits there. -/
theorem fits_outline {place : Context} {t : Text} {es : List Entry} (h : outline place t = some es) :
    place.stage.Fits (group es) := by
  obtain ⟨ts, hts, rfl⟩ := Option.map_eq_some_iff.mp h
  obtain ⟨us, hs, rfl⟩ := scan_of_reading hts .start
  rw [shown_unplaced, entries_unplaced, group_unplaced]
  exact (gather_fits hs).1.unplaced
/-- The document of a list of entries. -/
def Document.ofEntries (defaults : Defaults) (es : List Entry) : Document :=
  Document.ofSections defaults (group es).sections

theorem ofEntries_unplaced (defaults : Defaults) (es : List Entry) :
    Document.ofEntries defaults (es.map Entry.unplaced) = Document.ofEntries defaults es := by
  have hsections : (group es).unplaced.sections =
      (group es).sections.map fun x => (x.1.map Token.unplaced, x.2.unplaced) := rfl
  unfold Document.ofEntries Document.ofSections
  rw [group_unplaced, hsections, List.map_map, List.flatMap_map]
  simp only [declarations_unplaced, Function.comp_def, ofSection_unplaced]

/-- **A text is read into the document of its outline**, and refused if it has none. -/
theorem parse_eq_outline (defaults : Defaults) (source t : Text) :
    (∃ es, outline .lineStart (normalize t) = some es ∧
        Document.parse defaults source t = .ok (Document.ofEntries defaults es)) ∨
      (outline .lineStart (normalize t) = none ∧
        ∃ e, Document.parse defaults source t = .error e) := by
  unfold outline
  rw [reading_eq_scan .lineStart .start]
  unfold Document.parse Syntax.parse tokens
  cases hs : scan .lineStart .start 0 (normalize t) with
  | error e => exact .inr ⟨rfl, _, rfl⟩
  | ok ts =>
      refine .inl ⟨(entries (shown ts)).map Entry.unplaced, ?_, ?_⟩
      · show some (entries (shown (ts.map Token.unplaced))) = _
        rw [shown_unplaced, entries_unplaced]
      · rw [ofEntries_unplaced]
        show Except.ok (Document.ofTree defaults (Tree.ofTokens ts)) = _
        rw [ofTree_ofTokens]
        rfl

theorem parse_of_outline (defaults : Defaults) (source : Text) {t : Text} {es : List Entry}
    (h : outline .lineStart (normalize t) = some es) :
    Document.parse defaults source t = .ok (Document.ofEntries defaults es) := by
  rcases parse_eq_outline defaults source t with ⟨es', hes, hparse⟩ | ⟨hnone, -⟩
  · rw [h] at hes
    rw [hparse, Option.some.inj hes]
  · rw [h] at hnone
    simp at hnone

theorem outline_of_parse {defaults : Defaults} {source t : Text} {d : Document}
    (h : Document.parse defaults source t = .ok d) :
    ∃ es, outline .lineStart (normalize t) = some es ∧ d = Document.ofEntries defaults es := by
  rcases parse_eq_outline defaults source t with ⟨es, hes, hparse⟩ | ⟨-, e, hparse⟩
  · rw [hparse] at h
    injection h with h
    exact ⟨es, hes, h.symm⟩
  · rw [hparse] at h
    simp at h

end HttpFile
