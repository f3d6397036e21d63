import HttpFile.Proofs.Syntax.Reading
import HttpFile.Syntax.Tree

/-!
# `HttpFile.Proofs.Syntax.Structure` — the tree of a scan loses nothing

Tokens are grouped from the right. What stands to the right of a place has a shape that the place
fixes: below a request line there is no line of the section above it, below a body no header, and so
on. The shape is an invariant of the scan, and it says that every entry finds its slot in the tree
empty. Hence the tree, read from left to right, has exactly the entries of the scan: nothing is
dropped or overwritten, and in particular a request has at most one body.

## Contents
- **Gathering.** `shown`, `gather`: the grouped tokens of a scan.
- **Entries of a tree.** `Grouped.entries`.
- **Stages.** `Context.stage`, `leads_of_next`: what each kind of token does to the stage.
- **The invariant.** `Stage.Fits`; `fits_push`, `fits_unopened` for a step, `gather_fits` for a run.
- **Trees.** `Tree.entries`, `entries_ofTokens`.
- **The other way.** `group_sections`: sections are grouped from their entries.
-/

namespace HttpFile.Syntax

open Text

/-! ## Gathering -/

/-- The tokens that a tree shows. -/
def shown (ts : List Token) : List Token := ts.filter fun t => !t.kind.isLayout

/-- The tokens of a scan, grouped. -/
def gather (ts : List Token) : Grouped := group (entries (shown ts))

theorem shown_cons (t : Token) (ts : List Token) :
    shown (t :: ts) = if t.kind.isLayout then shown ts else t :: shown ts := by
  unfold shown
  rw [List.filter_cons]
  cases t.kind.isLayout <;> rfl

theorem gather_layout {t : Token} (ts : List Token) (h : t.kind.isLayout = true) :
    gather (t :: ts) = gather ts := by
  unfold gather
  rw [shown_cons, if_pos h]

/-- A token that is shown adds the entry it opens, if it opens one. -/
theorem gather_shown {t : Token} (ts : List Token) (h : t.kind.isLayout = false) :
    gather (t :: ts) = match Entry.opened? t (shown ts) with
      | some e => (gather ts).push e
      | none => gather ts := by
  unfold gather group
  rw [shown_cons, if_neg (by simp [h]), entries]
  cases Entry.opened? t (shown ts) <;> rfl

/-! ## Entries of a tree -/

/-- The entries below a request line, in the order of the file. -/
def RequestTail.entries (r : RequestTail) : List Entry :=
  r.version.toList.map .version ++ r.headers.map .header ++ r.body.toList.map .body ++
    r.responses.map .response

/-- The entries of a request. -/
def RequestNode.entries (r : RequestNode) : List Entry :=
  r.method.toList.map .method ++ .target r.target :: r.tail.entries

/-- The entries of a section. -/
def Section.entries (s : Section) : List Entry :=
  s.items.map .item ++ s.request.toList.flatMap RequestNode.entries

/-- The entries of what is grouped. -/
def Grouped.entries (g : Grouped) : List Entry :=
  g.tail.entries ++ g.here.entries ++
    g.after.flatMap fun (text, s) => .separator text :: s.entries

@[simp] theorem RequestTail.entries_empty : ({} : RequestTail).entries = [] := rfl

@[simp] theorem Section.entries_empty : ({} : Section).entries = [] := rfl

/-! ## Stages -/

/-- How far the section at hand has come at a place. -/
inductive Stage where
  | items
  | named
  | line
  | headers
  | body
  | responses
deriving DecidableEq

/-- The stage of a place. -/
def Context.stage : Context → Stage
  | .methodGap | .target => .named
  | .targetGap | .version => .line
  | .requestLineEnd | .headers | .headerEnd => .headers
  | .beforeBody => .body
  | .afterBody | .handlerSource | .responseEnd | .responses | .belowResponses => .responses
  | _ => .items

/-- The stages between which a token of a kind may lead. -/
def Terminal.leads (before after : Stage) : Terminal → Bool
  | .variableMark | .metadataMark | .comment | .preRequestMark => before = .items && after = .items
  | .separatorMark => before ≠ .named && before ≠ .line && after = .items
  | .method => before = .items && after = .named
  | .target => (before = .items || before = .named) && after = .line
  | .version => before = .line && after = .headers
  | .header => before = .headers && after = .headers
  | .handlerMark | .redirect =>
    (before = .headers || before = .body || before = .responses) && after = .responses
  | .formBody | .jsonBody | .graphqlBody | .xmlBody | .externalBody | .rawBody =>
    before = .body && after = .responses
  | _ => before = after || (before = .line && after = .headers) ||
      (before = .headers && after = .body)

/-- Whether a move keeps to the stages that its kind allows. -/
def Context.keepsStages (place : Context) (k : Terminal) : Bool :=
  match place.next k with
  | some place' => k.leads place.stage place'.stage
  | none => true

theorem keepsStages (place : Context) (k : Terminal) : place.keepsStages k = true := by
  cases place <;> cases k <;> rfl

/-- **Every move keeps to the stages that its kind allows.** -/
theorem leads_of_next {place place' : Context} {k : Terminal} (h : place.next k = some place') :
    k.leads place.stage place'.stage = true := by
  have hk := keepsStages place k
  unfold Context.keepsStages at hk
  rw [h] at hk
  exact hk

/-! ## The invariant -/

/-- What may stand to the right of a stage: which slots of the request and the section at hand are
    still empty. -/
def Stage.Fits : Stage → Grouped → Prop
  | .items, g => g.tail = {}
  | .named, g => g.tail = {} ∧ g.here.items = [] ∧ ∃ r, g.here.request = some r ∧ r.method = none
  | .line, g => g.here = {}
  | .headers, g => g.here = {} ∧ g.tail.version = none
  | .body, g => g.here = {} ∧ g.tail.version = none ∧ g.tail.headers = []
  | .responses, g =>
    g.here = {} ∧ g.tail.version = none ∧ g.tail.headers = [] ∧ g.tail.body = none

/-- What stands behind the headers of a request fits behind any of them, and so on. -/
theorem Stage.Fits.earlier {before after : Stage} {g : Grouped} (hg : after.Fits g)
    (h : before = after ∨ before = .line ∧ after = .headers ∨ before = .headers ∧ after = .body) :
    before.Fits g := by
  rcases h with rfl | ⟨rfl, rfl⟩ | ⟨rfl, rfl⟩
  · exact hg
  · exact hg.1
  · exact ⟨hg.1, hg.2.1⟩

/-- What stands behind a response fits below a request wherever a response may stand. -/
theorem Stage.Fits.of_responses {before : Stage} {g : Grouped} (hg : Stage.responses.Fits g)
    (h : before = .headers ∨ before = .body ∨ before = .responses) : before.Fits g := by
  rcases h with rfl | rfl | rfl
  · exact ⟨hg.1, hg.2.1⟩
  · exact ⟨hg.1, hg.2.1, hg.2.2.1⟩
  · exact hg

/-- A separator starts anew: nothing is left over to its left. -/
theorem Stage.fits_separator {before : Stage} (h1 : before ≠ .named) (text : Option Token)
    (g : Grouped) : before.Fits (g.push (.separator text)) := by
  cases before with
  | named => exact absurd rfl h1
  | items => rfl
  | line => rfl
  | headers => exact ⟨rfl, rfl⟩
  | body => exact ⟨rfl, rfl, rfl⟩
  | responses => exact ⟨rfl, rfl, rfl, rfl⟩

/-- A line above the request goes in front of the lines already there. -/
theorem fits_push_item {g : Grouped} (hg : Stage.items.Fits g) (i : Item) :
    Stage.items.Fits (g.push (.item i)) ∧ (g.push (.item i)).entries = .item i :: g.entries := by
  have htail : g.tail = {} := hg
  exact ⟨hg, by simp [Grouped.push, Grouped.entries, Section.entries, htail]⟩

/-- A response goes in front of the responses, and nothing but responses is behind it. -/
theorem fits_push_response {before : Stage} {g : Grouped} (hg : Stage.responses.Fits g)
    (hb : before = .headers ∨ before = .body ∨ before = .responses) (r : Response) :
    before.Fits (g.push (.response r)) ∧ (g.push (.response r)).entries = .response r :: g.entries := by
  obtain ⟨h1, h2, h3, h4⟩ := hg
  refine ⟨Stage.Fits.of_responses ⟨h1, h2, h3, h4⟩ hb, ?_⟩
  simp [Grouped.push, Grouped.entries, RequestTail.entries, h2, h3, h4]

/-- A body finds the slot for the body empty. -/
theorem fits_push_body {g : Grouped} (hg : Stage.responses.Fits g) (t : Token) :
    Stage.body.Fits (g.push (.body t)) ∧ (g.push (.body t)).entries = .body t :: g.entries := by
  obtain ⟨h1, h2, h3, h4⟩ := hg
  exact ⟨⟨h1, h2, h3⟩, by simp [Grouped.push, Grouped.entries, RequestTail.entries, h2, h3, h4]⟩

/-- **One step.** The entry that a token opens finds its slot empty, and leaves to its left what the
    stage there allows. -/
theorem fits_push {before after : Stage} {t : Token} {us : List Token} {e : Entry} {g : Grouped}
    (hl : t.kind.leads before after = true) (hg : after.Fits g)
    (he : Entry.opened? t us = some e) :
    before.Fits (g.push e) ∧ (g.push e).entries = e :: g.entries := by
  obtain ⟨k, l, p⟩ := t
  -- the kind says between which stages it leads, and with that what `g` still has empty
  cases k with
  | variableMark | metadataMark | preRequestMark =>
      have hs : before = .items ∧ after = .items := by simpa [Terminal.leads] using hl
      obtain ⟨rfl, rfl⟩ := hs
      obtain ⟨n, -, rfl⟩ := Option.map_eq_some_iff.mp he
      exact fits_push_item hg _
  | comment =>
      have hs : before = .items ∧ after = .items := by simpa [Terminal.leads] using hl
      obtain ⟨rfl, rfl⟩ := hs
      rw [← Option.some.inj he]
      exact fits_push_item hg _
  | handlerMark =>
      have hs : (before = .headers ∨ before = .body ∨ before = .responses) ∧ after = .responses := by
        simpa [Terminal.leads, or_assoc] using hl
      obtain ⟨hb, rfl⟩ := hs
      obtain ⟨n, -, rfl⟩ := Option.map_eq_some_iff.mp he
      exact fits_push_response hg hb _
  | redirect =>
      have hs : (before = .headers ∨ before = .body ∨ before = .responses) ∧ after = .responses := by
        simpa [Terminal.leads, or_assoc] using hl
      obtain ⟨hb, rfl⟩ := hs
      rw [← Option.some.inj he]
      exact fits_push_response hg hb _
  | separatorMark =>
      have hs : (before ≠ .named ∧ before ≠ .line) ∧ after = .items := by
        simpa [Terminal.leads] using hl
      obtain ⟨⟨h1, -⟩, rfl⟩ := hs
      have htail : g.tail = {} := hg
      rw [← Option.some.inj he]
      exact ⟨Stage.fits_separator h1 _ g, by simp [Grouped.push, Grouped.entries, htail]⟩
  | method =>
      have hs : before = .items ∧ after = .named := by simpa [Terminal.leads] using hl
      obtain ⟨rfl, rfl⟩ := hs
      -- the target is there already, and waits for its method
      obtain ⟨h1, h2, r, h3, h4⟩ := hg
      rw [← Option.some.inj he]
      exact ⟨h1, by simp [Grouped.push, Grouped.entries, Section.entries, RequestNode.entries,
        h1, h2, h3, h4]⟩
  | target =>
      have hs : (before = .items ∨ before = .named) ∧ after = .line := by
        simpa [Terminal.leads] using hl
      obtain ⟨hb, rfl⟩ := hs
      have hh : g.here = {} := hg
      rw [← Option.some.inj he]
      refine ⟨?_, by simp [Grouped.push, Grouped.entries, Section.entries, RequestNode.entries, hh]⟩
      -- what was below the request line is the request's now, so the slots are empty again
      rcases hb with rfl | rfl
      · rfl
      · exact ⟨rfl, by simp [Grouped.push, hh], ⟨_, rfl, rfl⟩⟩
  | version =>
      have hs : before = .line ∧ after = .headers := by simpa [Terminal.leads] using hl
      obtain ⟨rfl, rfl⟩ := hs
      rw [← Option.some.inj he]
      exact ⟨hg.1, by simp [Grouped.push, Grouped.entries, RequestTail.entries, hg.2]⟩
  | header =>
      have hs : before = .headers ∧ after = .headers := by simpa [Terminal.leads] using hl
      obtain ⟨rfl, rfl⟩ := hs
      rw [← Option.some.inj he]
      exact ⟨hg, by simp [Grouped.push, Grouped.entries, RequestTail.entries, hg.2]⟩
  | formBody | jsonBody | graphqlBody | xmlBody | externalBody | rawBody =>
      have hs : before = .body ∧ after = .responses := by simpa [Terminal.leads] using hl
      obtain ⟨rfl, rfl⟩ := hs
      rw [← Option.some.inj he]
      exact fits_push_body hg _
  | endOfLine | gap | separatorText | assign | identifier | value | script | path =>
      simp [Entry.opened?, Terminal.isBody] at he

/-- A token that opens no entry leaves what the stage to its left allows. -/
theorem fits_unopened {before after : Stage} {t : Token} {us : List Token} {g : Grouped}
    (hl : t.kind.leads before after = true) (hg : after.Fits g)
    (he : Entry.opened? t us = none) : before.Fits g := by
  obtain ⟨k, l, p⟩ := t
  cases k with
  | variableMark | metadataMark | preRequestMark =>
      have hs : before = .items ∧ after = .items := by simpa [Terminal.leads] using hl
      exact hg.earlier (.inl (hs.1.trans hs.2.symm))
  | handlerMark =>
      have hs : (before = .headers ∨ before = .body ∨ before = .responses) ∧ after = .responses := by
        simpa [Terminal.leads, or_assoc] using hl
      obtain ⟨hb, rfl⟩ := hs
      exact hg.of_responses hb
  | endOfLine | gap | separatorText | assign | identifier | value | script | path =>
      exact hg.earlier (by simpa [Terminal.leads, or_assoc] using hl)
  | comment | redirect | separatorMark | method | target | version | header | formBody | jsonBody
  | graphqlBody | xmlBody | externalBody | rawBody =>
      simp [Entry.opened?, Terminal.isBody] at he

/-- Layout opens no entry. -/
theorem opened?_layout {t : Token} (h : t.kind.isLayout = true) (us : List Token) :
    Entry.opened? t us = none := by
  obtain ⟨k, l, p⟩ := t
  cases k with
  | endOfLine | gap | assign => rfl
  | _ => simp [Terminal.isLayout] at h

/-- **The whole run.** What a scan finds from a place on fits there, and grouping it keeps every entry
    in its order. -/
theorem gather_fits {place : Context} {p : Position} {t : Text} {ts : List Token}
    (h : scan place p 0 t = .ok ts) :
    place.stage.Fits (gather ts) ∧ (gather ts).entries = entries (shown ts) := by
  refine scan_induction
    (motive := fun place _ ts =>
      place.stage.Fits (gather ts) ∧ (gather ts).entries = entries (shown ts)) ?_ ?_ h
  · intro place hend
    refine ⟨?_, rfl⟩
    cases place with
    | lineStart => rfl
    | headers => exact ⟨rfl, rfl⟩
    | beforeBody => exact ⟨rfl, rfl, rfl⟩
    | afterBody | responses | belowResponses => exact ⟨rfl, rfl, rfl, rfl⟩
    | _ => simp [Context.mayEnd] at hend
  · rintro place place' k l rest ts p - hnext ⟨hfit, hentries⟩
    have hl := leads_of_next hnext
    cases hlay : k.isLayout with
    | true =>
        rw [gather_layout ts hlay, shown_cons, if_pos hlay]
        exact ⟨fits_unopened (t := ⟨k, l, p⟩) hl hfit (opened?_layout hlay (shown ts)), hentries⟩
    | false =>
        rw [gather_shown ts hlay, shown_cons, if_neg (by simp [hlay]), entries]
        cases he : Entry.opened? ⟨k, l, p⟩ (shown ts) with
        | none => exact ⟨fits_unopened hl hfit he, hentries⟩
        | some e =>
            obtain ⟨h1, h2⟩ := fits_push hl hfit he
            exact ⟨h1, by rw [h2, hentries]; rfl⟩

/-! ## Trees -/

/-- The entries of a tree, in the order of the file. -/
def Tree.entries (t : Tree) : List Entry :=
  t.head.toList.flatMap Section.entries ++
    t.sections.flatMap fun (text, s) => .separator text :: s.entries

/-- A tree without a head has nothing before its first separator. -/
theorem here_of_head_none {ts : List Token}
    (h : (nextOf .separatorMark ts).isSome || ts.isEmpty) : (gather ts).here = {} := by
  cases ts with
  | nil => rfl
  | cons t ts =>
      have hk : t.kind = .separatorMark := by
        by_contra hne
        simp [nextOf, hne] at h
      obtain ⟨k, l, p⟩ := t
      subst hk
      rw [gather_shown ts rfl]
      rfl

/-- **The tree of a scan has the entries of the scan.** -/
theorem entries_ofTokens {place : Context} {p : Position} {t : Text} {ts : List Token}
    (h : scan place p 0 t = .ok ts) (hp : place = .lineStart) :
    (Tree.ofTokens ts).entries = entries (shown ts) := by
  obtain ⟨hfit, hentries⟩ := gather_fits h
  have htail : (gather ts).tail = {} := by
    rw [hp] at hfit
    exact hfit
  have hgather : group (entries (ts.filter fun t => !t.kind.isLayout)) = gather ts := rfl
  rw [← hentries]
  unfold Grouped.entries Tree.entries Tree.ofTokens
  simp only [hgather, htail]
  by_cases hhead : ((nextOf .separatorMark ts).isSome || ts.isEmpty) = true
  · rw [if_pos hhead, here_of_head_none hhead]
    rfl
  · rw [if_neg hhead]
    simp

/-! ## The other way -/

theorem foldr_items (is : List Item) (g : Grouped) :
    (is.map .item).foldr Grouped.push g =
      { g with here := { g.here with items := is ++ g.here.items } } := by
  induction is with
  | nil => rfl
  | cons i is ih => rw [List.map_cons, List.foldr_cons, ih]; rfl

theorem foldr_headers (ts : List Token) (g : Grouped) :
    (ts.map .header).foldr Grouped.push g =
      { g with tail := { g.tail with headers := ts ++ g.tail.headers } } := by
  induction ts with
  | nil => rfl
  | cons t ts ih => rw [List.map_cons, List.foldr_cons, ih]; rfl

theorem foldr_responses (rs : List Response) (g : Grouped) :
    (rs.map .response).foldr Grouped.push g =
      { g with tail := { g.tail with responses := rs ++ g.tail.responses } } := by
  induction rs with
  | nil => rfl
  | cons r rs ih => rw [List.map_cons, List.foldr_cons, ih]; rfl

/-- What stands below a request line is put together in front of what has no such part. -/
theorem foldr_tail (r : RequestTail) {g : Grouped} (hg : g.tail = {}) :
    r.entries.foldr Grouped.push g = { g with tail := r } := by
  obtain ⟨version, headers, body, responses⟩ := r
  unfold RequestTail.entries
  simp only [List.foldr_append, foldr_responses, foldr_headers, hg]
  cases version <;> cases body <;> simp [Grouped.push]

theorem foldr_node (n : RequestNode) {g : Grouped} (hg : g.tail = {}) (hh : g.here = {}) :
    n.entries.foldr Grouped.push g = { g with here := { request := some n } } := by
  obtain ⟨method, target, tail⟩ := n
  unfold RequestNode.entries
  rw [List.foldr_append, List.foldr_cons, foldr_tail tail hg]
  cases method <;> simp [Grouped.push, hh, hg]

/-- A section is put together in front of sections. -/
theorem foldr_section (s : Section) (ss : List (Option Token × Section)) :
    s.entries.foldr Grouped.push { after := ss } = { here := s, after := ss } := by
  obtain ⟨items, request⟩ := s
  unfold Section.entries
  rw [List.foldr_append]
  cases request with
  | none => simp [foldr_items]
  | some n =>
      simp only [Option.toList_some, List.flatMap_cons, List.flatMap_nil, List.append_nil]
      rw [foldr_node n rfl rfl, foldr_items]
      simp

/-- **Sections are grouped from their entries.** -/
theorem group_sections (ss : List (Option Token × Section)) :
    group (ss.flatMap fun (text, s) => .separator text :: s.entries) = { after := ss } := by
  unfold group
  induction ss with
  | nil => rfl
  | cons x ss ih =>
      rw [List.flatMap_cons, List.foldr_append, ih, List.foldr_cons, foldr_section]
      rfl

end HttpFile.Syntax
