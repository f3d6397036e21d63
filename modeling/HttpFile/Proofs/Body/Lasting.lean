import HttpFile.Proofs.Body.FormatForm
import HttpFile.Proofs.Body.FormatQuery

/-!
# `HttpFile.Proofs.Body.Lasting` — bodies that are formatted once and for all

Whether the formatter of a body leaves alone what it gave can be told from the body. Form data and other text come
out as they stay. JSON has to say a template and must not spell code units. A query has to be found again with its
variables, its markers have to fit, what is printed for it has to be a query for which the same is printed, and its
variables are JSON like any other.

## Contents
- **Bodies.** `SaysPlainly`, `LastingQuery`, `LastingBody`.
- **Main result.** `formatAs_again`: what is given for such a body is formatted as it is.
-/

namespace HttpFile

open Text Json Template Body

/-! ## Bodies -/

/-- JSON that says a template and spells no code unit. -/
def SaysPlainly (t : Text) : Prop := (∃ d, Denotes atoms t d) ∧ ¬['\\', 'u'] <:+: t

/-- A query that is found again when it is printed, with markers that fit, and that is printed the same. -/
structure LastsPrinted (query : Text) (ds : List GraphQL.Definition) : Prop where
  /-- No definition is divided, and none but the first is taken for the variables. -/
  whole : ∀ d ∈ ds, ¬Divided (printedPart query d)
  worded : ∀ d ∈ ds.tail, ¬OpensBrace (printedPart query d)
  /-- There are no placeholders, or the printed query keeps them and has the same stem free. -/
  markers : unquoted query = [] ∧ unquoted (printedQuery query ds) = [] ∨
    KeepsMarkers query (strip (GraphQL.print ds)) ∧ freeStem (printedQuery query ds) = freeStem query
  reprints : GraphQL.Reprints ds

/-- A query like that, with variables that say a template and spell no code unit, if it has any. -/
structure LastingQuery (t : Text) : Prop where
  query : ∀ ds, GraphQL.parse (Guard.of (splitGraphql t).1).text = .ok ds → LastsPrinted (splitGraphql t).1 ds
  below : ∀ w, (splitGraphql t).2 = some w → SaysPlainly w

/-- A body of a kind that is formatted once and for all. -/
def LastingBody (t : Text) : ContentKind → Prop
  | .json => SaysPlainly t
  | .graphql => LastingQuery t
  | .form | .raw => True

/-! ## Main result -/

theorem LastsPrinted.text {query : Text} {ds : List GraphQL.Definition} (h : LastsPrinted query ds) :
    (Guard.of (printedQuery query ds)).text = strip (GraphQL.print ds) := by
  rcases h.markers with ⟨hnone, hagain⟩ | ⟨hkeeps, hstem⟩
  · exact text_printedQuery hnone hagain
  · exact text_of_keeps hkeeps hstem

theorem SaysPlainly.formatJson {t w : Text} (ht : SaysPlainly t) (h : formatJson t = .ok (letters w)) :
    HttpFile.formatJson w = .ok (letters w) := by
  obtain ⟨⟨d, hd⟩, hplain⟩ := ht
  exact formatJson_formatted h hd (unmarked_of_denotes hd hplain)

theorem LastingQuery.formatGraphql {t w : Text} (ht : LastingQuery t) (h : formatGraphql t = .ok (letters w)) :
    HttpFile.formatGraphql w = .ok (letters w) := by
  obtain ⟨hquery, hvariables⟩ := ht
  rcases hsplit : splitGraphql t with ⟨query, vars⟩
  rw [hsplit] at hquery hvariables
  obtain ⟨ds, printed, hparse, hformatted, hout⟩ := exists_parts_of_formatGraphql hsplit h
  obtain ⟨vs, rfl, rfl⟩ := exists_letters_of_withFormatted hout.symm
  have hlasts := hquery ds hparse
  refine formatGraphql_formatted hformatted ?_ (fun x hx => ?_) hlasts.text hlasts.reprints
  · exact (splitGraphql_printedQuery hformatted hsplit hparse).mpr ⟨hlasts.whole, hlasts.worded⟩
  · obtain ⟨⟨d, hd⟩, hplain⟩ := hvariables x hx
    exact ⟨d, hd, unmarked_of_denotes hd hplain⟩

/-- **What is given for such a body is formatted as it is.** -/
theorem formatAs_again {kind : ContentKind} {t w : Text} (ht : LastingBody t kind)
    (h : formatAs kind t = .ok (letters w)) : formatAs kind w = .ok (letters w) := by
  cases kind with
  | json => exact SaysPlainly.formatJson ht h
  | graphql => exact LastingQuery.formatGraphql ht h
  | form =>
      have hw : formatForm t = w := letters_injective (Except.ok.inj h)
      show Except.ok (letters (formatForm w)) = _
      rw [← hw, formatForm_idem]
  | raw => rfl

end HttpFile
