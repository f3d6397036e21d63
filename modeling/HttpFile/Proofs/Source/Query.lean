import HttpFile.Proofs.Body.Split
import HttpFile.Proofs.Source.Work
import HttpFile.Source.Bruno.Request
import HttpFile.Source.Postman.Request

/-!
# `HttpFile.Proofs.Source.Query` — queries with variables in collections

A collection holds a query and its variables apart, and a request file holds them in one body: the query, a blank
line, and the variables. Whichever collection a body comes from, query and variables are found in it again exactly if
the query is not divided.

## Contents
- **Postman.** `Postman.HoldsQuery`, `Postman.bodyText_holds`.
- **Bruno.** `Bruno.HoldsQuery`, `Bruno.bodyOf_holds`.
- **Main result.** `query_found_iff`.
-/

namespace HttpFile

open Text Json

namespace Source

/-! ## Postman -/

/-- A body that holds a query and its variables. -/
structure Postman.HoldsQuery (body : Value) (query : Text) (vars : List (Value × Value)) : Prop where
  mode : field body "mode" = .ok (.str "graphql")
  query : field (Postman.part body "graphql") "query" = .ok (.str query)
  vars : Postman.part (Postman.part body "graphql") "variables" = .dict vars

/-- What has a part that is there counts as present itself. -/
theorem isTruthy_of_field {v w : Value} {key : Text} (h : field v key = .ok w) (hw : w ≠ .null) :
    v.isTruthy = true := by
  cases v with
  | dict entries =>
      cases entries with
      | nil => exact absurd (Except.ok.inj h).symm hw
      | cons e entries => rfl
  | cyclic => rfl
  | _ => cases h

theorem Postman.queryBody_holds {body : Value} {q v : Text} {vars : List (Value × Value)}
    (h : Postman.HoldsQuery body q vars) (hq : Trimmed q) (hne : q ≠ [])
    (hv : Json.write? .asciiLine (.dict vars) = some (letters v)) (hobject : IsObjectText v) (headers : List Header) :
    Postman.queryBody body headers = .ok
      (addHeader (addHeader headers "X-Request-Type" "GraphQL") "Content-Type" "application/json",
        some (withVariables q (some v))) := by
  have hpresent : orEmpty (Postman.part body "graphql") = Postman.part body "graphql" :=
    if_pos (isTruthy_of_field h.query (by simp))
  have hquery : strip (presentText (.str q) []) = q := by
    have htruthy : (Value.str q).isTruthy = true := by
      cases q with
      | nil => exact absurd rfl hne
      | cons c q => rfl
    rw [presentText, if_pos htruthy]
    exact hq
  have hvars : Postman.variablesText (.dict vars) = .ok v := by
    have hstrip : strip v = v := hobject.1
    show (do return strip (← jsonText .asciiLine (.dict vars))) = _
    rw [jsonText, hv]
    show Except.ok (strip (Wide.readable (letters v))) = _
    rw [readable_letters, hstrip]
  have hnonempty : q.isEmpty = false := List.isEmpty_eq_false_iff.mpr hne
  unfold Postman.queryBody
  dsimp only
  rw [hpresent, h.query, h.vars]
  simp only [bind, Except.bind, hquery, hvars, hnonempty, hobject.isEmpty, Bool.false_eq_true, if_false]
  rw [List.append_assoc]
  rfl

theorem Postman.bodyText_holds {body : Value} {q v : Text} {vars : List (Value × Value)}
    (h : Postman.HoldsQuery body q vars) (hq : Trimmed q) (hne : q ≠ [])
    (hv : Json.write? .asciiLine (.dict vars) = some (letters v)) (hobject : IsObjectText v) (headers : List Header) :
    Postman.bodyText body headers = pure
      (addHeader (addHeader headers "X-Request-Type" "GraphQL") "Content-Type" "application/json",
        some (withVariables q (some v))) := by
  have hpresent : body.isTruthy = true := isTruthy_of_field h.mode (by simp)
  unfold Postman.bodyText
  rw [hpresent, h.mode, Postman.queryBody_holds h hq hne hv hobject]
  rfl

/-! ## Bruno -/

/-- Sections with a query for the body and a section for its variables. -/
structure Bruno.HoldsQuery (sections : List Bruno.Section) (mode query vars : Text) : Prop where
  query : ∃ s, Bruno.bodySection? sections mode = some s ∧ s.name = "body:graphql" ∧ s.text = query
  vars : ∃ s, Bruno.named? sections "body:graphql:vars" = some s ∧ s.text = vars

theorem Bruno.bodyOf_holds {sections : List Bruno.Section} {mode q v : Text}
    (h : Bruno.HoldsQuery sections mode q v) (hne : q ≠ []) (hobject : IsObjectText v) (headers : List Header) :
    Bruno.bodyOf sections mode headers =
      (addHeader (addHeader (addHeader headers "Accept" "application/json") "X-Request-Type" "GraphQL")
        "Content-Type" "application/json", some (withVariables q (some v))) := by
  obtain ⟨s, hs, hname, rfl⟩ := h.query
  obtain ⟨x, hx, rfl⟩ := h.vars
  have hvars : Bruno.textOf sections "body:graphql:vars" = x.text := by
    rw [Bruno.textOf, hx]
    rfl
  have hbody : Bruno.bodyText sections s = withVariables s.text (some x.text) := by
    have hpresent : (s.text.isEmpty || x.text.isEmpty) = false := by
      rw [hobject.isEmpty, Bool.or_false, List.isEmpty_eq_false_iff]
      exact hne
    unfold Bruno.bodyText
    rw [hname, if_neg (by decide), if_pos rfl, hvars, Bruno.queryBody, hpresent]
    exact List.append_assoc _ _ _
  unfold Bruno.bodyOf
  rw [hs]
  dsimp only
  have hnonempty : (withVariables s.text (some x.text)).isEmpty = false :=
    List.isEmpty_eq_false_iff.mpr (List.append_ne_nil_of_left_ne_nil hne _)
  rw [hbody, hname, hnonempty]
  rfl

/-! ## Main result -/

/-- **Collections and request files agree on where the variables of a query are** exactly if the query is not
divided. -/
theorem query_found_iff {q s : Text} {vars : List (Value × Value)} (hq : Trimmed q) (hne : q ≠ [])
    (hs : Trimmed s) (hvars : Json.parse s = .ok (.dict vars)) :
    (∀ body headers, Postman.HoldsQuery body q vars → ∃ (v : Text) (headers' : List Header),
      Json.write? .asciiLine (.dict vars) = some (letters v) ∧
      Postman.bodyText body headers = pure (headers', some (withVariables q (some v))) ∧
      (splitGraphql (withVariables q (some v)) = (q, some v) ↔ ¬Divided q)) ∧
    (∀ sections mode headers, Bruno.HoldsQuery sections mode q s → ∃ headers',
      Bruno.bodyOf sections mode headers = (headers', some (withVariables q (some s))) ∧
      (splitGraphql (withVariables q (some s)) = (q, some s) ↔ ¬Divided q)) := by
  have hsplit : ∀ v, IsObjectText v → (splitGraphql (withVariables q (some v)) = (q, some v) ↔ ¬Divided q) := by
    intro v hv
    refine splitGraphql_withVariables hq fun w hw => ?_
    obtain rfl := Option.some.inj hw
    exact hv
  refine ⟨fun body headers hbody => ?_, fun sections mode headers hsections => ?_⟩
  · have hascii : Json.Style.asciiLine.asciiOnly = true := rfl
    obtain ⟨v, hv, hobject⟩ := exists_objectText_of_parse hvars hascii
    exact ⟨v, _, hv, Postman.bodyText_holds hbody hq hne hv hobject headers, hsplit v hobject⟩
  · have hobject := isObjectText_of_parse hvars hs
    exact ⟨_, Bruno.bodyOf_holds hsections hne hobject headers, hsplit s hobject⟩

/-- An object with one entry. -/
def oneVariable : List (Value × Value) := [(.str "id", .int 1)]

/-- The text of the object. -/
def oneVariableText : Text := "\x7b\"id\": 1\x7d"

theorem parse_oneVariable : Json.parse oneVariableText = .ok (.dict oneVariable) := by
  have hid : Spells "id" (letters "id") := spells_plain (by decide)
  refine parse_iff.mpr ⟨.dict [(.text (letters "id"), .scalar (.ofRead (t := ['1']) (r := []) rfl rfl))], ?_, rfl⟩
  exact ⟨[], .dict (.lastEntry (.text _ hid) rfl (.scalar rfl) rfl), rfl⟩

/-- A body with a query and one variable. -/
def Postman.bodyWith (q : Text) : Value :=
  .dict [(.str "mode", .str "graphql"),
    (.str "graphql", .dict [(.str "query", .str q), (.str "variables", .dict oneVariable)])]

/-- Sections with a query and one variable. -/
def Bruno.sectionsWith (q : Text) : List Bruno.Section :=
  [⟨"body:graphql", fieldsAt '\n' q⟩, ⟨"body:graphql:vars", [oneVariableText]⟩]

/-- Two definitions with a blank line between them, the second one with a name. -/
def namedQuery : Text := "fragment F on T \x7b x \x7d\n\nquery Q \x7b a \x7b ...F \x7d \x7d"

/-- A query may have blank lines, if no brace is behind them. -/
theorem query_found_example :
    (∃ (v : Text) (headers : List Header), Json.write? .asciiLine (.dict oneVariable) = some (letters v) ∧
      Postman.bodyText (Postman.bodyWith namedQuery) [] = pure (headers, some (withVariables namedQuery (some v))) ∧
      splitGraphql (withVariables namedQuery (some v)) = (namedQuery, some v)) ∧
    ∃ headers, Bruno.bodyOf (Bruno.sectionsWith namedQuery) "graphql" [] =
        (headers, some (withVariables namedQuery (some oneVariableText))) ∧
      splitGraphql (withVariables namedQuery (some oneVariableText)) = (namedQuery, some oneVariableText) := by
  have hwhole : ¬Divided namedQuery := by decide +kernel
  have htrimmed : Trimmed namedQuery := by decide +kernel
  obtain ⟨hpostman, hbruno⟩ := query_found_iff htrimmed (by decide) (by decide) parse_oneVariable
  obtain ⟨v, headers, hv, hbody, hsplit⟩ := hpostman (Postman.bodyWith namedQuery) [] ⟨rfl, rfl, rfl⟩
  have hholds : Bruno.HoldsQuery (Bruno.sectionsWith namedQuery) "graphql" namedQuery oneVariableText :=
    ⟨⟨_, rfl, rfl, by decide +kernel⟩, ⟨_, rfl, by decide +kernel⟩⟩
  obtain ⟨headers', hbody', hsplit'⟩ := hbruno (Bruno.sectionsWith namedQuery) "graphql" [] hholds
  exact ⟨⟨v, headers, hv, hbody, hsplit.mpr hwhole⟩, headers', hbody', hsplit'.mpr hwhole⟩

/-- Two definitions, of which the second one is a selection set alone. -/
def bareQuery : Text := "fragment F on T \x7b x \x7d\n\n\x7b a \x7b ...F \x7d \x7d"

/-- The selection set is taken for the variables, and the variables for a part of them. -/
theorem query_found_fails :
    Trimmed bareQuery ∧ Postman.HoldsQuery (Postman.bodyWith bareQuery) bareQuery oneVariable ∧
      Postman.bodyText (Postman.bodyWith bareQuery) [] =
        pure ([⟨"X-Request-Type", "GraphQL"⟩, ⟨"Content-Type", "application/json"⟩],
          some (withVariables bareQuery (some oneVariableText))) ∧
      splitGraphql (withVariables bareQuery (some oneVariableText)) ≠ (bareQuery, some oneVariableText) := by
  have htrimmed : Trimmed bareQuery := by decide +kernel
  have hholds : Postman.HoldsQuery (Postman.bodyWith bareQuery) bareQuery oneVariable := ⟨rfl, rfl, rfl⟩
  have hwritten : Json.write? .asciiLine (.dict oneVariable) = some (letters oneVariableText) := by decide +kernel
  have hobject : IsObjectText oneVariableText := ⟨by decide, rfl⟩
  refine ⟨htrimmed, hholds, ?_, by decide +kernel⟩
  exact Postman.bodyText_holds hholds htrimmed (by decide) hwritten hobject []

end Source

end HttpFile
