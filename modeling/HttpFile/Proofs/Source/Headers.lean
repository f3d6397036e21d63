import HttpFile.Proofs.Source.Form

/-!
# `HttpFile.Proofs.Source.Headers` — what becomes of the headers of a source

Credentials, the kind of a query and the type of a body each add a header to the one list, and each looks
only at the keys that are there by then. So a single fact about adding a header carries through all of
them: the headers of the source stay in front as they are, and what is behind them differs from all that
was there before.

## Contents
- **Sources.** `Listed`: the headers that a source lists and does not switch off.
- **Defaults.** `defaultKeys`, `Completes`, `Completed`; `Completed.addHeader` for one header.
- **Collections.** `Postman.IsOn`, `Postman.headerEntries`; `Postman.completed_bodyText`.
- **Request files.** `Bruno.headerPairs`; `Bruno.completed_headersOf`, `Bruno.completed_bodyOf`.
- **Main result.** `headers_completed`, with an example of both.
-/

namespace HttpFile.Source

open Text

/-! ## Sources -/

/-- The headers of those entries of a source that count, in their order. -/
inductive Listed {α : Type} (counts : α → Prop) (header : α → Header) : List α → List Header → Prop
  | nil : Listed counts header [] []
  | on {entry : α} {entries : List α} {headers : List Header} (h : counts entry)
      (more : Listed counts header entries headers) :
      Listed counts header (entry :: entries) (header entry :: headers)
  | off {entry : α} {entries : List α} {headers : List Header} (h : ¬counts entry)
      (more : Listed counts header entries headers) : Listed counts header (entry :: entries) headers

/-- Picking out the entries that count lists their headers. -/
theorem listed_filter {α : Type} {counts : α → Prop} {picks : α → Bool}
    (h : ∀ entry, picks entry = true ↔ counts entry) (header : α → Header) (entries : List α) :
    Listed counts header entries ((entries.filter picks).map header) := by
  induction entries with
  | nil => exact .nil
  | cons entry entries ih =>
      by_cases hpicks : picks entry = true
      · rw [List.filter_cons_of_pos hpicks]
        exact .on ((h entry).mp hpicks) ih
      · rw [List.filter_cons_of_neg hpicks]
        exact .off (fun hcounts => hpicks ((h entry).mpr hcounts)) ih

/-! ## Defaults -/

/-- The keys of the headers that a converter adds. -/
def defaultKeys : List Text := ["Authorization", "Accept", "X-Request-Type", "Content-Type"]

/-- Headers that may be added behind the headers of a source: each has one of the known keys, and none
    has the key of another one in front of it, whatever the case. -/
structure Completes (own added : List Header) : Prop where
  known : ∀ h ∈ added, h.key ∈ defaultKeys
  fresh : ∀ g ∈ own, ∀ h ∈ added, sameIgnoringCase g.key h.key = false
  once : added.Pairwise fun g h => sameIgnoringCase g.key h.key = false

/-- The headers of a source with headers added behind them. -/
def Completed (own headers : List Header) : Prop := ∃ added, headers = own ++ added ∧ Completes own added

theorem completed_self (own : List Header) : Completed own own :=
  ⟨[], (List.append_nil own).symm, ⟨by simp, by simp, .nil⟩⟩

/-- **Adding a default keeps what is there**, and repeats no key. -/
theorem Completed.addHeader {own headers : List Header} (h : Completed own headers) {key : Text}
    (hkey : key ∈ defaultKeys) (value : Text) : Completed own (addHeader headers key value) := by
  unfold HttpFile.addHeader
  split
  · exact h
  · next hnone =>
      obtain ⟨added, rfl, hadded⟩ := h
      have hnew : (∀ g ∈ own, sameIgnoringCase g.key key = false) ∧
          ∀ g ∈ added, sameIgnoringCase g.key key = false := by
        simpa using hnone
      refine ⟨added ++ [⟨key, value⟩], List.append_assoc _ _ _, ?_, ?_, ?_⟩
      · rw [List.forall_mem_append, List.forall_mem_singleton]
        exact ⟨hadded.known, hkey⟩
      · intro g hg
        rw [List.forall_mem_append, List.forall_mem_singleton]
        exact ⟨hadded.fresh g hg, hnew.1 g hg⟩
      · rw [List.pairwise_append]
        refine ⟨hadded.once, List.pairwise_singleton _ _, fun g hg x hx => ?_⟩
        rw [List.mem_singleton.mp hx]
        exact hnew.2 g hg

/-! ## Collections -/

namespace Postman

/-- An entry that has a key and is marked neither as disabled nor as not enabled. -/
structure IsOn (entry : Value) : Prop where
  key : (part entry "key").isTruthy = true
  enabled : part entry "enabled" ≠ .bool false
  disabled : (part entry "disabled").isTruthy = false

/-- The header that an entry stands for. -/
def headerOf (entry : Value) : Header := ⟨(part entry "key").text, optionalText (part entry "value")⟩

/-- What the request of an item lists as headers. -/
def headerEntries (item : Value) : Except Misfit (List Value) :=
  elementsIfAny (part (fullRequest (part item "request")) "header")

theorem isEnabled_iff (entry : Value) :
    isEnabled entry = true ↔ part entry "enabled" ≠ .bool false ∧ (part entry "disabled").isTruthy = false := by
  unfold isEnabled
  rw [Bool.and_eq_true, Bool.not_eq_true', Bool.not_eq_true']
  refine and_congr ?_ Iff.rfl
  cases hpart : part entry "enabled" with
  | bool b => cases b <;> simp
  | _ => simp

/-- The entries that are picked out are those that are on. -/
theorem listed_enabledEntries {v : Value} {entries : List Value} (h : enabledEntries v = .ok entries) :
    ∃ all, elementsIfAny v = .ok all ∧ Listed IsOn headerOf all (entries.map headerOf) := by
  obtain ⟨all, hall, rfl⟩ := map_eq_ok h
  refine ⟨all, hall, listed_filter (fun entry => ?_) headerOf all⟩
  rw [Bool.and_eq_true, isEnabled_iff]
  exact ⟨fun ⟨hkey, henabled, hdisabled⟩ => ⟨hkey, henabled, hdisabled⟩,
    fun hon => ⟨hon.key, hon.enabled, hon.disabled⟩⟩

theorem completed_rawBody {body : Value} {own headers : List Header} {text : Option Text}
    (h : rawBody body own = .ok (headers, text)) : Completed own headers := by
  have hdone : ∀ raw : Text, (if allBlank raw then pure (own, none) else do
      let options ← field (orEmpty (part body "options")) "raw"
      let language ← field (orEmpty options) "language"
      pure (addHeader own "Content-Type" (mediaType (presentText language "text")), some raw) :
        Except Misfit (List Header × Option Text)) = .ok (headers, text) → Completed own headers := by
    intro raw h
    split at h
    · obtain ⟨rfl, -⟩ := Prod.mk.inj (Except.ok.inj h)
      exact completed_self own
    · obtain ⟨options, -, h⟩ := ok_of_bind h
      obtain ⟨language, -, h⟩ := ok_of_bind h
      obtain ⟨rfl, -⟩ := Prod.mk.inj (Except.ok.inj h)
      exact (completed_self own).addHeader (by decide) _
  unfold rawBody at h
  dsimp only at h
  split at h
  · exact hdone [] h
  · exact hdone _ h
  · cases h

theorem completed_formBody {body : Value} {own headers : List Header} {text : Option Text}
    (h : formBody body own = .ok (headers, text)) : Completed own headers := by
  unfold formBody at h
  obtain ⟨entries, -, h⟩ := ok_of_bind h
  dsimp only at h
  split at h
  · obtain ⟨rfl, -⟩ := Prod.mk.inj (Except.ok.inj h)
    exact completed_self own
  · obtain ⟨rfl, -⟩ := Prod.mk.inj (Except.ok.inj h)
    exact (completed_self own).addHeader (by decide) _

theorem completed_queryBody {body : Value} {own headers : List Header} {text : Option Text}
    (h : queryBody body own = .ok (headers, text)) : Completed own headers := by
  unfold queryBody at h
  dsimp only at h
  obtain ⟨query, -, h⟩ := ok_of_bind h
  split at h
  · obtain ⟨rfl, -⟩ := Prod.mk.inj (Except.ok.inj h)
    exact completed_self own
  · obtain ⟨vars, -, h⟩ := ok_of_bind h
    obtain ⟨rfl, -⟩ := Prod.mk.inj (Except.ok.inj h)
    exact ((completed_self own).addHeader (by decide) _).addHeader (by decide) _

/-- A body adds headers behind those of the request, whatever its mode. -/
theorem completed_bodyText {body : Value} {own headers : List Header} {text : Option Text}
    (h : (bodyText body own).Yields (headers, text)) : Completed own headers := by
  unfold bodyText at h
  split at h
  · obtain ⟨rfl, -⟩ := Prod.mk.inj (yields_pure h)
    exact completed_self own
  obtain ⟨mode, -, h⟩ := yields_bind h
  split at h
  · exact completed_rawBody (yields_misfit h)
  split at h
  · exact completed_formBody (yields_misfit h)
  split at h
  · exact completed_queryBody (yields_misfit h)
  -- no known mode: the body is dropped, with or without a warning
  have hsame : (headers, text) = (own, none) := by
    dsimp only at h
    split at h
    · obtain ⟨-, -, h⟩ := yields_bind h
      exact (yields_pure h).symm
    · exact (yields_pure h).symm
  obtain ⟨rfl, -⟩ := Prod.mk.inj hsame
  exact completed_self headers

end Postman

/-! ## Request files -/

namespace Bruno

/-- What the first section of headers lists. -/
def headerPairs (sections : List Section) : List (Text × Text) :=
  ((named? sections "headers").map Section.pairs).getD []

/-- A pair whose key is not marked as switched off. -/
def IsOn (p : Text × Text) : Prop := p.1.head? ≠ some '~'

/-- The header that a pair stands for. -/
def headerOf (p : Text × Text) : Header := ⟨p.1, p.2⟩

/-- The headers that a file lists, and behind them its credentials. -/
theorem completed_headersOf (sections : List Section) (mode : Text) :
    ∃ own, Listed IsOn headerOf (headerPairs sections) own ∧ Completed own (headersOf sections mode) := by
  have hpicks : ∀ p : Text × Text, isOn p.1 = true ↔ IsOn p := fun p => by simp [isOn, IsOn]
  refine ⟨_, listed_filter hpicks headerOf (headerPairs sections), ?_⟩
  · unfold headersOf
    split
    · exact (completed_self _).addHeader (by decide) _
    · exact completed_self _

/-- Every type that is looked up goes with a header that a converter adds. -/
theorem completed_bodyOf {own headers : List Header} (h : Completed own headers) (sections : List Section)
    (mode : Text) : Completed own (bodyOf sections mode headers).1 := by
  unfold bodyOf
  split
  · exact h
  · next s hs =>
      have hquery : Completed own (if s.name = "body:graphql".toList then
          addHeader (addHeader headers "Accept" "application/json") "X-Request-Type" "GraphQL"
          else headers) := by
        split
        · exact (h.addHeader (by decide) _).addHeader (by decide) _
        · exact h
      dsimp only
      split
      · exact hquery
      · exact hquery.addHeader (by decide) _

end Bruno

/-! ## Main result -/

/-- A request with a header that is on, two that are off, and a query. -/
def Postman.queryItem : Value :=
  .dict [(.str "request", .dict [(.str "url", .str "http://a"),
    (.str "header", .list [formEntry ("content-type", "a/b"), entryOff,
      .dict [(.str "key", .str "k"), (.str "enabled", .bool false)]]),
    (.str "body", .dict [(.str "mode", .str "graphql"),
      (.str "graphql", .dict [(.str "query", .str "q")])])])]

/-- The block of the item: its type is not added again. -/
def Postman.queryBlock : Block where
  request := some {
    method := "GET"
    url := "http://a"
    headers := [⟨"content-type", "a/b"⟩, ⟨"X-Request-Type", "GraphQL"⟩]
    body := some "q" }

/-- Sections with a header that is on and one that is off, a token and a query. -/
def Bruno.querySections : List Bruno.Section := [
  ⟨"get", ["  url: http://a", "  auth: bearer"]⟩,
  ⟨"headers", ["  accept: x", "  ~k: y"]⟩,
  ⟨"auth:bearer", ["  token: t"]⟩,
  ⟨"body:graphql", ["  q"]⟩]

/-- The block of the file: what it accepts is not added again. -/
def Bruno.queryBlock : Bruno.OrderedBlock where
  place := Bruno.lastPlace
  file := "a.bru"
  block :=
    { request := some {
        method := "GET"
        url := "http://a"
        headers := [⟨"accept", "x"⟩, ⟨"Authorization", "Bearer t"⟩, ⟨"X-Request-Type", "GraphQL"⟩,
          ⟨"Content-Type", "application/json"⟩]
        body := some "q" } }

end HttpFile.Source
