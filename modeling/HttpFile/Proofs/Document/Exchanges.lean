import HttpFile.Proofs.Document.Settled

/-!
# `HttpFile.Proofs.Document.Exchanges` — what a file asks for

Of a document, its requests matter most: what is sent, how many scripts look at the response and where
it goes. Header keys count in the case of their version, and bodies without the blanks around them.
Where the text of a file is read, its exchanges are seen on the entries that are found.

## Contents
- **Exchanges.** `Exchange`, `Document.exchanges`; `exchange?_plain`: trimming bodies keeps them.
- **Of entries.** `exchangesOf`, `exchangesOf_asides`, `exchangesOf_node`.
- **Of a text.** `exchangesIn`, `parse_exchanges_iff`.
-/

namespace HttpFile

open Text Unicode Syntax

/-! ## Exchanges -/

/-- A request with what is done about its response. -/
structure Exchange where
  method : Text
  url : Text
  version : Text
  /-- Keys are in the case of the version. -/
  headers : List Header
  /-- The body without the blanks around it. -/
  body : Option Text
  /-- How many scripts run after the request. -/
  handlers : Nat
  redirect : Option Text
deriving DecidableEq, Repr

/-- The exchange of a request. -/
def Request.exchange (r : Request) (handlers : Nat) (redirect : Option Text) : Exchange :=
  { method := r.method
    url := r.url
    version := r.version
    headers := r.headers.map fun h => { h with key := headerKey h.key r.version }
    body := r.body.map strip
    handlers := handlers
    redirect := redirect }

/-- The exchange of a block, if it has a request. -/
def Block.exchange? (b : Block) : Option Exchange :=
  b.request.map (·.exchange b.postRequestScripts.length b.responseRedirect)

/-- The exchanges of a document, in order. -/
def Document.exchanges (d : Document) : List Exchange := d.blocks.filterMap Block.exchange?

theorem exchange_plain {r : Request} (h : r.Extracted {}) (handlers : Nat) (redirect : Option Text) :
    r.plain.exchange handlers redirect = r.exchange handlers redirect := by
  have hheaders : r.plain.headers.map (fun h => { h with key := headerKey h.key r.version }) =
      r.headers.map fun h => { h with key := headerKey h.key r.version } := by
    show (r.headers.map _).map _ = _
    rw [List.map_map]
    exact List.map_congr_left fun x hx => by simp [headerKey_idem (h.headers x hx).2.1]
  have hbody : r.plain.body.map strip = r.body.map strip := by
    unfold Request.plain Request.written
    cases hb : r.body with
    | none => rfl
    | some b =>
        have htrim : strip (strip b) = strip b := trimmed_strip b
        obtain ⟨c, hc, hsolid⟩ := (h.body b hb).1
        have hne : strip b ≠ [] := fun hnil => by
          rw [strip_eq_nil_iff.mp hnil c hc] at hsolid
          simp at hsolid
        simp [hne, htrim]
  unfold Request.exchange
  rw [hbody]
  exact congrArg (fun hs => (⟨_, _, _, hs, _, _, _⟩ : Exchange)) hheaders

/-- Trimming the body of a block does not change what it asks for. -/
theorem exchange?_plain {b : Block} (h : b.Extracted {}) : b.plain.exchange? = b.exchange? := by
  have hredirect : b.plain.responseRedirect = b.responseRedirect := redirect_settled h.responseRedirect
  unfold Block.exchange?
  rw [hredirect]
  show (b.request.map Request.plain).map _ = _
  cases hr : b.request with
  | none => rfl
  | some r => exact congrArg some (exchange_plain (h.request r hr) _ _)

/-! ## Of entries -/

/-- The exchange of a node. -/
def Syntax.RequestNode.exchange (n : RequestNode) : Exchange :=
  (Request.ofNode {} n).exchange n.handlers.length n.redirect?

/-- The exchanges of a list of entries. -/
def exchangesOf (es : List Entry) : List Exchange :=
  (group es).sections.filterMap fun x => x.2.request.map RequestNode.exchange

/-- An entry beside the requests of a file. -/
def Syntax.Entry.IsAside : Entry → Prop
  | .separator _ | .item _ => True
  | _ => False

/-- What stands beside requests asks for nothing. -/
theorem exchangesOf_asides {as : List Entry} (h : ∀ e ∈ as, e.IsAside) (es : List Entry) :
    exchangesOf (as ++ es) = exchangesOf es := by
  induction as with
  | nil => rfl
  | cons a as ih =>
      rw [← ih fun e he => h e (by simp [he])]
      cases a with
      | separator text => rfl
      | item i => rfl
      | _ => exact absurd (h _ List.mem_cons_self) id

/-- A request in front of sections is the first thing that is asked for. -/
theorem exchangesOf_node (n : RequestNode) {es : List Entry} {ss : List (Option Token × Section)}
    (h : group es = { after := ss }) : exchangesOf (n.entries ++ es) = n.exchange :: exchangesOf es := by
  have hgroup : group (n.entries ++ es) = { here := { request := some n }, after := ss } := by
    unfold group at h ⊢
    rw [List.foldr_append, h]
    exact foldr_node n rfl rfl
  unfold exchangesOf
  rw [hgroup, h]
  rfl

/-- The target of a request that was grouped is among the entries. -/
theorem target_mem {es : List Entry} {x : Option Token × Section} (hx : x ∈ (group es).sections)
    {n : RequestNode} (hn : x.2.request = some n) : .target n.target ∈ es := by
  induction es generalizing x n with
  | nil =>
      obtain rfl : x = (none, {}) := by simpa [group, Grouped.sections] using hx
      simp at hn
  | cons e es ih =>
      have hcons : (group (e :: es)).sections = ((group es).push e).sections := rfl
      rw [hcons] at hx
      have here : ∀ m, (group es).here.request = some m → .target m.target ∈ es :=
        fun m hm => ih (x := (none, (group es).here)) (by simp [Grouped.sections]) hm
      have after : ∀ y ∈ (group es).after, ∀ m, y.2.request = some m → .target m.target ∈ es :=
        fun y hy m hm => ih (by simp [Grouped.sections, hy]) hm
      -- only a target makes a request; any other entry leaves those that are there
      refine List.mem_cons.mpr ?_
      rcases List.mem_cons.mp hx with rfl | hx
      · cases e with
        | separator text => simp [Grouped.push] at hn
        | target t =>
            obtain rfl : { target := t, tail := (group es).tail } = n := by simpa [Grouped.push] using hn
            exact .inl rfl
        | method t =>
            obtain ⟨m, hm, rfl⟩ := Option.map_eq_some_iff.mp hn
            exact .inr (here m hm)
        | _ => exact .inr (here n hn)
      · cases e with
        | separator text =>
            rcases List.mem_cons.mp hx with rfl | hx
            · exact .inr (here n hn)
            · exact .inr (after x hx n hn)
        | _ => exact .inr (after x hx n hn)

/-! ## Of a text -/

/-- The exchanges that are read from a text. -/
def exchangesIn (t : Text) : Option (List Exchange) := (outline .lineStart t).map exchangesOf

/-- What stands beside requests in front of a text asks for nothing. -/
theorem exchangesIn_of_asides {t rest : Text} {as : List Entry} (has : ∀ e ∈ as, e.IsAside)
    (h : outline .lineStart t = (outline .lineStart rest).map (as ++ ·)) :
    exchangesIn t = exchangesIn rest := by
  unfold exchangesIn
  rw [h, Option.map_map]
  congr 1
  funext es
  exact exchangesOf_asides has es

theorem exchangesIn_of_aside {t rest : Text} {e : Entry}
    (h : outline .lineStart t = (outline .lineStart rest).map (e :: ·)) (he : e.IsAside) :
    exchangesIn t = exchangesIn rest :=
  exchangesIn_of_asides (fun _ hmem => List.mem_singleton.mp hmem ▸ he) h

theorem exchange?_ofSection (separator : Option Token) (s : Section) :
    (Block.ofSection {} separator s).exchange? = s.request.map RequestNode.exchange := by
  unfold Block.exchange? Block.ofSection
  cases s.request <;> rfl

theorem exchanges_ofEntries {t : Text} {es : List Entry} (h : outline .lineStart t = some es) :
    (Document.ofEntries {} es).exchanges = exchangesOf es := by
  obtain ⟨ts, hs, hes⟩ := scanned_outline h
  have hsections : (Document.ofEntries {} es).exchanges =
      (group es).sections.filterMap fun x => (Block.ofSection {} x.1 x.2).exchange? := by
    refine filterMap_ofSections {} fun x hx hempty => ?_
    rw [exchange?_ofSection]
    cases hn : x.2.request with
    | none => rfl
    | some n =>
        -- a request has a target, so its block is not empty
        have hmem := target_mem hx hn
        rw [← hes] at hmem
        obtain ⟨hkind, hsub⟩ := hs.kinds _ hmem
        have hholds := (hs.holds n.target (hsub (by simp [Entry.tokens]))).1
        rw [show n.target.kind = .target from hkind] at hholds
        have hurl := (Url.target?_fold hholds).2.2
        simp [Block.isEmpty, Block.ofSection, hn, Request.ofNode, hurl] at hempty
  rw [hsections]
  simp only [exchange?_ofSection]
  rfl

/-- **What the document of a file asks for is what is read from its text.** -/
theorem parse_exchanges_iff {source t : Text} {xs : List Exchange} :
    (∃ d, Document.parse {} source t = .ok d ∧ d.exchanges = xs) ↔
      exchangesIn (normalize t) = some xs := by
  unfold exchangesIn
  constructor
  · rintro ⟨d, hparse, rfl⟩
    obtain ⟨es, hes, rfl⟩ := outline_of_parse hparse
    rw [hes, exchanges_ofEntries hes]
    rfl
  · intro hread
    obtain ⟨es, hes, rfl⟩ := Option.map_eq_some_iff.mp hread
    exact ⟨_, parse_of_outline {} source hes, exchanges_ofEntries hes⟩

end HttpFile
