import HttpFile.Canonical
import HttpFile.Proofs.Body.Lasting
import HttpFile.Proofs.Document.Hush

/-!
# `HttpFile.Proofs.Document.Canonical` — when canonical text is canonical again

The canonical text of a file is the text of a settled document. Read anew it should give that
document, and settling that should change nothing. This module says exactly when it does: when every
part of the document is legible, and the formatters of its JSON and query bodies leave alone what they
gave, which can be told from the bodies of the file. Where a part is not legible the text is read as
something else, and its own canonical form may differ or not exist at all.

## Contents
- **Kinds.** `contentKind_written`: settled headers announce the same kind.
- **Settling again.** `settle_reread_iff`.
- **Legible documents.** `Document.Legible`, `Document.Stable`, `Document.Lasting`, `Document.Reproduced`;
  `stable_of_lasting`, `reproduced_iff`.
- **Canonical text.** `canonicalize_again`.
-/

namespace HttpFile

open Text Unicode Syntax

/-! ## Kinds -/

theorem find?_cased {hs : List Header} (h : ∀ x ∈ hs, ∀ c ∈ x.key, isHeaderKey c = true)
    (version key : Text) :
    ((hs.map fun x => { x with key := headerKey x.key version }).find? fun x =>
      sameIgnoringCase x.key key).map (·.value) =
      (hs.find? fun x => sameIgnoringCase x.key key).map (·.value) := by
  induction hs with
  | nil => rfl
  | cons x xs ih =>
      have hx : sameIgnoringCase (headerKey x.key version) key = sameIgnoringCase x.key key := by
        unfold sameIgnoringCase
        rw [lower_headerKey (h x (by simp))]
      rw [List.map_cons, List.find?_cons, List.find?_cons, hx]
      cases sameIgnoringCase x.key key with
      | true => rfl
      | false => exact ih fun y hy => h y (by simp [hy])

theorem header?_written {r : Request} (h : ∀ x ∈ r.headers, ∀ c ∈ x.key, isHeaderKey c = true) (w key : Text) :
    (r.written w).header? key = r.header? key :=
  find?_cased h r.version key

/-- Settled headers announce the same kind of body. -/
theorem contentKind_written {r : Request} (h : ∀ x ∈ r.headers, ∀ c ∈ x.key, isHeaderKey c = true) (w : Text) :
    contentKind (r.written w) = contentKind r := by
  unfold contentKind
  rw [header?_written h, header?_written h]

theorem Request.Sound.keyed {r : Request} (h : r.Sound) : ∀ x ∈ r.headers, ∀ c ∈ x.key, isHeaderKey c = true :=
  fun x hx => (h.headers x hx).2.1

/-! ## Settling again -/

/-- A request whose header keys are in the case of its version. -/
def Request.Cased (r : Request) : Prop := ∀ h ∈ r.headers, headerKey h.key r.version = h.key

theorem cased_written {r : Request} (h : r.Sound) (w : Text) : (r.written w).Cased := by
  intro x hx
  obtain ⟨y, hy, rfl⟩ := List.mem_map.mp hx
  exact headerKey_idem (h.headers y hy).2.1 r.version

theorem strip_reread {r : Request} (h : r.Writable) {ending : Text} (he : ∀ c ∈ ending, isBlank c = true) :
    strip ((r.reread ending).body.getD []) = r.body.getD [] := by
  unfold Request.reread
  cases hb : r.body with
  | none => rfl
  | some w => exact (strip_append_blank w he).trans (h.body w hb).1

theorem written_reread {r : Request} (h : r.Writable) (hc : r.Cased) (ending : Text) :
    (r.reread ending).written (r.body.getD []) = r := by
  have hheaders : r.headers.map (fun h => { h with key := headerKey h.key r.version }) = r.headers := by
    conv => rhs; rw [← List.map_id r.headers]
    exact List.map_congr_left fun x hx => by rw [hc x hx]; rfl
  have hkind := h.bodyKind
  have hbody := h.body
  obtain ⟨method, url, version, headers, body, bodyKind⟩ := r
  simp only at hheaders hkind hbody
  cases body with
  | none => simp [Request.written, Request.reread, hheaders, hkind]
  | some w =>
      have hne : w.isEmpty = false := by simpa using (hbody w rfl).2
      simp [Request.written, Request.reread, hheaders, hkind, hne]

/-- A request that was read back settles to what was written exactly when its body is formatted once
    and for all. -/
theorem Request.settle_reread_iff {r : Request} (h : r.Writable) (hc : r.Cased) {ending : Text}
    (he : ∀ c ∈ ending, isBlank c = true) (reformat : Bool) :
    (r.reread ending).settle reformat = .ok r ↔
      ∀ w ∈ r.body, reformat = true → formatAs (contentKind r) w = .ok (letters w) := by
  have hkind : contentKind (r.reread ending) = contentKind r := rfl
  have hstrip := strip_reread h he
  have hwritten := written_reread h hc ending
  -- what a body is formatted to shows in the settled request
  have hsettle : ∀ v, (r.reread ending).written v = r → v = r.body.getD [] := by
    intro v hv
    have hbody : (if v.isEmpty then none else some v) = r.body := congrArg Request.body hv
    rw [← hbody]
    cases v <;> rfl
  have hsettled : (r.reread ending).settle reformat = .ok r ↔
      (r.reread ending).bodyText reformat = .ok (letters (r.body.getD [])) := by
    unfold Request.settle
    rw [← settledBody_eq_ok]
    cases (r.reread ending).settledBody reformat with
    | error e => simp [Except.map]
    | ok v =>
        simp only [Except.map, Except.ok.injEq]
        exact ⟨hsettle v, fun hv => hv ▸ hwritten⟩
  rw [hsettled]
  unfold Request.bodyText formatBody
  cases reformat with
  | false => simp only [Bool.false_eq_true, if_false, false_implies, implies_true, hstrip]
  | true =>
      simp only [if_true, true_implies, hstrip, hkind]
      cases hb : r.body with
      | none => exact iff_of_true rfl (by simp)
      | some w =>
          obtain ⟨-, hne⟩ := h.body w hb
          obtain ⟨c, w, rfl⟩ := List.exists_cons_of_ne_nil hne
          simp only [Option.getD_some, Option.mem_def, Option.some.injEq, forall_eq']

theorem map_eq_self_iff {α : Type} {f : α → α} {xs : List α} : xs.map f = xs ↔ ∀ x ∈ xs, f x = x := by
  conv => lhs; rhs; rw [← List.map_id xs]
  exact List.map_inj_left

/-- What is written around a request is not changed by settling. -/
theorem written_reread_block {b : Block} (h : b.Writable) (ending : Text) (request : Option Request) :
    (b.reread ending).written request = b ↔
      request = b.request ∧ (∀ s ∈ b.preRequestScripts, s.reread = s) ∧
        ∀ s ∈ b.postRequestScripts, s.reread = s := by
  have hseparator : b.separatorText.filter (· ≠ []) = b.separatorText := by
    cases hs : b.separatorText with
    | none => rfl
    | some x => simp [(h.separatorText x hs).2]
  have hcomments : b.comments.map normalizeComment = b.comments :=
    map_eq_self_iff.mpr fun c hc => normalizeComment_eq_self (h.comments c hc).1.1 (h.comments c hc).2.1
  have hredirect := redirect_settled h.responseRedirect
  rw [← map_eq_self_iff, ← map_eq_self_iff]
  obtain ⟨separator, comments, metadata, request', pre, post, redirect⟩ := b
  simp only at hseparator hcomments hredirect
  simp only [Block.written, Block.reread, hseparator, hcomments, hredirect, Block.mk.injEq, true_and,
    and_true]

/-- A block that was read back settles to what was written exactly when its scripts came back and its
    body is formatted once and for all. -/
theorem Block.settle_reread_iff {b : Block} (h : b.Writable) (hc : ∀ r ∈ b.request, r.Cased)
    {ending : Text} (he : ∀ c ∈ ending, isBlank c = true) (reformat : Bool) :
    (b.reread ending).settle reformat = .ok b ↔
      ((∀ s ∈ b.preRequestScripts, s.reread = s) ∧ ∀ s ∈ b.postRequestScripts, s.reread = s) ∧
        ∀ r ∈ b.request, ∀ w ∈ r.body, reformat = true → formatAs (contentKind r) w = .ok (letters w) := by
  have hblock := written_reread_block h ending
  unfold Block.settle
  cases hr : b.request with
  | none =>
      have hnone : (b.reread ending).request = none := by simp [Block.reread, hr]
      rw [hr] at hblock
      simp [hnone, hblock]
  | some r =>
      have hsome : (b.reread ending).request = some (r.reread ending) := by simp [Block.reread, hr]
      have hrequest := Request.settle_reread_iff (h.request r hr) (hc r hr) he reformat
      rw [hr] at hblock
      simp only [Option.mem_def] at hrequest
      simp only [hsome, Option.mem_def, Option.some.injEq, forall_eq']
      rw [← hrequest]
      cases (r.reread ending).settle reformat with
      | error e => simp [Except.map]
      | ok r' => simp [Except.map, hblock, and_comm]

theorem settle_rereadBlocks_iff {bs : List Block} (h : ∀ b ∈ bs, b.Writable)
    (hc : ∀ b ∈ bs, ∀ r ∈ b.request, r.Cased) (reformat : Bool) :
    (rereadBlocks bs).mapM (Block.settle reformat) = .ok bs ↔
      ∀ b ∈ bs, ((∀ s ∈ b.preRequestScripts, s.reread = s) ∧ ∀ s ∈ b.postRequestScripts, s.reread = s) ∧
        ∀ r ∈ b.request, ∀ w ∈ r.body, reformat = true → formatAs (contentKind r) w = .ok (letters w) := by
  induction bs with
  | nil => exact iff_of_true rfl (by simp)
  | cons b bs ih =>
      have hrest := ih (fun b' hb' => h b' (by simp [hb'])) fun b' hb' => hc b' (by simp [hb'])
      have hblock := Block.settle_reread_iff (h b (by simp)) (hc b (by simp)) (blank_ending b bs) reformat
      rw [List.forall_mem_cons, ← hblock, ← hrest, rereadBlocks, List.mapM_cons]
      cases (b.reread (b.ending bs)).settle reformat with
      | error e => simp [bind, Except.bind]
      | ok b' =>
          cases (rereadBlocks bs).mapM (Block.settle reformat) with
          | error e => simp [bind, Except.bind]
          | ok bs' => simp [bind, Except.bind, pure, Except.pure]

/-- **What was read back settles to what was written exactly when scripts come back and bodies are
    formatted once and for all.** -/
theorem settle_reread_iff {d : Document} (h : d.Writable) (hc : ∀ b ∈ d.blocks, ∀ r ∈ b.request, r.Cased)
    (reformat : Bool) :
    d.reread.settle reformat = .ok d ↔
      ∀ b ∈ d.blocks,
        ((∀ s ∈ b.preRequestScripts, s.reread = s) ∧ ∀ s ∈ b.postRequestScripts, s.reread = s) ∧
        ∀ r ∈ b.request, ∀ w ∈ r.body, reformat = true → formatAs (contentKind r) w = .ok (letters w) := by
  have hblocks := settle_rereadBlocks_iff (fun b hb => (h.blocks b hb).2) hc reformat
  rw [← hblocks]
  obtain ⟨declarations, blocks⟩ := d
  unfold Document.settle Document.reread
  cases (rereadBlocks blocks).mapM (Block.settle reformat) with
  | error e => simp [Except.map]
  | ok bs => simp [Except.map]

/-! ## Legible documents -/

/-- A settled document that is read back as it is written: no comment opens a section, the lines of
    inline code are steady, no line of a body ends it, and nothing below a path that starts like inline
    code closes it. -/
structure Document.Legible (d : Document) : Prop where
  comments : ∀ b ∈ d.blocks, ∀ c ∈ b.comments, ¬['#', '#', '#'] <+: c
  scripts : ∀ b ∈ d.blocks, ∀ code, .inline code ∈ b.preRequestScripts ∨
    .inline code ∈ b.postRequestScripts → ∀ f ∈ fieldsAt '\n' code, Steady f
  bodies : ∀ b ∈ d.blocks, ∀ r ∈ b.request, ∀ w ∈ r.body, Inert w ∧ '\r' ∉ w
  hushed : Hushed d.entries

/-- A settled document whose JSON and query bodies are left alone by their formatters. -/
def Document.Stable (d : Document) (reformat : Bool) : Prop :=
  ∀ b ∈ d.blocks, ∀ r ∈ b.request, ∀ w ∈ r.body, reformat = true →
    contentKind r = .json ∨ contentKind r = .graphql → formatAs (contentKind r) w = .ok (letters w)

/-- A document whose bodies are formatted once and for all. -/
def Document.Lasting (d : Document) : Prop :=
  ∀ b ∈ d.blocks, ∀ r ∈ b.request, ∀ x ∈ r.body, LastingBody (strip x) (contentKind r)

/-- A settled document that is reproduced from its text: the text is read as the entries that the
    document was written as, and they settle to the document. -/
def Document.Reproduced (d : Document) (reformat : Bool) : Prop :=
  outline .lineStart (normalize d.text) = some d.entries ∧
    (Document.ofEntries {} d.entries).settle reformat = .ok d

theorem section_subset {bs : List Block} {b : Block} (h : b ∈ bs) :
    ∃ rest, (b.section (bodyEnd rest)).entries ⊆
      (sectionsOf bs).flatMap fun (text, s) => Entry.separator text :: s.entries := by
  induction bs with
  | nil => simp at h
  | cons b' bs ih =>
      rw [sectionsOf, List.flatMap_cons]
      rcases List.mem_cons.mp h with rfl | h
      · exact ⟨_, fun e he => List.mem_append_left _ (List.mem_cons_of_mem _ he)⟩
      · obtain ⟨rest, hsub⟩ := ih h
        exact ⟨rest, fun e he => List.mem_append_right _ (hsub he)⟩

/-- What is read as the entries of a document says that the document is legible, scripts aside. -/
theorem legible_of_outline {d : Document} (h : outline .lineStart (normalize d.text) = some d.entries) :
    (∀ b ∈ d.blocks, ∀ c ∈ b.comments, ¬['#', '#', '#'] <+: c) ∧
      (∀ b ∈ d.blocks, ∀ r ∈ b.request, ∀ w ∈ r.body, Inert w ∧ '\r' ∉ w) ∧ Hushed d.entries := by
  obtain ⟨ts, hs, hes⟩ := scanned_outline h
  have token : ∀ e ∈ d.entries, ∀ t ∈ e.tokens, t.kind.Holds t.lexeme ∧ t.lexeme <:+: normalize d.text := by
    intro e he t ht
    rw [← hes] at he
    exact hs.holds t ((hs.kinds e he).2 ht)
  have block : ∀ b ∈ d.blocks, ∃ rest, (b.section (bodyEnd rest)).entries ⊆ d.entries := by
    intro b hb
    obtain ⟨rest, hsub⟩ := section_subset hb
    exact ⟨rest, fun e he => List.mem_append_right _ (hsub he)⟩
  refine ⟨fun b hb c hc => ?_, fun b hb r hr w hw => ?_, hes ▸ hs.hushed⟩
  · obtain ⟨rest, hsub⟩ := block b hb
    have hitem : Item.comment (Token.bare .comment c) ∈ b.items :=
      List.mem_append_left _ (List.mem_map.mpr ⟨c, hc, rfl⟩)
    have hmem : Entry.item (.comment (Token.bare .comment c)) ∈ (b.section (bodyEnd rest)).entries :=
      List.mem_append_left _ (List.mem_map.mpr ⟨_, hitem, rfl⟩)
    have hholds := (token _ (hsub hmem) (Token.bare .comment c) (by simp [Entry.tokens])).1
    exact hholds.2.2.1
  · obtain ⟨rest, hsub⟩ := block b hb
    have hmem : Entry.body (Token.bare (announced w) (w ++ bodyEnd rest)) ∈
        (b.section (bodyEnd rest)).entries := by
      have hr' : b.request = some r := hr
      have hw' : r.body = some w := hw
      simp [Section.entries, Block.section, hr', RequestNode.entries, RequestTail.entries, Request.node, hw']
    obtain ⟨hholds, hin⟩ := token _ (hsub hmem) (Token.bare (announced w) (w ++ bodyEnd rest))
      (by simp [Entry.tokens])
    have hinert := (Terminal.Holds.body (isBody_announced w) hholds).1
    -- the lexeme of a body goes on behind its text, with a newline first
    obtain ⟨v, hv⟩ : ∃ v, bodyEnd rest = '\n' :: v := by
      unfold bodyEnd
      split <;> exact ⟨_, rfl⟩
    rw [Token.bare_lexeme, hv] at hinert
    refine ⟨(Inert.append_iff.mp hinert).1, fun hm => carriage_notMem_normalize d.text (hin.subset ?_)⟩
    simp [hm]

theorem hushed_blocks {d : Document} (h : Hushed d.entries) :
    Hushed ((sectionsOf d.blocks).flatMap fun (text, s) => .separator text :: s.entries) :=
  (List.pairwise_append.mp h).2.1

/-- The scripts of a block come back exactly when the lines of inline code are steady. -/
theorem reread_scripts_iff {b : Block} (h : b.Writable) :
    ((∀ s ∈ b.preRequestScripts, s.reread = s) ∧ ∀ s ∈ b.postRequestScripts, s.reread = s) ↔
      ∀ code, .inline code ∈ b.preRequestScripts ∨ .inline code ∈ b.postRequestScripts →
        ∀ f ∈ fieldsAt '\n' code, Steady f := by
  constructor
  · rintro ⟨hpre, hpost⟩ code (hc | hc)
    · exact (Script.reread_eq_iff (h.preRequestScripts _ hc)).mp (hpre _ hc) code rfl
    · exact (Script.reread_eq_iff (h.postRequestScripts _ hc)).mp (hpost _ hc) code rfl
  · intro hsteady
    refine ⟨fun s hs => ?_, fun s hs => ?_⟩
    · refine (Script.reread_eq_iff (h.preRequestScripts s hs)).mpr ?_
      rintro code rfl
      exact hsteady code (.inl hs)
    · refine (Script.reread_eq_iff (h.postRequestScripts s hs)).mpr ?_
      rintro code rfl
      exact hsteady code (.inr hs)

/-- The requests of a settled document. -/
theorem settle_requests {reformat : Bool} {d e : Document} (hs : d.settle reformat = .ok e) :
    ∀ b ∈ e.blocks, ∀ r ∈ b.request, ∃ b₀ ∈ d.blocks, ∃ r₀ ∈ b₀.request, ∃ w : Text,
      r₀.bodyText reformat = .ok (letters w) ∧ r = r₀.written w := by
  intro b hb r hr
  obtain ⟨b₀, hb₀, hsettle⟩ := exists_of_forall₂ (settle_blocks hs).2 hb
  rcases Block.settle_cases hsettle with ⟨-, rfl⟩ | ⟨r₀, w, hreq, hw, rfl⟩
  · simp [Block.written] at hr
  · obtain rfl : r₀.written w = r := by simpa [Block.written] using hr
    exact ⟨b₀, hb₀, r₀, hreq, w, hw, rfl⟩

theorem Document.Extracted.sound {d : Document} (h : d.Extracted {}) {b : Block} (hb : b ∈ d.blocks) {r : Request}
    (hr : r ∈ b.request) : r.Sound := ((h.blocks b hb).2.request r hr).sound

theorem settle_cased {reformat : Bool} {d e : Document} (h : d.Extracted {}) (hs : d.settle reformat = .ok e) :
    ∀ b ∈ e.blocks, ∀ r ∈ b.request, r.Cased := by
  intro b hb r hr
  obtain ⟨b₀, hb₀, r₀, hr₀, w, -, rfl⟩ := settle_requests hs b hb r hr
  exact cased_written (h.sound hb₀ hr₀) w

/-- A body that is formatted once and for all is settled with its request, if the headers of the settled one announce
    the same. -/
theorem formatAs_settled {r₀ : Request} {v : Text} (hkind : contentKind (r₀.written v) = contentKind r₀)
    (hv : r₀.bodyText true = .ok (letters v)) (hlasts : ∀ x ∈ r₀.body, LastingBody (strip x) (contentKind r₀)) {w : Text}
    (hw : w ∈ (r₀.written v).body) : formatAs (contentKind (r₀.written v)) w = .ok (letters w) := by
  obtain ⟨hne, rfl⟩ : v ≠ [] ∧ v = w := by
    cases v with
    | nil => simp [Request.written] at hw
    | cons c v => exact ⟨by simp, by simpa [Request.written] using hw⟩
  rw [hkind]
  unfold Request.bodyText formatBody at hv
  rw [if_pos rfl] at hv
  have hnil : (Except.ok [] : Except FormatError Wide) ≠ .ok (letters v) := fun h =>
    hne (List.map_eq_nil_iff.mp (Except.ok.inj h).symm)
  cases hb : r₀.body with
  | none =>
      rw [hb] at hv
      exact absurd hv hnil
  | some x =>
      rw [hb, Option.getD_some] at hv
      split at hv
      · exact absurd hv hnil
      · exact formatAs_again (hlasts x hb) hv

/-- Where the bodies of a file are formatted once and for all, those of the settled document are left alone. -/
theorem stable_of_lasting {reformat : Bool} {d e : Document} (h : d.Extracted {}) (hs : d.settle reformat = .ok e)
    (hlasts : d.Lasting) : e.Stable reformat := by
  intro b hb r hr w hw hreformat _
  subst hreformat
  obtain ⟨b₀, hb₀, r₀, hr₀, v, hv, rfl⟩ := settle_requests hs b hb r hr
  exact formatAs_settled (contentKind_written (h.sound hb₀ hr₀).keyed v) hv (hlasts b₀ hb₀ r₀ hr₀) hw

/-- **A settled document is reproduced from its text exactly when it is legible and the formatters of
    its JSON and query bodies leave them alone.** -/
theorem reproduced_iff {reformat : Bool} {d e : Document} (h : d.Extracted {})
    (hs : d.settle reformat = .ok e) : e.Reproduced reformat ↔ e.Legible ∧ e.Stable reformat := by
  have hw := settle_writable h hs
  have hagain := settle_reread_iff hw (settle_cased h hs) reformat
  unfold Document.Reproduced
  rw [ofEntries_entries {} hw, hagain]
  constructor
  · rintro ⟨houtline, hblocks⟩
    obtain ⟨hcomments, hbodies, hhushed⟩ := legible_of_outline houtline
    refine ⟨⟨hcomments, fun b hb => ?_, hbodies, hhushed⟩, fun b hb r hr w hbody hr' _ => ?_⟩
    · exact (reread_scripts_iff (hw.blocks b hb).2).mp (hblocks b hb).1
    · exact (hblocks b hb).2 r hr w hbody hr'
  · rintro ⟨hlegible, hstable⟩
    have hquiet := quietBlocks_of_hushed (fun b hb => (hw.blocks b hb).2) (hushed_blocks hlegible.hushed)
    have houtline := outline_document hw hlegible.comments
      (fun b hb r hr w hbody => (hlegible.bodies b hb r hr w hbody).1) hquiet
    have hnormal := normalize_text hw fun b hb r hr w hbody => (hlegible.bodies b hb r hr w hbody).2
    refine ⟨by rw [hnormal]; exact houtline, fun b hb => ⟨?_, fun r hr w hbody hr' => ?_⟩⟩
    · exact (reread_scripts_iff (hw.blocks b hb).2).mpr (hlegible.scripts b hb)
    · subst hr'
      obtain ⟨b₀, hb₀, r₀, hr₀, v, hv, rfl⟩ := settle_requests hs b hb r hr
      have hkind := contentKind_written (h.sound hb₀ hr₀).keyed v
      -- bodies of the other kinds were formatted when the document was settled
      by_cases hstrict : contentKind (r₀.written v) = .json ∨ contentKind (r₀.written v) = .graphql
      · exact hstable b hb _ hr w hbody rfl hstrict
      · refine formatAs_settled hkind hv (fun x _ => ?_) hbody
        rw [hkind] at hstrict
        cases hk : contentKind r₀ with
        | json => exact absurd (Or.inl hk) hstrict
        | graphql => exact absurd (Or.inr hk) hstrict
        | form => trivial
        | raw => trivial

/-! ## Canonical text -/

/-- A canonical form with halves is no text. -/
theorem text?_of_halves {defaults : Defaults} {reformat : Bool} {source t : Text} {w : Wide}
    (h : canonicalize defaults reformat source t = .error (.halves w)) : Word.text? w = none := by
  unfold canonicalize at h
  split at h
  · cases h
  · split at h
    · cases h
    · split at h
      · cases h
      · next hw =>
          cases h
          exact hw

theorem canonicalize_eq_ok {defaults : Defaults} {reformat : Bool} {source t c : Text} :
    canonicalize defaults reformat source t = .ok c ↔
      ∃ d e, Document.parse defaults source t = .ok d ∧ d.settle reformat = .ok e ∧ c = e.text := by
  have hrender : canonicalize defaults reformat source t = .ok c ↔
      ∃ d, Document.parse defaults source t = .ok d ∧ d.render reformat = .ok (letters c) := by
    unfold canonicalize
    cases Document.parse defaults source t with
    | error f => simp
    | ok d =>
        simp only [Except.ok.injEq, exists_eq_left']
        cases d.render reformat with
        | error f => simp
        | ok w =>
            rw [Except.ok.injEq]
            exact elim_text?_eq_ok
  simp only [hrender, render_eq_ok]
  constructor
  · rintro ⟨d, hparse, e, hsettle, rfl⟩
    exact ⟨d, e, hparse, hsettle, rfl⟩
  · rintro ⟨d, e, hparse, hsettle, rfl⟩
    exact ⟨d, hparse, e, hsettle, rfl⟩

/-- **When canonical text is canonical again.** The canonical text of a file is the text of a settled
    document. The document is reproduced from the text exactly when it is legible and the formatters of
    its JSON and query bodies leave them alone, as they do where the bodies of the file are formatted once
    and for all; and then the text is its own canonical form. -/
theorem canonicalize_again {reformat : Bool} {source t c : Text}
    (h : canonicalize {} reformat source t = .ok c) :
    ∃ d e, Document.parse {} source t = .ok d ∧ d.settle reformat = .ok e ∧ c = e.text ∧
      (e.Reproduced reformat ↔ e.Legible ∧ e.Stable reformat) ∧ (d.Lasting → e.Stable reformat) ∧
      (e.Reproduced reformat → canonicalize {} reformat source c = .ok c) := by
  obtain ⟨d, e, hparse, hsettle, rfl⟩ := canonicalize_eq_ok.mp h
  have hextracted := extracted_of_parse hparse
  refine ⟨d, e, hparse, hsettle, rfl, reproduced_iff hextracted hsettle, stable_of_lasting hextracted hsettle, ?_⟩
  rintro ⟨houtline, hagain⟩
  exact canonicalize_eq_ok.mpr ⟨_, e, parse_of_outline {} source houtline, hagain, rfl⟩

instance (d : Document) (reformat : Bool) : Decidable (d.Reproduced reformat) := inferInstanceAs (Decidable (_ ∧ _))

/-- A file with a form and with JSON around a placeholder. -/
def lastingFile : Text :=
  "// note\nGET a?b=1&c=2\ncontent-type: application/x-www-form-urlencoded\n\nx=1&y=2\n" ++
    "### json\nPOST b\ncontent-type: application/json\n\n[\x7b\x7bx\x7d\x7d]\n"

/-- The file in canonical form. -/
def lastingLines : Text :=
  "###\n\n# note\nGET a\n  ?b=1\n  &c=2 HTTP/1.1\nContent-Type: application/x-www-form-urlencoded\n\nx=1\n&y=2\n" ++
    "\n### json\n\nPOST b HTTP/1.1\nContent-Type: application/json\n\n[\n  \x7b\x7bx\x7d\x7d\n]\n"

/-- The settled document of the file is reproduced from the canonical text, and the second pass returns the text. -/
theorem canonicalize_again_example :
    canonicalize {} true [] lastingFile = .ok lastingLines ∧
      ∃ d e, Document.parse {} [] lastingFile = .ok d ∧ d.settle true = .ok e ∧ lastingLines = e.text ∧
        e.Reproduced true ∧ e.Legible ∧ e.Stable true ∧ canonicalize {} true [] lastingLines = .ok lastingLines := by
  have hpass : canonicalize {} true [] lastingFile = .ok lastingLines := by decide +kernel
  have hdecided : ((Document.parse {} [] lastingFile).toOption.bind fun d => (d.settle true).toOption).map
      (fun e => decide (e.Reproduced true)) = some true := by decide +kernel
  obtain ⟨d, e, hparse, hsettle, htext, hiff, -, hagain⟩ := canonicalize_again hpass
  rw [hparse] at hdecided
  have hsettled : (d.settle true).toOption = some e := congrArg Except.toOption hsettle
  have hreproduced : e.Reproduced true := by
    rw [show (Except.ok d : Except ParseFailure Document).toOption = some d from rfl, Option.bind_some, hsettled]
      at hdecided
    exact of_decide_eq_true (Option.some.inj hdecided)
  exact ⟨hpass, d, e, hparse, hsettle, htext, hreproduced, (hiff.mp hreproduced).1, (hiff.mp hreproduced).2,
    hagain hreproduced⟩

/-- A body whose first line is indented ends where it starts once it is trimmed. -/
theorem canonicalize_again_fails :
    let c : Text := "###\n\nGET a HTTP/1.1\n\n### x\n"
    canonicalize {} false [] "GET a\n\n ### x\n" = .ok c ∧
      canonicalize {} false [] c = .ok "###\n\nGET a HTTP/1.1\n" := by
  decide +kernel

end HttpFile
