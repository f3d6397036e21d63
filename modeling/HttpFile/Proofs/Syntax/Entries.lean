import HttpFile.Proofs.Body.Lines
import HttpFile.Proofs.Syntax.Structure
import HttpFile.Proofs.Url.Fold

/-!
# `HttpFile.Proofs.Syntax.Entries` — what the entries of a scan are

The place where a token stands and the order in which kinds are tried say more about it than its kind
alone. A comment does not open metadata, for the mark of metadata is tried first. The path of a
script may start like inline code only if nothing behind it closes the code, for inline code is tried
first. This module carries such facts through a scan, from single tokens to the entries that are made
of them.

## Contents
- **Lexemes.** `Terminal.Holds`, `holds_of_lexeme?`: what the lexeme of a kind is.
- **Order.** `Context.lexeme?_first`: a kind that is found was not preceded by another.
- **Entries.** `Entry.tokens`, `Entry.Kinds`, `Entry.IsOpen`, `Entry.Free`.
- **The invariant.** `Scanned`; `Scanned.cons` for a step, `scanned` for a run.
-/

namespace HttpFile.Syntax

open Text Unicode

/-! ## Lexemes -/

/-- What the lexeme of a kind is, as far as documents depend on it. -/
def Terminal.Holds : Terminal → Text → Prop
  | .identifier, l => identifier? l = some l
  | .value, l | .path, l => Trimmed l ∧ '\n' ∉ l ∧ l ≠ []
  | .separatorText, l => '\n' ∉ l
  | .comment, l =>
    (['#'] <+: l ∨ ['/', '/'] <+: l) ∧ '\n' ∉ l ∧ ¬['#', '#', '#'] <+: l ∧ metadataMark? l = none
  | .script, l => ∃ code, l = '{' :: '%' :: (code ++ closing) ∧ occursIn closing (code ++ ['%']) = false
  | .redirect, l => Trimmed l ∧ '\n' ∉ l ∧ ['>', '>'] <+: l
  | .method, l => l ∈ methods.map String.toList
  | .target, l => target? l = some l
  | .version, l => version? l = some l
  | .header, l =>
    ∃ key g v, key ≠ [] ∧ (∀ c ∈ key, isHeaderKey c = true) ∧ (∀ c ∈ g, isGap c = true) ∧
      '\n' ∉ v ∧ l = key ++ g ++ ':' :: v
  | k, l => k.isBody = true → Inert l ∧ ∃ c ∈ l, isBlank c = false

theorem Terminal.Holds.body {k : Terminal} {l : Text} (hk : k.isBody = true) (h : k.Holds l) :
    Inert l ∧ ∃ c ∈ l, isBlank c = false := by
  cases k with
  | formBody | jsonBody | graphqlBody | xmlBody | externalBody | rawBody => exact h rfl
  | _ => simp [Terminal.isBody] at hk

theorem comment_holds {t l : Text} (h : comment? t = some l) (hm : metadataMark? t = none) :
    Terminal.comment.Holds l := by
  obtain ⟨mark, rest, hmark, rfl, hno⟩ := comment?_spec h
  have hp := firstLine_isPrefix t
  refine ⟨?_, newline_notMem_firstLine t, fun h3 => hno (h3.trans hp), ?_⟩
  · obtain ⟨rfl, rfl | rfl⟩ := commentMark?_spec hmark
    · exact .inl (prefix_firstLine (by decide) (List.prefix_append _ _))
    · exact .inr (prefix_firstLine (by decide) (List.prefix_append _ _))
  · cases hs : metadataMark? (firstLine t) with
    | none => rfl
    | some m =>
        rw [metadataMark?_of_isPrefix hp hs] at hm
        simp at hm

theorem redirect_holds {t l : Text} (h : redirect? t = some l) : Terminal.redirect.Holds l := by
  obtain ⟨⟨r, rfl⟩, rfl, -⟩ := redirect?_spec h
  have hg : isBlank '>' = false := by decide
  have hf : firstLine (['>', '>'] ++ r) = '>' :: '>' :: firstLine r := by simp [firstLine]
  obtain ⟨-, hn, hs⟩ := stripRight_firstLine_spec (['>', '>'] ++ r)
  rw [hf, stripRight_cons _ hg, stripRight_cons _ hg] at hn hs ⊢
  refine ⟨Trimmed.of_cons hg ?_, hn, ⟨_, rfl⟩⟩
  rw [stripRight_cons _ hg] at hs
  exact List.cons.inj hs |>.2

theorem header_holds {t l : Text} (h : header? t = some l) : Terminal.header.Holds l := by
  obtain ⟨key, g, rest, hne, hkey, hg, rfl, rfl⟩ := header?_spec h
  refine ⟨key, g, firstLine rest, hne, hkey, hg, newline_notMem_firstLine rest, ?_⟩
  have hline : ∀ c ∈ key ++ g ++ [':'], (decide (c ≠ '\n')) = true := by
    intro c hc
    rw [decide_eq_true_eq]
    rintro rfl
    rcases List.mem_append.mp hc with hc | hc
    · rcases List.mem_append.mp hc with hc | hc
      · exact absurd (hkey _ hc) (by decide)
      · exact absurd (hg _ hc) (by decide)
    · exact absurd hc (by decide)
  have ht : key ++ g ++ ':' :: rest = key ++ g ++ [':'] ++ rest := by simp
  rw [firstLine, ht, List.takeWhile_append_of_pos hline]
  simp [firstLine]

/-- The lexeme of a kind is what the kind holds. -/
theorem holds_of_lexeme? {k : Terminal} {t l : Text} (h : k.lexeme? t = some l)
    (hm : k = .comment → metadataMark? t = none) : k.Holds l := by
  have value : value? t = some l → Trimmed l ∧ '\n' ∉ l ∧ l ≠ [] := by
    intro hv
    obtain ⟨ht, hn, hne, -⟩ := value?_trimmed hv
    exact ⟨ht, hn, hne⟩
  cases k with
  | identifier => exact identifier?_self h
  | value => exact value h
  | path => exact value h
  | separatorText =>
      obtain ⟨rfl, -⟩ := trimmedLine?_spec h
      exact (stripRight_firstLine_spec t).2.1
  | comment => exact comment_holds h (hm rfl)
  | script =>
      obtain ⟨code, -, -, hl, hno⟩ := script?_spec h
      exact ⟨code, hl, hno⟩
  | redirect => exact redirect_holds h
  | method => exact (method?_spec h).1
  | target => exact target?_self h
  | version => exact version?_self h
  | header => exact header_holds h
  | formBody => exact fun hk => body_spec hk h
  | jsonBody => exact fun hk => body_spec hk h
  | graphqlBody => exact fun hk => body_spec hk h
  | xmlBody => exact fun hk => body_spec hk h
  | externalBody => exact fun hk => body_spec hk h
  | rawBody => exact fun hk => body_spec hk h
  | endOfLine | gap | separatorMark | variableMark | assign | metadataMark | preRequestMark
  | handlerMark => exact fun hk => absurd hk (by decide)

/-! ## Order -/

/-- None of the kinds that are tried before the one that is found covers the text. -/
theorem Context.lexeme?_first {place : Context} {t l : Text} {k k' : Terminal}
    (h : place.lexeme? t = some (k, l))
    (hk : k' ∈ (Terminal.all.filter place.seeks).takeWhile (· ≠ k)) : k'.lexeme? t = none := by
  unfold Context.lexeme? firstLexeme? at h
  obtain ⟨before, a, after, hlist, ha, hbefore⟩ := List.findSome?_eq_some_iff.mp h
  obtain ⟨l', hl', he⟩ := Option.map_eq_some_iff.mp ha
  injection he with hak _
  subst hak
  have hnone : ∀ x ∈ before, x.lexeme? t = none := fun x hx => Option.map_eq_none_iff.mp (hbefore x hx)
  have hall : ∀ x ∈ before, decide (x ≠ a) = true := by
    intro x hx
    rw [decide_eq_true_eq]
    rintro rfl
    rw [hnone x hx] at hl'
    simp at hl'
  rw [hlist, takeWhile_append_stop hall (by simp)] at hk
  exact hnone k' hk

/-- Inline code was tried before a path was read, so a path that starts like it is not closed, neither
    on its line nor below. -/
theorem free_of_open_path {place : Context} {l rest : Text}
    (h : place.lexeme? (l ++ rest) = some (.path, l)) (ho : ['{', '%'] <+: l) :
    occursIn closing (l.drop 2) = false ∧ occursIn closing rest = false := by
  have hs := (Context.lexeme?_spec h).2
  have hno : Terminal.script.lexeme? (l ++ rest) = none := by
    refine Context.lexeme?_first h ?_
    cases place with
    | preRequestSource | handlerSource => decide
    | _ => exact absurd hs (by decide)
  obtain ⟨u, rfl⟩ := ho
  have hend : throughScriptEnd? (u ++ rest) = none := by
    have he : Terminal.script.lexeme? (['{', '%'] ++ u ++ rest) =
        (throughScriptEnd? (u ++ rest)).map fun code => '{' :: '%' :: code := rfl
    rw [he, Option.map_eq_none_iff] at hno
    exact hno
  have hfree := throughScriptEnd?_eq_none_iff.mp hend
  exact ⟨occursIn_of_isInfix (List.prefix_append u rest).isInfix hfree,
    occursIn_of_isInfix (List.suffix_append u rest).isInfix hfree⟩

/-! ## Entries -/

/-- The tokens that say what an entry is. -/
def Entry.tokens : Entry → List Token
  | .separator text => text.toList
  | .item (.variable name value) => name :: value.toList
  | .item (.comment text) => [text]
  | .item (.metadata name value) => name :: value.toList
  | .item (.preRequest source) => [source]
  | .method t | .target t | .version t | .header t | .body t => [t]
  | .response (.handler source) => [source]
  | .response (.redirect line) => [line]

/-- The tokens of an entry have the kinds that it calls for. -/
def Entry.Kinds : Entry → Prop
  | .separator text => ∀ t ∈ text, t.kind = .separatorText
  | .item (.variable name value) => name.kind = .identifier ∧ ∀ t ∈ value, t.kind = .value
  | .item (.comment text) => text.kind = .comment
  | .item (.metadata name value) => name.kind = .identifier ∧ ∀ t ∈ value, t.kind = .value
  | .item (.preRequest source) => source.kind = .script ∨ source.kind = .path
  | .method t => t.kind = .method
  | .target t => t.kind = .target
  | .version t => t.kind = .version
  | .header t => t.kind = .header
  | .body t => t.kind.isBody = true
  | .response (.handler source) => source.kind = .script ∨ source.kind = .path
  | .response (.redirect line) => line.kind = .redirect

/-- A path that starts like inline code. -/
def Token.IsOpen (t : Token) : Prop := t.kind = .path ∧ ['{', '%'] <+: t.lexeme

/-- An entry with such a path. -/
def Entry.IsOpen (e : Entry) : Prop := ∃ t ∈ e.tokens, t.IsOpen

/-- An entry in which nothing closes inline code. -/
def Entry.Free (e : Entry) : Prop := ∀ t ∈ e.tokens, occursIn closing t.lexeme = false

/-- What the tokens of the rest of a line start with. -/
def Context.Expects : Context → List Token → Prop
  | .variableName, us | .metadataName, us => ∃ n, us.head? = some n ∧ n.kind = .identifier
  | .preRequestSource, us | .handlerSource, us =>
    ∃ s, us.head? = some s ∧ (s.kind = .script ∨ s.kind = .path)
  | _, _ => True

/-! ## The invariant -/

/-- What is known of the tokens that a scan finds in a text from a place on. -/
structure Scanned (place : Context) (t : Text) (ts : List Token) : Prop where
  holds : ∀ tok ∈ ts, tok.kind.Holds tok.lexeme ∧ tok.lexeme <:+: t
  /-- An open path is not closed on its line. -/
  paths : ∀ tok ∈ ts, tok.IsOpen → occursIn closing (tok.lexeme.drop 2) = false
  expects : place.Expects (shown ts)
  kinds : ∀ e ∈ entries (shown ts), e.Kinds ∧ e.tokens ⊆ ts
  /-- Behind an open path nothing closes inline code. -/
  hushed : (entries (shown ts)).Pairwise fun e e' => e.IsOpen → e'.Free
  /-- The same for a path that is read next. -/
  source : ∀ s, (shown ts).head? = some s → s.IsOpen → place.seeks .script = true →
    ∀ e ∈ entries (shown ts), e.Free

theorem Scanned.nil {place : Context} (h : place.mayEnd = true) : Scanned place [] [] where
  holds := by simp
  paths := by simp
  expects := by
    cases place with
    | lineStart | headers | beforeBody | afterBody | responses | belowResponses => trivial
    | _ => simp [Context.mayEnd] at h
  kinds := by simp [shown, entries]
  hushed := by simp [shown, entries]
  source := by simp [shown]

/-- Nothing in a text without a closing mark closes inline code. -/
theorem Scanned.free {place : Context} {t : Text} {ts : List Token} (h : Scanned place t ts)
    (ht : occursIn closing t = false) : ∀ e ∈ entries (shown ts), e.Free := by
  intro e he tok htok
  exact occursIn_of_isInfix (h.holds tok ((h.kinds e he).2 htok)).2 ht

theorem nextOf_kind {k : Terminal} {us : List Token} {t : Token} (h : t ∈ nextOf k us) :
    t.kind = k ∧ t ∈ us := by
  unfold nextOf at h
  obtain ⟨hh, hk⟩ := Option.filter_eq_some_iff.mp h
  exact ⟨by simpa using hk, List.mem_of_mem_head? hh⟩

theorem shown_subset (ts : List Token) : shown ts ⊆ ts :=
  List.filter_sublist.subset

/-- A mark leads to the place where what it announces is read, wherever it stands. -/
theorem behind_mark {place place' : Context} {k : Terminal} (hn : place.next k = some place') :
    (k = .variableMark → place' = .variableName) ∧ (k = .metadataMark → place' = .metadataName) ∧
      (k = .preRequestMark → place' = .preRequestSource) ∧
        (k = .handlerMark → place' = .handlerSource) := by
  refine ⟨?_, ?_, ?_, ?_⟩ <;> rintro rfl <;> cases place <;>
    simp [Context.next, Context.afterRequest, Terminal.isBody] at hn <;> exact hn.symm

/-- The entry that a token opens has the kinds that it calls for, and its tokens are at hand. -/
theorem kinds_of_opened {place place' : Context} {t : Token} {us : List Token} {e : Entry}
    (hn : place.next t.kind = some place') (hx : place'.Expects us)
    (he : Entry.opened? t us = some e) : e.Kinds ∧ e.tokens ⊆ t :: us := by
  obtain ⟨k, l, p⟩ := t
  -- the name of a declaration and its value, if the next token but one is a value
  have named : ∀ n, us.head? = some n → n.kind = .identifier →
      (n.kind = .identifier ∧ ∀ v ∈ nextOf .value us.tail, v.kind = .value) ∧
        n :: (nextOf .value us.tail).toList ⊆ ⟨k, l, p⟩ :: us := by
    intro n hhead hkind
    refine ⟨⟨hkind, fun v hv => (nextOf_kind hv).1⟩, ?_⟩
    intro x hx
    rcases List.mem_cons.mp hx with rfl | hx
    · exact List.mem_cons_of_mem _ (List.mem_of_mem_head? hhead)
    · exact List.mem_cons_of_mem _ (List.mem_of_mem_tail (nextOf_kind (Option.mem_toList.mp hx)).2)
  have sourced : ∀ s, us.head? = some s → [s] ⊆ (⟨k, l, p⟩ : Token) :: us := by
    intro s hhead x hx
    rw [List.mem_singleton.mp hx]
    exact List.mem_cons_of_mem _ (List.mem_of_mem_head? hhead)
  obtain ⟨hvariable, hmetadata, hpre, hhandler⟩ := behind_mark hn
  cases k with
  | separatorMark =>
      rw [← Option.some.inj he]
      refine ⟨fun x hx => (nextOf_kind hx).1, fun x hx => ?_⟩
      exact List.mem_cons_of_mem _ (nextOf_kind (Option.mem_toList.mp hx)).2
  | variableMark =>
      rw [hvariable rfl] at hx
      obtain ⟨n, hhead, hkind⟩ := hx
      obtain rfl : .item (.variable n (nextOf .value us.tail)) = e := by
        simpa [Entry.opened?, hhead] using he
      exact named n hhead hkind
  | metadataMark =>
      rw [hmetadata rfl] at hx
      obtain ⟨n, hhead, hkind⟩ := hx
      obtain rfl : .item (.metadata n (nextOf .value us.tail)) = e := by
        simpa [Entry.opened?, hhead] using he
      exact named n hhead hkind
  | preRequestMark =>
      rw [hpre rfl] at hx
      obtain ⟨s, hhead, hkind⟩ := hx
      obtain rfl : .item (.preRequest s) = e := by simpa [Entry.opened?, hhead] using he
      exact ⟨hkind, sourced s hhead⟩
  | handlerMark =>
      rw [hhandler rfl] at hx
      obtain ⟨s, hhead, hkind⟩ := hx
      obtain rfl : .response (.handler s) = e := by simpa [Entry.opened?, hhead] using he
      exact ⟨hkind, sourced s hhead⟩
  | comment | method | target | version | header | redirect | formBody | jsonBody | graphqlBody
  | xmlBody | externalBody | rawBody =>
      -- these are entries of their own, of one token
      rw [← Option.some.inj he]
      exact ⟨rfl, by simp [Entry.tokens]⟩
  | endOfLine | gap | separatorText | assign | identifier | value | script | path =>
      simp [Entry.opened?, Terminal.isBody] at he

/-- Only scripts have paths. -/
theorem Entry.IsOpen.source {e : Entry} (ho : e.IsOpen) (hk : e.Kinds) :
    ∃ s, s.IsOpen ∧ (e = .item (.preRequest s) ∨ e = .response (.handler s)) := by
  obtain ⟨s, hs, hopen⟩ := ho
  have other : ∀ k : Terminal, s.kind = k → k ≠ .path → False := by
    intro k hkind hne
    exact hne (hkind.symm.trans hopen.1)
  -- an open token is a path, and of the kinds that an entry calls for only a script's may be one
  cases e with
  | separator text => exact absurd (hk s (Option.mem_toList.mp hs)) fun h => other _ h (by decide)
  | item i =>
      cases i with
      | preRequest source =>
          obtain rfl : s = source := List.mem_singleton.mp hs
          exact ⟨s, hopen, .inl rfl⟩
      | comment text =>
          obtain rfl : s = text := List.mem_singleton.mp hs
          exact absurd hk fun h => other _ h (by decide)
      | «variable» name value | metadata name value =>
          rcases List.mem_cons.mp hs with rfl | hs
          · exact absurd hk.1 fun h => other _ h (by decide)
          · exact absurd (hk.2 s (Option.mem_toList.mp hs)) fun h => other _ h (by decide)
  | response r =>
      cases r with
      | handler source =>
          obtain rfl : s = source := List.mem_singleton.mp hs
          exact ⟨s, hopen, .inr rfl⟩
      | redirect line =>
          obtain rfl : s = line := List.mem_singleton.mp hs
          exact absurd hk fun h => other _ h (by decide)
  | body t =>
      obtain rfl : s = t := List.mem_singleton.mp hs
      have hb : s.kind.isBody = true := hk
      rw [hopen.1] at hb
      exact absurd hb (by decide)
  | method t | target t | version t | header t =>
      obtain rfl : s = t := List.mem_singleton.mp hs
      exact absurd hk fun h => other _ h (by decide)

/-- What is expected behind a token that was accepted. -/
theorem expects_cons {place place' : Context} {k : Terminal} {l : Text} {p : Position}
    {ts : List Token} (hn : place.next k = some place') :
    place.Expects (shown (⟨k, l, p⟩ :: ts)) := by
  cases place with
  | variableName | metadataName =>
      cases k with
      | identifier => exact ⟨⟨.identifier, l, p⟩, rfl, rfl⟩
      | _ => simp [Context.next] at hn
  | preRequestSource | handlerSource =>
      cases k with
      | script => exact ⟨⟨.script, l, p⟩, rfl, .inl rfl⟩
      | path => exact ⟨⟨.path, l, p⟩, rfl, .inr rfl⟩
      | _ => simp [Context.next] at hn
  | _ => trivial

/-- A comment stands where the mark of metadata is tried before it. -/
theorem metadataMark?_of_comment {place : Context} {t l : Text}
    (h : place.lexeme? t = some (.comment, l)) : metadataMark? t = none := by
  have hs := (Context.lexeme?_spec h).2
  cases place with
  | lineStart =>
      have hno : Terminal.metadataMark.lexeme? t = none := Context.lexeme?_first h (by decide)
      exact hno
  | _ => exact absurd hs (by decide)

/-- The places where inline code is looked for are those that a script's mark leads to. -/
theorem seeks_script_of_mark {place place' : Context} {k : Terminal}
    (hk : k = .preRequestMark ∨ k = .handlerMark) (hn : place.next k = some place') :
    place'.seeks .script = true := by
  obtain ⟨-, -, hpre, hhandler⟩ := behind_mark hn
  rcases hk with rfl | rfl
  · rw [hpre rfl]
    rfl
  · rw [hhandler rfl]
    rfl

/-- The script of an entry is the token behind the mark that opens it. -/
theorem head_of_opened_script {t s : Token} {us : List Token} {e : Entry}
    (he : Entry.opened? t us = some e)
    (hs : e = .item (.preRequest s) ∨ e = .response (.handler s)) :
    (t.kind = .preRequestMark ∨ t.kind = .handlerMark) ∧ us.head? = some s := by
  obtain ⟨k, l, p⟩ := t
  cases k with
  | preRequestMark =>
      obtain ⟨s', hhead, rfl⟩ := Option.map_eq_some_iff.mp he
      refine ⟨.inl rfl, ?_⟩
      rw [hhead]
      simpa using hs
  | handlerMark =>
      obtain ⟨s', hhead, rfl⟩ := Option.map_eq_some_iff.mp he
      refine ⟨.inr rfl, ?_⟩
      rw [hhead]
      simpa using hs
  | variableMark | metadataMark =>
      obtain ⟨n, -, rfl⟩ := Option.map_eq_some_iff.mp he
      simp at hs
  | separatorMark | comment | method | target | version | header | redirect | formBody | jsonBody
  | graphqlBody | xmlBody | externalBody | rawBody =>
      rw [← Option.some.inj he] at hs
      simp at hs
  | endOfLine | gap | separatorText | assign | identifier | value | script | path =>
      simp [Entry.opened?, Terminal.isBody] at he

/-- Where inline code is looked for, it or a path is read. -/
theorem source_of_next {place place' : Context} {k : Terminal} (hs : place.seeks .script = true)
    (hn : place.next k = some place') : k = .script ∨ k = .path := by
  cases place with
  | preRequestSource | handlerSource =>
      cases k with
      | script => exact .inl rfl
      | path => exact .inr rfl
      | _ => simp [Context.next] at hn
  | _ => exact absurd hs (by decide)

/-- **One step.** A token that is accepted in front of what is known keeps it known. -/
theorem Scanned.cons {place place' : Context} {k : Terminal} {l rest : Text} {ts : List Token}
    {p : Position} (hl : place.lexeme? (l ++ rest) = some (k, l))
    (hn : place.next k = some place') (h : Scanned place' rest ts) :
    Scanned place (l ++ rest) (⟨k, l, p⟩ :: ts) := by
  have hk := (Context.lexeme?_spec hl).1
  have hentries : entries (shown (⟨k, l, p⟩ :: ts)) =
      (Entry.opened? ⟨k, l, p⟩ (shown ts)).toList ++ entries (shown ts) := by
    rw [shown_cons]
    split
    · next hlay => rw [opened?_layout hlay]; rfl
    · rfl
  have hopened : ∀ e ∈ (Entry.opened? ⟨k, l, p⟩ (shown ts)).toList,
      e.Kinds ∧ e.tokens ⊆ ⟨k, l, p⟩ :: shown ts := by
    intro e he
    exact kinds_of_opened (t := ⟨k, l, p⟩) hn h.expects (Option.mem_toList.mp he)
  refine ⟨?_, ?_, expects_cons hn, ?_, ?_, ?_⟩
  · intro tok htok
    rcases List.mem_cons.mp htok with rfl | htok
    · refine ⟨holds_of_lexeme? hk ?_, (List.prefix_append l rest).isInfix⟩
      rintro rfl
      exact metadataMark?_of_comment hl
    · obtain ⟨h1, h2⟩ := h.holds tok htok
      exact ⟨h1, h2.trans (List.suffix_append l rest).isInfix⟩
  · intro tok htok ho
    rcases List.mem_cons.mp htok with rfl | htok
    · obtain rfl : k = .path := ho.1
      exact (free_of_open_path hl ho.2).1
    · exact h.paths tok htok ho
  · -- the token adds at most one entry, and its tokens are the token and what is expected behind it
    rw [hentries]
    intro e he
    rcases List.mem_append.mp he with he | he
    · obtain ⟨h1, h2⟩ := hopened e he
      exact ⟨h1, List.Subset.trans h2 (List.cons_subset_cons _ (shown_subset ts))⟩
    · obtain ⟨h1, h2⟩ := h.kinds e he
      exact ⟨h1, List.Subset.trans h2 (List.subset_cons_self _ ts)⟩
  · rw [hentries, List.pairwise_append]
    refine ⟨?_, h.hushed, ?_⟩
    · cases Entry.opened? ⟨k, l, p⟩ (shown ts) <;> simp
    · intro e he e' he' ho
      obtain ⟨s, hs, hshape⟩ := ho.source (hopened e he).1
      -- the script is the next token, and the invariant speaks of it
      obtain ⟨hmark, hhead⟩ := head_of_opened_script (Option.mem_toList.mp he) hshape
      exact h.source s hhead hs (seeks_script_of_mark hmark hn) e' he'
  · intro s hhead ho hseek e he
    rcases source_of_next hseek hn with rfl | rfl
    · obtain rfl : ⟨.script, l, p⟩ = s := by simpa [shown_cons, Terminal.isLayout] using hhead
      exact absurd ho.1 (by simp)
    · obtain rfl : ⟨.path, l, p⟩ = s := by simpa [shown_cons, Terminal.isLayout] using hhead
      -- behind an open path the rest of the text has no closing mark
      rw [hentries] at he
      exact h.free (free_of_open_path hl ho.2).2 e he

/-- **The whole run.** -/
theorem scanned {place : Context} {p : Position} {t : Text} {ts : List Token}
    (h : scan place p 0 t = .ok ts) : Scanned place t ts :=
  scan_induction (fun _ hend => .nil hend) (fun _ _ _ _ _ _ _ hl hn ih => ih.cons hl hn) h

/-- The same for a reading, which has no positions. -/
theorem scanned_reading {place : Context} {t : Text} {ts : List Token}
    (h : reading place t = some ts) : Scanned place t ts := by
  obtain ⟨us, hs, rfl⟩ := scan_of_reading h .start
  exact scan_induction (motive := fun place t us => Scanned place t (us.map Token.unplaced))
    (fun _ hend => .nil hend) (fun _ _ _ _ _ _ _ hl hn ih => ih.cons hl hn) hs

end HttpFile.Syntax
