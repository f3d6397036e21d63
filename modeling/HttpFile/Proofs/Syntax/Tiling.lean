import HttpFile.Proofs.Syntax.Entries

/-!
# `HttpFile.Proofs.Syntax.Tiling` — the tree of a file shows all of its text

The lexemes of a scan stand side by side, each where the one before it ends, and the position of a token is the line
and the column of that place. The tree keeps all of them in their order except layout and marks, and these are made of
blanks and of a few signs only. So whatever else stands in a file stands in a token of its tree.

That the tree keeps a token depends on the place where it was read: a value is kept as part of the declaration that
was opened before it. What is still to come of an entry that has been opened is an invariant of the scan.

## Contents
- **Places.** `textBehind`, `Position.textIn`; `textIn_advanceBy`: the text behind what has been passed.
- **Leaves.** `Node.tokens`; `tokens_toNode`: the tokens of a tree are those of its entries.
- **Hidden kinds.** `Terminal.isHidden`, `isSign`; `isSign_of_isHidden`: what hidden lexemes are made of.
- **Debts.** `Debt`, `owes_of_next`: what each kind of token does to what is still to come of an entry.
- **Named tokens.** `named`, `Accounted`; `Accounted.cons` for a step, `accounted` for a run; `tokens_ofTokens`.
- **Tiling.** `Tiles`; `tiles_named`.
- **The tree of a file.** `parse_tiles`, with an example.
-/

namespace HttpFile.Syntax

open Text Unicode

/-! ## Places -/

/-- The text behind so many lines and then so many characters of a line, if there are as many. -/
def textBehind : Nat → Nat → Text → Option Text
  | 0, 0, t => some t
  | 0, columns + 1, c :: rest => if c = '\n' then none else textBehind 0 columns rest
  | lines + 1, columns, c :: rest => textBehind (if c = '\n' then lines else lines + 1) columns rest
  | _, _, [] => none

/-- The part of a text that starts at a position. Lines and columns count from one, and only the newline ends a
    line. -/
def Position.textIn (p : Position) (t : Text) : Option Text :=
  match p.line, p.column with
  | lines + 1, columns + 1 => textBehind lines columns t
  | _, _ => none

theorem advanceBy_append (p : Position) (u v : Text) : p.advanceBy (u ++ v) = (p.advanceBy u).advanceBy v :=
  List.foldl_append

/-- On one line only the column moves. -/
theorem advanceBy_of_notMem {u : Text} (h : '\n' ∉ u) (p : Position) :
    p.advanceBy u = ⟨p.line, p.column + u.length⟩ := by
  induction u generalizing p with
  | nil => rfl
  | cons c u ih =>
      have hc : c ≠ '\n' := fun he => h (he ▸ List.mem_cons_self)
      have hstep : p.advance c = ⟨p.line, p.column + 1⟩ := if_neg hc
      show (p.advance c).advanceBy u = _
      rw [hstep, ih fun hm => h (List.mem_cons_of_mem c hm), List.length_cons]
      simp only [Position.mk.injEq, true_and]
      omega

theorem line_advanceBy (p : Position) (u : Text) : (p.advanceBy u).line = p.line + u.count '\n' := by
  induction u generalizing p with
  | nil => rfl
  | cons c u ih =>
      show ((p.advance c).advanceBy u).line = _
      rw [ih, List.count_cons]
      unfold Position.advance
      by_cases hc : c = '\n'
      · simp only [hc, beq_self_eq_true, if_true]
        omega
      · simp [hc]

/-- A line that ends is passed as a line. -/
theorem textBehind_line (w rest : Text) (columns : Nat) :
    textBehind (w.count '\n' + 1) columns (w ++ '\n' :: rest) = textBehind 0 columns rest := by
  induction w with
  | nil => simp [textBehind]
  | cons c w ih =>
      rw [List.cons_append, textBehind, List.count_cons]
      by_cases hc : c = '\n'
      · simpa [hc] using ih
      · simpa [hc] using ih

theorem textBehind_columns {u : Text} (h : '\n' ∉ u) (rest : Text) :
    textBehind 0 u.length (u ++ rest) = some rest := by
  induction u with
  | nil => cases rest <;> rfl
  | cons c u ih =>
      have hc : c ≠ '\n' := fun he => h (he ▸ List.mem_cons_self)
      rw [List.length_cons, List.cons_append, textBehind, if_neg hc]
      exact ih fun hm => h (List.mem_cons_of_mem c hm)

/-- **What starts at the position that a text leads to is what stands behind the text.** -/
theorem textIn_advanceBy (u rest : Text) : (Position.start.advanceBy u).textIn (u ++ rest) = some rest := by
  by_cases hbreak : '\n' ∈ u
  · -- the last newline in front of the position starts its line
    obtain ⟨s, w, hu, hs⟩ := List.eq_append_cons_of_mem (List.mem_reverse.mpr hbreak)
    have hsplit : u = w.reverse ++ '\n' :: s.reverse := by
      rw [← List.reverse_reverse u, hu]
      simp
    have hline : '\n' ∉ s.reverse := fun hm => hs (List.mem_reverse.mp hm)
    have hposition : Position.start.advanceBy u = ⟨w.reverse.count '\n' + 2, s.reverse.length + 1⟩ := by
      have hbefore : (Position.start.advanceBy w.reverse).line = 1 + w.reverse.count '\n' := line_advanceBy _ _
      rw [hsplit, advanceBy_append]
      show ((Position.start.advanceBy w.reverse).advance '\n').advanceBy s.reverse = _
      rw [advanceBy_of_notMem hline]
      unfold Position.advance
      simp only [if_true, hbefore, Position.mk.injEq]
      omega
    have hstart : (Position.start.advanceBy u).textIn (u ++ rest) =
        textBehind (w.reverse.count '\n' + 1) s.reverse.length (u ++ rest) := by
      rw [hposition]
      rfl
    rw [hstart, hsplit, List.append_assoc, List.cons_append, textBehind_line, textBehind_columns hline]
  · have hposition : Position.start.advanceBy u = ⟨1, u.length + 1⟩ := by
      rw [advanceBy_of_notMem hbreak, Nat.add_comm]
      rfl
    rw [hposition]
    exact textBehind_columns hbreak rest

/-! ## Leaves -/

mutual
/-- The tokens of a node, in the order of the text. -/
def Node.tokens : Node → List Token
  | .rule _ children => leafTokens children
  | .token t => [t]

/-- The tokens of several nodes. -/
def leafTokens : List Node → List Token
  | [] => []
  | n :: ns => n.tokens ++ leafTokens ns
end

theorem leafTokens_append (ms ns : List Node) : leafTokens (ms ++ ns) = leafTokens ms ++ leafTokens ns := by
  induction ms with
  | nil => rfl
  | cons m ms ih => rw [List.cons_append, leafTokens, leafTokens, ih, List.append_assoc]

theorem leafTokens_map {α : Type} (f : α → Node) (xs : List α) :
    leafTokens (xs.map f) = xs.flatMap fun x => (f x).tokens := by
  induction xs with
  | nil => rfl
  | cons x xs ih => rw [List.map_cons, leafTokens, ih, List.flatMap_cons]

theorem leafTokens_leaves (ts : List (Option Token)) : leafTokens (leaves ts) = ts.flatMap Option.toList := by
  unfold leaves
  induction ts with
  | nil => rfl
  | cons t ts ih => cases t <;> simp [leafTokens, Node.tokens, ih]

theorem tokens_item (i : Item) : i.toNode.tokens = (Entry.item i).tokens := by
  cases i with
  | «variable» name value | metadata name value =>
      rw [Item.toNode, Node.tokens, leafTokens_leaves]
      simp [Entry.tokens]
  | comment text => rfl
  | preRequest source => rfl

theorem tokens_response (r : Response) : r.toNode.tokens = (Entry.response r).tokens := by
  cases r <;> rfl

theorem tokens_request (r : RequestNode) : r.toNode.tokens = r.entries.flatMap Entry.tokens := by
  obtain ⟨method, target, version, headers, body, responses⟩ := r
  have hheaders : (headers.flatMap fun h => (Node.rule "header" [.token h]).tokens) = headers := by
    simp [Node.tokens, leafTokens]
  rw [RequestNode.toNode, Node.tokens, leafTokens_append, leafTokens_append, leafTokens_append, leafTokens_leaves,
    leafTokens_leaves, leafTokens_map, leafTokens_map, hheaders]
  unfold RequestNode.entries RequestTail.entries
  cases method <;> cases version <;> cases body <;>
    simp [Entry.tokens, List.flatMap_map, tokens_response]

theorem tokens_section (s : Section) : leafTokens s.toNodes = s.entries.flatMap Entry.tokens := by
  obtain ⟨items, request⟩ := s
  rw [Section.toNodes, leafTokens_append, leafTokens_map]
  unfold Section.entries
  rw [List.flatMap_append, List.flatMap_map]
  congr 1
  · exact congrArg (items.flatMap ·) (funext tokens_item)
  · cases request with
    | none => rfl
    | some r => simp [leafTokens, tokens_request]

/-- **The tokens of a tree are those of its entries.** -/
theorem tokens_toNode (t : Tree) : t.toNode.tokens = t.entries.flatMap Entry.tokens := by
  obtain ⟨head, sections⟩ := t
  rw [Tree.toNode, Node.tokens, leafTokens_append]
  unfold Tree.entries
  rw [List.flatMap_append]
  congr 1
  · cases head with
    | none => rfl
    | some s => simp [leafTokens, Node.tokens, tokens_section]
  · simp only
    induction sections with
    | nil => rfl
    | cons x sections ih =>
        rw [List.map_cons, leafTokens, ih, List.flatMap_cons, List.flatMap_append]
        congr 1
        simp [Node.tokens, leafTokens, leafTokens_leaves, tokens_section, Entry.tokens]

/-! ## Hidden kinds -/

/-- The kinds that a tree does not show: layout, and the marks that open lines and scripts. -/
def Terminal.isHidden : Terminal → Bool
  | .endOfLine | .gap | .assign => true
  | .separatorMark | .variableMark | .metadataMark | .preRequestMark | .handlerMark => true
  | _ => false

/-- A character that may stand outside of the tokens of a tree. -/
def isSign (c : Char) : Bool := " \t\n#@=/<>".toList.contains c

theorem isSign_of_isGap {c : Char} (h : isGap c = true) : isSign c = true := by
  unfold isGap at h
  rcases Bool.or_eq_true _ _ ▸ h with h | h <;> rw [eq_of_beq h] <;> decide

/-- Hidden lexemes are made of blanks and signs. -/
theorem isSign_of_isHidden {k : Terminal} {t l : Text} (hk : k.isHidden = true) (h : k.lexeme? t = some l) :
    ∀ c ∈ l, isSign c = true := by
  have gap : ∀ g : Text, (∀ c ∈ g, isGap c = true) → ∀ c ∈ g, isSign c = true := fun g hg c hc =>
    isSign_of_isGap (hg c hc)
  have gaps : ∀ rest : Text, ∀ c ∈ rest.takeWhile isGap, isSign c = true := fun rest =>
    gap _ fun c hc => List.mem_takeWhile_imp hc
  cases k with
  | endOfLine =>
      obtain ⟨g, rest, hg, -, rfl⟩ := endOfLine?_spec h
      exact List.forall_mem_append.mpr ⟨gap g hg, by decide⟩
  | gap =>
      obtain ⟨rfl, -⟩ := gap?_spec h
      exact gaps t
  | assign =>
      obtain ⟨g, rest, hg, -, rfl⟩ := assign?_spec h
      exact List.forall_mem_append.mpr ⟨gap g hg, List.forall_mem_cons.mpr ⟨by decide, gaps rest⟩⟩
  | separatorMark | variableMark =>
      obtain ⟨rfl, -⟩ := literal?_spec h
      decide
  | metadataMark =>
      obtain ⟨mark, g, c, rest, hmark, hg, -, -, rfl⟩ := metadataMark?_spec h
      refine List.forall_mem_append.mpr ⟨List.forall_mem_append.mpr ⟨?_, gap g hg⟩, by decide⟩
      rcases hmark with rfl | rfl <;> decide
  | preRequestMark =>
      obtain ⟨rest, -, rfl⟩ := preRequestMark?_spec h
      exact List.forall_mem_cons.mpr ⟨by decide, gaps rest⟩
  | handlerMark =>
      obtain ⟨rest, -, rfl⟩ := handlerMark?_spec h
      exact List.forall_mem_cons.mpr ⟨by decide, gaps rest⟩
  | _ => simp [Terminal.isHidden] at hk

/-! ## Debts -/

/-- What is still to come of an entry that has been opened. -/
inductive Debt where
  | nothing
  | title
  | name
  | value
  | source
deriving DecidableEq

/-- What is still to come at a place. -/
def Context.debt : Context → Debt
  | .separatorText => .title
  | .variableName | .metadataName => .name
  | .variableAssign | .variableValue | .metadataGap | .metadataValue => .value
  | .preRequestSource | .handlerSource => .source
  | _ => .nothing

/-- The tokens to come that pay a debt. -/
def Debt.paid : Debt → List Token → List Token
  | .nothing, _ => []
  | .title, us => (nextOf .separatorText us).toList
  | .name, us => us.head?.toList.flatMap fun n => n :: (nextOf .value us.tail).toList
  | .value, us => (nextOf .value us).toList
  | .source, us => us.head?.toList

/-- The debts between which a token of a kind may lead. -/
def Terminal.owes (before after : Debt) : Terminal → Bool
  | .separatorMark => before = .nothing && after = .title
  | .variableMark | .metadataMark => before = .nothing && after = .name
  | .preRequestMark | .handlerMark => before = .nothing && after = .source
  | .separatorText => before = .title && after = .nothing
  | .identifier => before = .name && after = .value
  | .value => before = .value && after = .nothing
  | .script | .path => before = .source && after = .nothing
  | .endOfLine => before ≠ .name && before ≠ .source && after = .nothing
  | .gap | .assign => before = after && (before = .nothing || before = .value)
  | _ => before = .nothing && after = .nothing

/-- Whether a move keeps to the debts that its kind allows. -/
def Context.keepsDebts (place : Context) (k : Terminal) : Bool :=
  match place.next k with
  | some place' => k.owes place.debt place'.debt
  | none => true

theorem keepsDebts (place : Context) (k : Terminal) : place.keepsDebts k = true := by
  cases place <;> cases k <;> rfl

/-- **Every move keeps to the debts that its kind allows.** -/
theorem owes_of_next {place place' : Context} {k : Terminal} (h : place.next k = some place') :
    k.owes place.debt place'.debt = true := by
  have hk := keepsDebts place k
  unfold Context.keepsDebts at hk
  rw [h] at hk
  exact hk

/-! ## Named tokens -/

/-- The tokens of a scan that a tree shows. -/
def named (ts : List Token) : List Token := ts.filter fun t => !t.kind.isHidden

/-- A title or a value comes first only where it is owed. -/
def Debt.Heads (d : Debt) (us : List Token) : Prop :=
  ∀ u, us.head? = some u → (u.kind = .separatorText → d = .title) ∧ (u.kind = .value → d = .value)

/-- What is read from a place on: what is owed there, then the entries opened behind it. -/
def Accounted (d : Debt) (ts : List Token) : Prop :=
  d.Heads (shown ts) ∧ named ts = d.paid (shown ts) ++ (entries (shown ts)).flatMap Entry.tokens

theorem nextOf_eq_none {k : Terminal} {us : List Token} (h : ∀ u, us.head? = some u → u.kind ≠ k) :
    nextOf k us = none := by
  unfold nextOf
  cases hu : us.head? with
  | none => rfl
  | some u => simp [Option.filter, h u hu]

theorem nextOf_cons (t : Token) (us : List Token) : nextOf t.kind (t :: us) = some t := by
  simp [nextOf, Option.filter]

/-- Layout pays nothing: a line ends only where nothing, or nothing that has to come, is owed. -/
theorem Accounted.layout {before after : Debt} {t : Token} {ts : List Token} (hk : t.kind.isLayout = true)
    (howes : t.kind.owes before after = true) (h : Accounted after ts) : Accounted before (t :: ts) := by
  obtain ⟨hheads, hnamed⟩ := h
  obtain ⟨k, l, p⟩ := t
  have hshown : shown (⟨k, l, p⟩ :: ts) = shown ts := by rw [shown_cons, if_pos hk]
  have hhidden : named (⟨k, l, p⟩ :: ts) = named ts := by
    cases k <;> first | rfl | simp [Terminal.isLayout] at hk
  have hpaid : before.Heads (shown ts) ∧ before.paid (shown ts) = after.paid (shown ts) := by
    cases k with
    | endOfLine =>
        obtain ⟨⟨hname, hsource⟩, rfl⟩ : (before ≠ .name ∧ before ≠ .source) ∧ after = .nothing := by
          simpa [Terminal.owes] using howes
        refine ⟨fun u hu => ⟨fun he => ?_, fun he => ?_⟩, ?_⟩
        · exact absurd ((hheads u hu).1 he) (by decide)
        · exact absurd ((hheads u hu).2 he) (by decide)
        · -- a title and a value may be left out; where a name or a source is owed the line does not
          -- end
          cases before with
          | nothing => rfl
          | title =>
              have hnone : nextOf .separatorText (shown ts) = none := nextOf_eq_none fun u hu he =>
                absurd ((hheads u hu).1 he) (by decide)
              simp [Debt.paid, hnone]
          | value =>
              have hnone : nextOf .value (shown ts) = none := nextOf_eq_none fun u hu he =>
                absurd ((hheads u hu).2 he) (by decide)
              simp [Debt.paid, hnone]
          | name => exact absurd rfl hname
          | source => exact absurd rfl hsource
    | gap | assign =>
        obtain ⟨rfl, -⟩ : before = after ∧ (before = .nothing ∨ before = .value) := by
          simpa [Terminal.owes] using howes
        exact ⟨hheads, rfl⟩
    | _ => simp [Terminal.isLayout] at hk
  unfold Accounted
  rw [hshown, hhidden, hpaid.2]
  exact ⟨hpaid.1, hnamed⟩

/-- A token that is shown pays what is owed, or opens an entry where nothing is owed. -/
theorem paid_cons {before after : Debt} {t : Token} (us : List Token) (hk : t.kind.isLayout = false)
    (howes : t.kind.owes before after = true) :
    (if t.kind.isHidden then [] else [t]) ++ after.paid us =
      before.paid (t :: us) ++ (Entry.opened? t us).toList.flatMap Entry.tokens := by
  obtain ⟨k, l, p⟩ := t
  -- the kind says what is owed in front of the token and what is owed behind it
  cases k with
  | separatorMark =>
      obtain ⟨rfl, rfl⟩ : before = .nothing ∧ after = .title := by simpa [Terminal.owes] using howes
      simp [Terminal.isHidden, Debt.paid, Entry.opened?, Entry.tokens]
  | variableMark | metadataMark =>
      obtain ⟨rfl, rfl⟩ : before = .nothing ∧ after = .name := by simpa [Terminal.owes] using howes
      cases us <;> simp [Terminal.isHidden, Debt.paid, Entry.opened?, Entry.tokens]
  | preRequestMark | handlerMark =>
      obtain ⟨rfl, rfl⟩ : before = .nothing ∧ after = .source := by simpa [Terminal.owes] using howes
      cases us <;> simp [Terminal.isHidden, Debt.paid, Entry.opened?, Entry.tokens]
  | separatorText =>
      obtain ⟨rfl, rfl⟩ : before = .title ∧ after = .nothing := by simpa [Terminal.owes] using howes
      have hnext := nextOf_cons ⟨.separatorText, l, p⟩ us
      simp [Terminal.isHidden, Debt.paid, Entry.opened?, Terminal.isBody, hnext]
  | identifier =>
      obtain ⟨rfl, rfl⟩ : before = .name ∧ after = .value := by simpa [Terminal.owes] using howes
      simp [Terminal.isHidden, Debt.paid, Entry.opened?, Terminal.isBody]
  | value =>
      obtain ⟨rfl, rfl⟩ : before = .value ∧ after = .nothing := by simpa [Terminal.owes] using howes
      have hnext := nextOf_cons ⟨.value, l, p⟩ us
      simp [Terminal.isHidden, Debt.paid, Entry.opened?, Terminal.isBody, hnext]
  | script | path =>
      obtain ⟨rfl, rfl⟩ : before = .source ∧ after = .nothing := by simpa [Terminal.owes] using howes
      simp [Terminal.isHidden, Debt.paid, Entry.opened?, Terminal.isBody]
  | endOfLine | gap | assign => simp [Terminal.isLayout] at hk
  | _ =>
      obtain ⟨rfl, rfl⟩ : before = .nothing ∧ after = .nothing := by simpa [Terminal.owes] using howes
      simp [Terminal.isHidden, Debt.paid, Entry.opened?, Entry.tokens, Terminal.isBody]

/-- **One step.** -/
theorem Accounted.cons {before after : Debt} {t : Token} {ts : List Token} (howes : t.kind.owes before after = true)
    (h : Accounted after ts) : Accounted before (t :: ts) := by
  cases hk : t.kind.isLayout with
  | true => exact h.layout hk howes
  | false =>
      have hshown : shown (t :: ts) = t :: shown ts := by rw [shown_cons, if_neg (by simp [hk])]
      have hnamed : named (t :: ts) = (if t.kind.isHidden then [] else [t]) ++ named ts := by
        unfold named
        cases hh : t.kind.isHidden <;> simp [hh]
      unfold Accounted
      rw [hshown, hnamed, h.2]
      constructor
      · intro u hu
        obtain rfl : t = u := by simpa using hu
        refine ⟨fun he => ?_, fun he => ?_⟩ <;> rw [he] at howes <;> simp [Terminal.owes] at howes <;> exact howes.1
      · rw [← List.append_assoc, paid_cons (shown ts) hk howes, entries, List.flatMap_append, List.append_assoc]

/-- **The whole run.** What a tree shows of a scan is what the entries of the scan hold. -/
theorem accounted {place : Context} {p : Position} {t : Text} {ts : List Token} (h : scan place p 0 t = .ok ts) :
    Accounted place.debt ts := by
  refine scan_induction (motive := fun place _ ts => Accounted place.debt ts) ?_ ?_ h
  · intro place hend
    cases place with
    | lineStart | headers | beforeBody | afterBody | responses | belowResponses =>
        exact ⟨fun u hu => by simp [shown] at hu, rfl⟩
    | _ => simp [Context.mayEnd] at hend
  · intro place place' k l rest ts p _ hnext h
    exact h.cons (owes_of_next hnext)

/-- **The tokens of the tree of a scan are those tokens of the scan that it shows.** -/
theorem tokens_ofTokens {p : Position} {t : Text} {ts : List Token} (h : scan .lineStart p 0 t = .ok ts) :
    (Tree.ofTokens ts).toNode.tokens = named ts := by
  rw [tokens_toNode, entries_ofTokens h rfl, (accounted h).2]
  rfl

/-! ## Tiling -/

/-- Tokens that cover the end of a text `n`, with nothing but blanks and signs between them. Each stands where its
    position says, behind the one before it. -/
inductive Tiles (n : Text) : Text → List Token → Prop
  | rest (gap : Text) (signs : ∀ c ∈ gap, isSign c = true) : Tiles n gap []
  | token (gap rest : Text) (t : Token) (ts : List Token) (signs : ∀ c ∈ gap, isSign c = true)
      (place : t.position.textIn n = some (t.lexeme ++ rest)) (behind : Tiles n rest ts) :
      Tiles n (gap ++ (t.lexeme ++ rest)) (t :: ts)

theorem Tiles.signs {n u gap : Text} {ts : List Token} (hgap : ∀ c ∈ gap, isSign c = true) (h : Tiles n u ts) :
    Tiles n (gap ++ u) ts := by
  cases h with
  | rest _ hsigns => exact .rest (gap ++ u) (List.forall_mem_append.mpr ⟨hgap, hsigns⟩)
  | token gap' rest t ts hsigns hplace hbehind =>
      rw [← List.append_assoc]
      exact .token (gap ++ gap') rest t ts (List.forall_mem_append.mpr ⟨hgap, hsigns⟩) hplace hbehind

/-- **The tokens that a tree shows cover the text that is scanned.** -/
theorem tiles_named {place : Context} {p : Position} {t : Text} {ts : List Token} (h : scan place p 0 t = .ok ts) :
    ∀ before, p = Position.start.advanceBy before → Tiles (before ++ t) t (named ts) := by
  refine scan_induction_at
    (motive := fun _ p t ts => ∀ before, p = Position.start.advanceBy before → Tiles (before ++ t) t (named ts))
    ?_ ?_ h
  · intro place p _ before _
    exact .rest [] (by simp)
  · intro place place' k l rest ts p hl _ ih before hp
    have hbehind : Tiles (before ++ (l ++ rest)) rest (named ts) := by
      rw [← List.append_assoc]
      exact ih (before ++ l) (by rw [hp, advanceBy_append])
    cases hk : k.isHidden with
    | true =>
        have hnamed : named (⟨k, l, p⟩ :: ts) = named ts := by simp [named, hk]
        rw [hnamed]
        exact hbehind.signs (isSign_of_isHidden hk (Context.lexeme?_spec hl).1)
    | false =>
        have hnamed : named (⟨k, l, p⟩ :: ts) = ⟨k, l, p⟩ :: named ts := by simp [named, hk]
        have hplace : p.textIn (before ++ (l ++ rest)) = some (l ++ rest) := hp ▸ textIn_advanceBy before (l ++ rest)
        rw [hnamed]
        exact .token [] rest ⟨k, l, p⟩ (named ts) (by simp) hplace hbehind

/-! ## The tree of a file -/

/-- **The tree of a file shows all of its text.** The tokens of the tree, in their order, are the parts of the
    normalized text at their lines and columns. They do not overlap, and outside of them stand only blanks, newlines
    and the signs `#`, `@`, `=`, `/`, `<` and `>`. -/
theorem parse_tiles {t : Text} {tree : Tree} (h : parse t = .ok tree) :
    Tiles (normalize t) (normalize t) tree.toNode.tokens := by
  unfold parse tokens at h
  cases hs : scan .lineStart .start 0 (normalize t) with
  | error e => rw [hs] at h; simp [Except.map] at h
  | ok ts =>
      rw [hs] at h
      have htree : Tree.ofTokens ts = tree := by simpa [Except.map] using h
      rw [← htree, tokens_ofTokens hs]
      exact tiles_named hs [] rfl

/-- A script, an address and a body on several lines, and a section without a request. -/
def spreadText : Text :=
  "@a = 1\n< \x7b% x\n %\x7d\nGET http://h/?q\n  &p HTTP/1.1\nK: v\n\n\x7b\n\x7d\n \n### two".toList

/-- The tree of `spreadText`. -/
def spreadTree : Tree where
  head := some
    { items :=
        [.variable ⟨.identifier, "a".toList, ⟨1, 2⟩⟩ (some ⟨.value, "1".toList, ⟨1, 6⟩⟩),
          .preRequest ⟨.script, "\x7b% x\n %\x7d".toList, ⟨2, 3⟩⟩]
      request := some
        { method := some ⟨.method, "GET".toList, ⟨4, 1⟩⟩
          target := ⟨.target, "http://h/?q\n  &p".toList, ⟨4, 5⟩⟩
          tail :=
            { version := some ⟨.version, "HTTP/1.1".toList, ⟨5, 6⟩⟩
              headers := [⟨.header, "K: v".toList, ⟨6, 1⟩⟩]
              body := some ⟨.jsonBody, "\x7b\n\x7d\n \n".toList, ⟨8, 1⟩⟩ } } }
  sections := [(some ⟨.separatorText, " two".toList, ⟨11, 4⟩⟩, {})]

theorem parse_tiles_example :
    parse spreadText = .ok spreadTree ∧
      Tiles (normalize spreadText) (normalize spreadText) spreadTree.toNode.tokens := by
  refine ⟨?read, parse_tiles ?read⟩
  decide +kernel

end HttpFile.Syntax
