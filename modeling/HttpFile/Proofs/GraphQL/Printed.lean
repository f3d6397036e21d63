import HttpFile.GraphQL.Parser
import HttpFile.GraphQL.Printer
import HttpFile.Proofs.Log
import HttpFile.Proofs.Text.Trim

/-!
# `HttpFile.Proofs.GraphQL.Printed` — what is printed for a query document

A document that was parsed has a definition, and something is printed for it. A definition could be printed as
nothing only if it were a query without a name, variables and directives whose selections are all printed as nothing,
and a selection starts with dots or with a name, which is never empty.

## Contents
- **Steps.** `bind_eq_ok`, `name_eq_ok`.
- **Names.** `Named`, `named_lexemes`: no name is empty.
- **Selections.** `selection_ne_nil`, `printSelections_ne_nil`.
- **Definitions.** `headed_print`: nothing is printed, or something that starts with no blank.
- **Documents.** `print_ne_nil`.
-/

namespace HttpFile.GraphQL

open Text Unicode

/-! ## Steps -/

section
variable {α β : Type} {s s' : Stream}

/-- Reading one thing after the other. -/
theorem bind_eq_ok {x : Parse α} {f : α → Parse β} {b : β} :
    (x >>= f) s = .ok (b, s') ↔ ∃ a u, x s = .ok (a, u) ∧ f a u = .ok (b, s') := by
  have hbind : (x >>= f) s = (x s).bind fun p => f p.1 p.2 := rfl
  rw [hbind]
  cases x s with
  | error e => simp [Except.bind]
  | ok p => simp [Except.bind, Prod.ext_iff]

theorem here_bind (f : Token → Parse β) (s : Stream) : (here >>= f) s = f s.here s := rfl

theorem peek_bind (p : Punctuator) (f : Bool → Parse β) (s : Stream) :
    (peek p >>= f) s = f (decide (s.here = .punctuator p)) s := rfl

/-- A name is read where one is at hand. -/
theorem name_eq_ok {t : Text} (h : name s = .ok (t, s')) : s.here = .name t ∧ advance s = .ok ((), s') := by
  unfold name at h
  rw [here_bind] at h
  cases hname : s.here with
  | name t' =>
      rw [hname] at h
      obtain ⟨a, u, hadvance, h⟩ := bind_eq_ok.mp h
      injection h with h
      injection h with ht hs
      subst ht hs
      exact ⟨rfl, hadvance⟩
  | _ =>
      rw [hname] at h
      cases h

end

/-! ## Names -/

/-- No name among lexemes is empty. -/
def Named (ts : List Token) : Prop := .name [] ∉ ts

theorem number_ne_name {t after : Text} {token : Token} (h : number t = .ok (token, after)) (n : Text) :
    token ≠ .name n := by
  unfold number at h
  obtain ⟨⟨whole, rest⟩, -, h⟩ := ok_of_bind h
  obtain ⟨⟨frac, rest'⟩, -, h⟩ := ok_of_bind h
  obtain ⟨⟨power, rest''⟩, -, h⟩ := ok_of_bind h
  have hnumber : ∀ sign : Text, (if frac.isEmpty && power.isEmpty then Token.int (sign ++ whole ++ frac ++ power)
      else Token.float (sign ++ whole ++ frac ++ power)) ≠ .name n := by
    intro sign
    split <;> simp
  dsimp only at h
  split at h
  · split at h
    · cases h
    · injection h with h
      exact (Prod.mk.inj h).1 ▸ hnumber _
  · injection h with h
    exact (Prod.mk.inj h).1 ▸ hnumber _

theorem dots_ne_name {t after : Text} {token : Token} (h : dots t = .ok (token, after)) (n : Text) :
    token ≠ .name n := by
  unfold dots at h
  split at h
  · injection h with h
    rw [← (Prod.mk.inj h).1]
    simp
  · cases h
  · split at h <;> cases h

theorem lexeme_ne_name {t after : Text} {token : Token} (h : lexeme t = .ok (token, after)) : token ≠ .name [] := by
  cases t with
  | nil =>
      rw [← (Prod.mk.inj (Except.ok.inj h)).1]
      simp
  | cons c rest =>
      unfold lexeme at h
      dsimp only at h
      split at h
      · rw [← (Prod.mk.inj (Except.ok.inj h)).1]
        simp
      · split at h
        · split at h
          · obtain ⟨p, -, h⟩ := map_eq_ok h
            rw [← (Prod.mk.inj h).1]
            simp
          · obtain ⟨p, -, h⟩ := map_eq_ok h
            rw [← (Prod.mk.inj h).1]
            simp
        · split at h
          · exact number_ne_name h []
          · split at h
            · next hstart =>
                have hrest : isNameRest c = true := by
                  simp only [isNameStart, isNameRest, Char.isAlphanum, Bool.or_eq_true] at hstart ⊢
                  exact hstart.imp_left Or.inl
                rw [← (Prod.mk.inj (Except.ok.inj h)).1, List.takeWhile_cons_of_pos hrest]
                simp
            · split at h
              · exact dots_ne_name h []
              · split at h <;> cases h

/-- **No name among the lexemes of a text is empty.** -/
theorem named_lexemesFrom (comment : Bool) (skip : Nat) (t : Text) : Named (lexemesFrom comment skip t).1 := by
  unfold Named
  induction t generalizing comment skip with
  | nil =>
      rw [lexemesFrom]
      exact List.not_mem_nil
  | cons c t ih =>
      cases skip with
      | succ skip => exact ih comment skip
      | zero =>
          cases comment with
          | true => exact ih _ 0
          | false =>
              rw [lexemesFrom]
              split
              · exact ih false 0
              · split
                · exact ih true 0
                · split
                  · exact List.not_mem_nil
                  · next token after hlexeme =>
                      intro hin
                      rcases List.mem_cons.mp hin with hin | hin
                      · exact lexeme_ne_name hlexeme hin.symm
                      · exact ih false _ hin

/-- No name from the lexeme at hand on is empty. -/
def Stream.IsNamed (s : Stream) : Prop := Named (s.here :: s.rest)

theorem Stream.IsNamed.advance {s s' : Stream} (hs : s.IsNamed) (h : GraphQL.advance s = .ok ((), s')) :
    s'.IsNamed := by
  obtain ⟨token, rest, fault⟩ := s
  have hrest : Named rest := fun hin => hs (List.mem_cons_of_mem token hin)
  cases rest with
  | nil =>
      cases fault with
      | none =>
          obtain rfl := (Prod.mk.inj (Except.ok.inj h)).2
          exact fun hin => by simp at hin
      | some f => cases h
  | cons t rest =>
      obtain rfl := (Prod.mk.inj (Except.ok.inj h)).2
      exact hrest

/-! ## What parts are printed as -/

section
variable {sep t : Text} {parts : List Text}

theorem joined_ne_nil (ht : t ∈ parts) (hne : t ≠ []) : joined sep parts ≠ [] := by
  have hmem : t ∈ parts.filter (· ≠ []) := List.mem_filter.mpr ⟨ht, by simpa using hne⟩
  unfold joined
  cases hparts : parts.filter (· ≠ []) with
  | nil =>
      rw [hparts] at hmem
      cases hmem
  | cons u rest =>
      have hu : u ≠ [] := by
        have hin : u ∈ parts.filter (· ≠ []) := hparts ▸ List.mem_cons_self
        simpa using (List.mem_filter.mp hin).2
      cases rest with
      | nil => rwa [List.intercalate_singleton]
      | cons v rest =>
          rw [List.intercalate_cons_cons, List.append_assoc]
          exact List.append_ne_nil_of_left_ne_nil hu _

theorem wrapped_ne_nil {before after : Text} (h : t ≠ []) : wrapped before t after ≠ [] := by
  unfold wrapped
  rw [if_neg (by simpa using h)]
  simp [h]

theorem indented_ne_nil (h : t ≠ []) : indented t ≠ [] := by
  refine wrapped_ne_nil ?_
  unfold replaceAll
  split
  · exact h
  · cases t with
    | nil => exact absurd rfl h
    | cons c t =>
        rw [replaceFrom]
        split <;> simp

theorem braced_ne_nil (ht : t ∈ parts) (hne : t ≠ []) : braced parts ≠ [] :=
  wrapped_ne_nil (indented_ne_nil (joined_ne_nil ht hne))

end

/-! ## Selections -/

section
variable {s s' : Stream} {fuel levels : Nat}

theorem skipIf_eq_ok {p : Punctuator} {b : Bool} (h : skipIf p s = .ok (b, s')) :
    (b = true ∧ advance s = .ok ((), s')) ∨ b = false ∧ s' = s := by
  unfold skipIf at h
  rw [peek_bind] at h
  split at h
  · obtain ⟨a, u, hadvance, h⟩ := bind_eq_ok.mp h
    obtain ⟨rfl, rfl⟩ := Prod.mk.inj (Except.ok.inj h)
    exact Or.inl ⟨rfl, hadvance⟩
  · obtain ⟨rfl, rfl⟩ := Prod.mk.inj (Except.ok.inj h)
    exact Or.inr ⟨rfl, rfl⟩

/-- Whatever a reader gives has a property. -/
def Gives {α : Type} (P : α → Prop) (x : Parse α) : Prop := ∀ s a s', x s = .ok (a, s') → P a

section
variable {α β : Type} {P : α → Prop}

theorem gives_pure {a : α} (h : P a) : Gives P (pure a : Parse α) := by
  intro s b s' hrun
  obtain ⟨rfl, -⟩ := Prod.mk.inj (Except.ok.inj hrun)
  exact h

theorem gives_bind {x : Parse β} {f : β → Parse α} (h : ∀ b, Gives P (f b)) : Gives P (x >>= f) := by
  intro s a s' hrun
  obtain ⟨b, u, -, hrun⟩ := bind_eq_ok.mp hrun
  exact h b u a s' hrun

theorem gives_throw (e : Fault) : Gives P (throw e : Parse α) := fun _ _ _ h => by cases h

theorem gives_unexpected : Gives P (unexpected : Parse α) := gives_bind fun _ => gives_throw _

end

theorem gives_spreadSelection (inner : Parse (List Selection)) :
    Gives (fun x => Selection.print x ≠ []) (spreadSelection fuel levels inner) := by
  refine gives_bind fun conditional => gives_bind fun token => ?_
  split
  · split
    · refine gives_bind fun condition => gives_bind fun ds => gives_bind fun ss => gives_pure ?_
      rw [Selection.print]
      exact joined_ne_nil List.mem_cons_self (by decide)
    · refine gives_bind fun n => gives_bind fun ds => gives_pure ?_
      rw [Selection.print]
      simp
  · split
    · exact gives_throw _
    · refine gives_bind fun ds => gives_bind fun ss => gives_pure ?_
      rw [Selection.print]
      exact joined_ne_nil List.mem_cons_self (by decide)

theorem fieldHead_ne_nil {label : Option Text} {n : Text} (h : label.getD n ≠ []) (args : List Argument) :
    fieldHead label n args ≠ [] := by
  have hstart : ∀ start t u : Text, start ≠ [] →
      (if maxLine < (start ++ t).length then start ++ u else start ++ t) ≠ [] := by
    intro start t u hne
    split <;> exact List.append_ne_nil_of_left_ne_nil hne _
  unfold fieldHead
  cases label with
  | none => exact hstart _ _ _ h
  | some l => exact hstart _ _ _ (List.append_ne_nil_of_left_ne_nil (wrapped_ne_nil h) n)

theorem print_field_ne_nil {label : Option Text} {n : Text} (h : label.getD n ≠ []) (args : List Argument)
    (ds : List Directive) (parts : Option (List Selection)) : (Selection.field label n args ds parts).print ≠ [] := by
  cases parts with
  | none =>
      rw [Selection.print]
      exact joined_ne_nil List.mem_cons_self (fieldHead_ne_nil h args)
  | some ss =>
      rw [Selection.print]
      exact joined_ne_nil List.mem_cons_self (fieldHead_ne_nil h args)

theorem fieldSelection_ne_nil {inner : Parse (List Selection)} {x : Selection} (hs : s.IsNamed)
    (h : fieldSelection fuel levels inner s = .ok (x, s')) : x.print ≠ [] := by
  obtain ⟨first, u, hname, h⟩ := bind_eq_ok.mp h
  have hfirst : first ≠ [] := by
    rintro rfl
    exact hs ((name_eq_ok hname).1 ▸ List.mem_cons_self)
  have hrest : ∀ label n, label.getD n ≠ [] → Gives (fun x => Selection.print x ≠ []) (do
      let args ← arguments fuel false levels
      let ds ← directives fuel false levels
      let parts ← if ← peek .braceL then pure (some (← inner)) else pure none
      return Selection.field label n args ds parts) := by
    intro label n hne
    refine gives_bind fun args => gives_bind fun ds => gives_bind fun brace => ?_
    dsimp only
    split
    · exact gives_bind fun ss => gives_bind fun parts => gives_pure (print_field_ne_nil hne args ds parts)
    · exact gives_bind fun parts => gives_pure (print_field_ne_nil hne args ds parts)
  obtain ⟨b, v, -, h⟩ := bind_eq_ok.mp h
  dsimp only at h
  split at h
  · obtain ⟨n, w, -, h⟩ := bind_eq_ok.mp h
    exact hrest (some first) n hfirst w x s' h
  · exact hrest none first hfirst v x s' h

theorem selection_ne_nil {inner : Parse (List Selection)} {x : Selection} (hs : s.IsNamed)
    (h : selection fuel levels inner s = .ok (x, s')) : x.print ≠ [] := by
  obtain ⟨b, u, hskip, hrest⟩ := bind_eq_ok.mp h
  rcases skipIf_eq_ok hskip with ⟨rfl, -⟩ | ⟨rfl, rfl⟩
  · exact gives_spreadSelection inner u x s' hrest
  · exact fieldSelection_ne_nil hs hrest

/-- **Something is printed for the selections that are read.** -/
theorem printSelections_ne_nil {ss : List Selection} (hs : s.IsNamed)
    (h : selections fuel levels s = .ok (ss, s')) : printSelections ss ≠ [] := by
  cases levels with
  | zero => cases h
  | succ levels =>
      rw [selections, surrounded] at h
      obtain ⟨⟨⟩, u, hexpect, hupTo⟩ := bind_eq_ok.mp h
      have hu : u.IsNamed := by
        unfold expect at hexpect
        rw [here_bind] at hexpect
        split at hexpect
        · exact hs.advance hexpect
        · cases hexpect
      cases fuel with
      | zero => cases hupTo
      | succ fuel =>
          rw [upTo] at hupTo
          obtain ⟨b, v, hskip, hrest⟩ := bind_eq_ok.mp hupTo
          rcases skipIf_eq_ok hskip with ⟨rfl, -⟩ | ⟨rfl, rfl⟩
          · obtain ⟨rfl, -⟩ := Prod.mk.inj (Except.ok.inj hrest)
            rw [printSelections, Selection.printAll]
            decide
          · obtain ⟨first, w, hfirst, hmore⟩ := bind_eq_ok.mp hrest
            obtain ⟨more, x, -, hpure⟩ := bind_eq_ok.mp hmore
            obtain ⟨rfl, -⟩ := Prod.mk.inj (Except.ok.inj hpure)
            rw [printSelections, Selection.printAll, selectionBlock, if_neg (by simp)]
            exact braced_ne_nil List.mem_cons_self (selection_ne_nil hu hfirst)

end

/-! ## Definitions -/

/-- A text that starts with no blank. -/
def Headed (t : Text) : Prop := ∃ c u, t = c :: u ∧ isBlank c = false

theorem Headed.append {t : Text} (h : Headed t) (u : Text) : Headed (t ++ u) := by
  obtain ⟨c, v, rfl, hc⟩ := h
  exact ⟨c, v ++ u, rfl, hc⟩

theorem Headed.ne_nil {t : Text} (h : Headed t) : t ≠ [] := by
  obtain ⟨c, u, rfl, -⟩ := h
  exact List.cons_ne_nil c u

theorem headed_joined {sep t : Text} (h : Headed t) (parts : List Text) : Headed (joined sep (t :: parts)) := by
  unfold joined
  rw [List.filter_cons_of_pos (by simpa using h.ne_nil)]
  cases parts.filter (· ≠ []) with
  | nil => rwa [List.intercalate_singleton]
  | cons u rest =>
      rw [List.intercalate_cons_cons, List.append_assoc]
      exact h.append _

theorem headed_string (s : StringValue) : Headed s.print := by
  unfold StringValue.print
  split
  · exact ⟨'"', _, rfl, by decide⟩
  · exact ⟨'"', _, rfl, by decide⟩

theorem describe_some (s : StringValue) : describe (some s) = s.print ++ ['\n'] := by
  obtain ⟨c, u, hs, -⟩ := headed_string s
  show wrapped [] s.print "\n" = _
  rw [wrapped, hs]
  rfl

/-- A description does not change that what follows it starts with no blank. -/
theorem headed_describe (desc : Option StringValue) {t : Text} (h : Headed t) : Headed (describe desc ++ t) := by
  cases desc with
  | none => exact h
  | some s =>
      rw [describe_some]
      exact ((headed_string s).append _).append _

theorem headed_kind (kind : OperationType) : Headed kind.text := by
  cases kind <;> exact ⟨_, _, rfl, by decide⟩

theorem headed_parts (body : TypeBody) : Headed (joined " " body.parts) := by
  cases body <;> exact headed_joined ⟨_, _, rfl, by decide⟩ _

theorem headed_selections {ss : List Selection} (h : printSelections ss ≠ []) : Headed (printSelections ss) := by
  unfold printSelections selectionBlock at h ⊢
  split
  · exact ⟨'{', _, rfl, by decide⟩
  · next hparts =>
      rw [if_neg hparts] at h
      unfold braced wrapped at h ⊢
      split
      · next hempty =>
          rw [if_pos hempty] at h
          exact absurd rfl h
      · exact ⟨'{', _, rfl, by decide⟩

/-- What is printed for a definition that is no operation starts with no blank. -/
theorem headed_print_of_ne {d : Definition}
    (h : ∀ desc kind n vars ds ss, d ≠ .operation desc kind n vars ds ss) : Headed d.print := by
  cases d with
  | operation desc kind n vars ds ss => exact absurd rfl (h desc kind n vars ds ss)
  | fragment desc n condition ds ss =>
      rw [Definition.print]
      simp only [List.append_assoc]
      exact headed_describe desc ⟨'f', _, rfl, by decide⟩
  | type desc body => exact headed_describe desc (headed_parts body)
  | extension added =>
      cases added with
      | type body => exact headed_joined ⟨'e', _, rfl, by decide⟩ _
      | directive n ds => exact headed_joined ⟨'e', _, rfl, by decide⟩ _
  | directive desc n args ds repeatable locations =>
      rw [Definition.print]
      simp only [List.append_assoc]
      exact headed_describe desc ⟨'d', _, rfl, by decide⟩

/-- **What is printed for a definition starts with no blank**, if anything is printed. -/
theorem headed_print {d : Definition} (h : d.print ≠ []) : Headed d.print := by
  cases d with
  | operation desc kind n vars ds ss =>
      rw [Definition.print] at h ⊢
      split
      · next hquery =>
          rw [if_pos hquery] at h
          exact headed_selections h
      · refine Headed.append (Headed.append ?_ _) _
        exact headed_describe desc (headed_joined (headed_kind kind) _)
  | _ => exact headed_print_of_ne (by simp)

/-! ## Queries without a word -/

theorem joined_eq_self {t u : Text} {parts : List Text} (ht : t ≠ []) (h : joined " " (t :: parts) = u)
    (hu : ' ' ∉ u) : t = u ∧ ∀ p ∈ parts, p = [] := by
  unfold joined at h
  rw [List.filter_cons_of_pos (by simpa using ht)] at h
  cases hparts : parts.filter (· ≠ []) with
  | nil =>
      rw [hparts, List.intercalate_singleton] at h
      refine ⟨h, fun p hp => ?_⟩
      by_contra hne
      have hin : p ∈ parts.filter (· ≠ []) := List.mem_filter.mpr ⟨hp, by simpa using hne⟩
      rw [hparts] at hin
      cases hin
  | cons p rest =>
      rw [hparts, List.intercalate_cons_cons, List.append_assoc] at h
      have hin : ' ' ∈ u := h ▸ List.mem_append_right t (List.mem_append_left _ List.mem_cons_self)
      exact absurd hin hu

theorem joined_eq_nil {sep : Text} {parts : List Text} (h : joined sep parts = []) : ∀ p ∈ parts, p = [] := by
  intro p hp
  by_contra hne
  exact joined_ne_nil hp hne h

theorem eq_nil_of_printDirectives {ds : List Directive} (h : printDirectives ds = []) : ds = [] := by
  cases ds with
  | nil => rfl
  | cons d ds =>
      have hd := joined_eq_nil h d.print (List.mem_map_of_mem List.mem_cons_self)
      simp [Directive.print] at hd

theorem eq_nil_of_printVariables {vs : List VariableDefinition} (h : printVariables vs = []) : vs = [] := by
  cases vs with
  | nil => rfl
  | cons v vs =>
      have hv : v.print ≠ [] := by simp [VariableDefinition.print]
      have hin : v.print ∈ (v :: vs).map VariableDefinition.print := List.mem_map_of_mem List.mem_cons_self
      unfold printVariables at h
      dsimp only at h
      split at h
      · exact absurd h (wrapped_ne_nil (joined_ne_nil hin hv))
      · exact absurd h (wrapped_ne_nil (joined_ne_nil hin hv))

/-- An operation is printed as its selections only if it is a query and nothing stands in front of them. -/
theorem print_operation_ne_nil {desc : Option StringValue} {kind : OperationType} {n : Option Text}
    {vars : List VariableDefinition} {ds : List Directive} {ss : List Selection}
    (h : desc = none → n.getD [] = [] → vars = [] → ds = [] → printSelections ss ≠ []) :
    (Definition.operation desc kind n vars ds ss).print ≠ [] := by
  rw [Definition.print]
  split
  · next hquery =>
      cases desc with
      | some s =>
          -- a description ends in a newline
          rw [describe_some] at hquery
          have hin : '\n' ∈ "query".toList := hquery ▸ by simp
          exact absurd hin (by decide)
      | none =>
          obtain ⟨-, hempty⟩ := joined_eq_self (by cases kind <;> decide) hquery (by decide)
          have hfront := joined_eq_nil (hempty _ List.mem_cons_self)
          exact h rfl (hfront _ List.mem_cons_self) (eq_nil_of_printVariables (hfront _ (by simp)))
            (eq_nil_of_printDirectives (hempty _ (by simp)))
  · simp

section
variable {s s' : Stream} {fuel levels : Nat}

theorem description_eq_none (h : description s = .ok (none, s')) : s' = s := by
  unfold description at h
  rw [here_bind] at h
  have hsome : ∀ x : StringValue, Gives (fun d : Option StringValue => d ≠ none) (do
      advance
      return some x) := fun x => gives_bind fun _ => gives_pure (by simp)
  cases hhere : s.here with
  | string t =>
      rw [hhere] at h
      exact absurd rfl (hsome _ s none s' h)
  | block t =>
      rw [hhere] at h
      exact absurd rfl (hsome _ s none s' h)
  | _ =>
      rw [hhere] at h
      exact (Prod.mk.inj (Except.ok.inj h)).2.symm

theorem advance_of_operationType {kind : OperationType} (h : operationType s = .ok (kind, s')) :
    advance s = .ok ((), s') := by
  unfold operationType at h
  rw [here_bind] at h
  obtain ⟨word, u, hname, h⟩ := bind_eq_ok.mp h
  have hu : s' = u := by
    split at h
    · exact (Prod.mk.inj (Except.ok.inj h)).2.symm
    · split at h
      · exact (Prod.mk.inj (Except.ok.inj h)).2.symm
      · split at h
        · exact (Prod.mk.inj (Except.ok.inj h)).2.symm
        · cases h
  exact hu ▸ (name_eq_ok hname).2

theorem optionalSurrounded_eq_nil {α : Type} {opening closing : Punctuator} {part : Parse α}
    (h : optionalSurrounded fuel opening closing part s = .ok ([], s')) : s' = s := by
  unfold optionalSurrounded at h
  rw [peek_bind] at h
  split at h
  · have hsome : Gives (fun xs : List α => xs ≠ []) (surroundedSome fuel opening closing part) :=
      gives_bind fun _ => gives_bind fun _ => gives_bind fun _ => gives_pure (List.cons_ne_nil _ _)
    exact absurd rfl (hsome s _ s' h)
  · exact (Prod.mk.inj (Except.ok.inj h)).2.symm

theorem directives_eq_nil {constant : Bool} (h : directives fuel constant levels s = .ok ([], s')) : s' = s := by
  unfold directives at h
  cases fuel with
  | zero => cases h
  | succ fuel =>
      rw [directivesUpTo] at h
      obtain ⟨b, u, hskip, hrest⟩ := bind_eq_ok.mp h
      rcases skipIf_eq_ok hskip with ⟨rfl, -⟩ | ⟨rfl, rfl⟩
      · have hsome : Gives (fun ds : List Directive => ds ≠ []) (do
            let n ← name
            let args ← arguments (fuel + 1) constant levels
            let more ← directivesUpTo (fuel + 1) constant levels fuel
            return (⟨n, args⟩ : Directive) :: more) :=
          gives_bind fun _ => gives_bind fun _ => gives_bind fun _ => gives_pure (List.cons_ne_nil _ _)
        exact absurd rfl (hsome u _ s' hrest)
      · exact (Prod.mk.inj (Except.ok.inj hrest)).2.symm

/-- **Something is printed for an operation that is read.** -/
theorem operation_ne_nil {d : Definition} (hs : s.IsNamed) (h : operation fuel s = .ok (d, s')) : d.print ≠ [] := by
  unfold operation at h
  rw [peek_bind] at h
  split at h
  · obtain ⟨ss, u, hss, hpure⟩ := bind_eq_ok.mp h
    obtain ⟨rfl, -⟩ := Prod.mk.inj (Except.ok.inj hpure)
    exact print_operation_ne_nil fun _ _ _ _ => printSelections_ne_nil hs hss
  · obtain ⟨desc, u, hdesc, h⟩ := bind_eq_ok.mp h
    obtain ⟨kind, v, hkind, h⟩ := bind_eq_ok.mp h
    -- what stands in front of the selections is nothing only if nothing was read there
    have hrest : ∀ n w, (desc = none → n.getD [] = [] → w.IsNamed) → (do
        let vars ← optionalSurrounded fuel .parenL .parenR (variableDefinition fuel)
        let ds ← directives fuel false maxNesting
        return Definition.operation desc kind n vars ds (← selections fuel maxNesting) : Parse Definition) w =
          .ok (d, s') → d.print ≠ [] := by
      intro n w hnamed h
      obtain ⟨vars, w₁, hvars, h⟩ := bind_eq_ok.mp h
      obtain ⟨ds, w₂, hds, h⟩ := bind_eq_ok.mp h
      obtain ⟨ss, w₃, hss, hpure⟩ := bind_eq_ok.mp h
      obtain ⟨rfl, -⟩ := Prod.mk.inj (Except.ok.inj hpure)
      refine print_operation_ne_nil fun hnone hname hnovars hnods => ?_
      subst hnovars hnods
      rw [directives_eq_nil hds, optionalSurrounded_eq_nil hvars] at hss
      exact printSelections_ne_nil (hnamed hnone hname) hss
    have hv : desc = none → v.IsNamed := by
      rintro rfl
      rw [description_eq_none hdesc] at hkind
      exact hs.advance (advance_of_operationType hkind)
    rw [here_bind] at h
    cases hhere : v.here with
    | name t =>
        rw [hhere] at h
        obtain ⟨n, w, hname, h⟩ := bind_eq_ok.mp h
        refine hrest (some n) w (fun hnone hempty => ?_) h
        obtain rfl : n = [] := hempty
        exact absurd ((name_eq_ok hname).1 ▸ List.mem_cons_self) (hv hnone)
    | _ =>
        rw [hhere] at h
        exact hrest none v (fun hnone _ => hv hnone) h

theorem lookahead_eq_ok {t : Token} (h : lookahead s = .ok (t, s')) : s' = s := by
  unfold lookahead at h
  split at h
  · exact (Prod.mk.inj (Except.ok.inj h)).2.symm
  · exact (Prod.mk.inj (Except.ok.inj h)).2.symm
  · cases h
  · exact (Prod.mk.inj (Except.ok.inj h)).2.symm

theorem gives_fragment : Gives (fun d => Definition.print d ≠ []) (fragment fuel) :=
  gives_bind fun _ => gives_bind fun _ => gives_bind fun _ => gives_bind fun _ => gives_bind fun _ =>
    gives_bind fun _ => gives_bind fun _ => gives_pure (headed_print_of_ne (by simp)).ne_nil

theorem gives_extension : Gives (fun d => Definition.print d ≠ []) (extension fuel) := by
  have hadded : ∀ added : Extension, Gives (fun d => Definition.print d ≠ [])
      (if added.isEmpty then unexpected else return .extension added : Parse Definition) := by
    intro added
    split
    · exact gives_unexpected
    · exact gives_pure (headed_print_of_ne (by simp)).ne_nil
  refine gives_bind fun word => ?_
  split
  · refine gives_bind fun _ => ?_
    dsimp only
    split
    · exact gives_bind fun added => hadded added
    · exact gives_bind fun body => gives_bind fun added => hadded added
  · exact gives_throw _

theorem gives_directiveDefinition : Gives (fun d => Definition.print d ≠ []) (directiveDefinition fuel) :=
  gives_bind fun _ => gives_bind fun _ => gives_bind fun _ => gives_bind fun _ => gives_bind fun _ =>
    gives_bind fun _ => gives_bind fun _ => gives_bind fun _ => gives_bind fun _ =>
      gives_pure (headed_print_of_ne (by simp)).ne_nil

/-- What the word that tells the kind of a definition leads to. -/
def definitionAt (fuel : Nat) (described : Bool) (word : Token) : Parse Definition := do
  if described && word = .punctuator .braceL then throw .describedShorthand
  else if word.isOneOf typeWords then
    let desc ← description
    return .type desc (← typeBody fuel false)
  else if word.isOneOf ["directive"] then directiveDefinition fuel
  else if word.isOneOf ["query", "mutation", "subscription"] then operation fuel
  else if word.isOneOf ["fragment"] then fragment fuel
  else
    match word with
    | .name _ =>
      if described then throw .strayDescription
      else if word.isOneOf ["extend"] then extension fuel
      else throw (.unexpected word)
    | _ => throw (.unexpected word)

theorem definitionAt_ne_nil {d : Definition} {described : Bool} {word : Token} (hs : s.IsNamed)
    (h : definitionAt fuel described word s = .ok (d, s')) : d.print ≠ [] := by
  have htype : Gives (fun d => Definition.print d ≠ []) (do
      let desc ← description
      return Definition.type desc (← typeBody fuel false)) :=
    gives_bind fun _ => gives_bind fun _ => gives_pure (headed_print_of_ne (by simp)).ne_nil
  unfold definitionAt at h
  split at h
  · cases h
  split at h
  · exact htype s d s' h
  split at h
  · exact gives_directiveDefinition s d s' h
  split at h
  · exact operation_ne_nil hs h
  split at h
  · exact gives_fragment s d s' h
  cases word with
  | name t =>
      dsimp only at h
      split at h
      · cases h
      · split at h
        · exact gives_extension s d s' h
        · cases h
  | _ => cases h

/-- **Something is printed for a definition that is read.** -/
theorem definition_ne_nil {d : Definition} (hs : s.IsNamed) (h : definition fuel s = .ok (d, s')) : d.print ≠ [] := by
  -- looking ahead changes nothing
  have hnext : ∀ described : Bool, (if described then lookahead >>= definitionAt fuel described
      else here >>= definitionAt fuel described) s = .ok (d, s') → d.print ≠ [] := by
    intro described h
    split at h
    · obtain ⟨word, u, hlookahead, hrest⟩ := bind_eq_ok.mp h
      obtain rfl := lookahead_eq_ok hlookahead
      exact definitionAt_ne_nil hs hrest
    · exact definitionAt_ne_nil hs h
  unfold definition at h
  rw [peek_bind] at h
  split at h
  · exact operation_ne_nil hs h
  · exact hnext _ h

end

/-! ## Documents -/

/-- **A document that is read has a first definition, and something is printed for it.** -/
theorem parse_cons {t : Text} {ds : List Definition} (h : parse t = .ok ds) :
    ∃ d more, ds = d :: more ∧ d.print ≠ [] := by
  have hnamed : Named (lexemes t).1 := named_lexemesFrom false 0 t
  rcases hlexemes : lexemes t with ⟨tokens, fault⟩
  rw [hlexemes] at hnamed
  unfold parse at h
  rw [hlexemes] at h
  cases tokens with
  | nil => cases fault <;> cases h
  | cons first rest =>
      have hfirst : (Stream.mk first rest fault).IsNamed := hnamed
      dsimp only at h
      split at h
      · next ds' s' hrun =>
          obtain rfl := Except.ok.inj h
          -- a definition is read before it is asked whether another follows
          rw [definitions] at hrun
          obtain ⟨d, u, hd, hrest⟩ := bind_eq_ok.mp hrun
          have hprint := definition_ne_nil hfirst hd
          rw [here_bind] at hrest
          split at hrest
          · obtain ⟨rfl, -⟩ := Prod.mk.inj (Except.ok.inj hrest)
            exact ⟨d, [], rfl, hprint⟩
          · obtain ⟨more, v, -, hpure⟩ := bind_eq_ok.mp hrest
            obtain ⟨rfl, -⟩ := Prod.mk.inj (Except.ok.inj hpure)
            exact ⟨d, more, rfl, hprint⟩
      · cases h

end HttpFile.GraphQL
