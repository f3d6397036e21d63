import HttpFile.Proofs.Log
import HttpFile.Proofs.Text.Line
import HttpFile.Proofs.Text.Replace
import HttpFile.Source.OpenApi.Reference

/-!
# `HttpFile.Proofs.Source.Reference` — where a chain of references ends

A node of a specification may refer to another place, and what stands there may refer further. The chain is
described without the bound: which keys a pointer spells, where they lead, and what one reference after the
other leads to. Each node has one chain, so it ends in one way: at a node without a reference, at a
reference to elsewhere, at a pointer that leads nowhere, or at the bound.

## Contents
- **Pointers.** `Spells`, `spells_iff`: a pointer spells one list of keys.
- **Places.** `Reaches`, `reaches_iff`: keys lead through mappings.
- **Chains.** `Refers`, `Chain`; `resolveWithin_of_chain`, `exists_chain`.
- **Main result.** `Ends`: the four ends of a chain; `resolve_ends`.
-/

namespace HttpFile.Source.OpenApi

open Text

/-! ## Pointers -/

/-- A pointer spells the keys between its slashes; inside of a key, `~1` stands for a slash and `~0` for a
    tilde. -/
inductive Spells : Text → List Text → Prop
  | done : Spells [] [[]]
  | next {pointer : Text} {keys : List Text} (h : Spells pointer keys) : Spells ('/' :: pointer) ([] :: keys)
  | slash {pointer key : Text} {keys : List Text} (h : Spells pointer (key :: keys)) :
      Spells ('~' :: '1' :: pointer) (('/' :: key) :: keys)
  | tilde {pointer key : Text} {keys : List Text} (h : Spells pointer (key :: keys)) :
      Spells ('~' :: '0' :: pointer) (('~' :: key) :: keys)
  | plain {c : Char} {pointer key : Text} {keys : List Text} (hc : c ≠ '/')
      (hescape : c = '~' → pointer.head? ≠ some '0' ∧ pointer.head? ≠ some '1')
      (h : Spells pointer (key :: keys)) : Spells (c :: pointer) ((c :: key) :: keys)

theorem pair_prefix_iff {a b c : Char} {t : Text} : [a, b] <+: c :: t ↔ a = c ∧ t.head? = some b := by
  rw [List.cons_prefix_cons]
  cases t with
  | nil => simp
  | cons d t => simp [eq_comm]

/-- Undoing one escape makes no start of another one. -/
theorem head_replaceAll_slash {t : Text} (h : t.head? ≠ some '0') :
    (replaceAll ['~', '1'] ['/'] t).head? ≠ some '0' := by
  cases t with
  | nil => simp [replaceAll, replaceFrom]
  | cons c t =>
      by_cases hp : ['~', '1'] <+: c :: t
      · obtain ⟨rest, hrest⟩ := hp
        rw [← hrest, replaceAll_pattern_append (by simp)]
        simp
      · rw [replaceAll_cons hp]
        exact h

theorem unescapeKey_slash (t : Text) : unescapeKey ('~' :: '1' :: t) = '/' :: unescapeKey t := by
  unfold unescapeKey
  have hinner : replaceAll ['~', '1'] ['/'] ('~' :: '1' :: t) = '/' :: replaceAll ['~', '1'] ['/'] t :=
    replaceAll_pattern_append (by simp)
  rw [hinner, replaceAll_cons (by simp)]

theorem unescapeKey_tilde (t : Text) : unescapeKey ('~' :: '0' :: t) = '~' :: unescapeKey t := by
  unfold unescapeKey
  have hinner : replaceAll ['~', '1'] ['/'] ('~' :: '0' :: t) = '~' :: '0' :: replaceAll ['~', '1'] ['/'] t := by
    rw [replaceAll_cons (by simp), replaceAll_cons (by simp)]
  rw [hinner]
  exact replaceAll_pattern_append (by simp)

theorem unescapeKey_plain {c : Char} {t : Text}
    (h : c = '~' → t.head? ≠ some '0' ∧ t.head? ≠ some '1') : unescapeKey (c :: t) = c :: unescapeKey t := by
  unfold unescapeKey
  have hslash : ¬['~', '1'] <+: c :: t := fun hp => by
    obtain ⟨hc, hhead⟩ := pair_prefix_iff.mp hp
    exact (h hc.symm).2 hhead
  have htilde : ¬['~', '0'] <+: c :: replaceAll ['~', '1'] ['/'] t := fun hp => by
    obtain ⟨hc, hhead⟩ := pair_prefix_iff.mp hp
    exact head_replaceAll_slash (h hc.symm).1 hhead
  rw [replaceAll_cons hslash, replaceAll_cons htilde]

/-- The first piece of a text starts as the text does, unless it is empty. -/
theorem head_of_fieldsAt {sep d : Char} {t field : Text} {fields : List Text}
    (h : fieldsAt sep t = field :: fields) (hd : field.head? = some d) : t.head? = some d := by
  cases t with
  | nil =>
      obtain ⟨rfl, -⟩ := List.cons.inj h
      simp at hd
  | cons c t =>
      by_cases hc : c = sep
      · subst hc
        rw [fieldsAt_cons_self] at h
        obtain ⟨rfl, -⟩ := List.cons.inj h
        simp at hd
      · obtain ⟨f, fs, hf⟩ := List.exists_cons_of_ne_nil (fieldsAt_ne_nil sep t)
        rw [fieldsAt_cons_of_ne hc hf] at h
        obtain ⟨rfl, -⟩ := List.cons.inj h
        exact hd

/-- What stands in front of a pointer belongs to its first key. -/
theorem pointerKeys_append (u v : Text) {pointer key : Text} {keys : List Text} (hu : '/' ∉ u)
    (hkey : ∀ field, (∀ d, field.head? = some d → pointer.head? = some d) →
      unescapeKey (u ++ field) = v ++ unescapeKey field)
    (h : pointerKeys pointer = key :: keys) : pointerKeys (u ++ pointer) = (v ++ key) :: keys := by
  unfold pointerKeys at h ⊢
  obtain ⟨f, fs, hf⟩ := List.exists_cons_of_ne_nil (fieldsAt_ne_nil '/' pointer)
  rw [hf] at h
  obtain ⟨rfl, rfl⟩ := List.cons.inj h
  have hfields : fieldsAt '/' (u ++ pointer) = (u ++ f) :: fs := by
    clear hkey
    induction u with
    | nil => exact hf
    | cons c u ih =>
        have hc : c ≠ '/' := fun he => hu (by simp [he])
        exact fieldsAt_cons_of_ne hc (ih fun hm => hu (by simp [hm]))
  rw [hfields, List.map_cons, hkey f fun d hd => head_of_fieldsAt hf hd]

/-- A pointer spells nothing but its keys. -/
theorem pointerKeys_of_spells {pointer : Text} {keys : List Text} (h : Spells pointer keys) :
    pointerKeys pointer = keys := by
  induction h with
  | done => rfl
  | next _ ih =>
      unfold pointerKeys at ih ⊢
      rw [fieldsAt_cons_self, List.map_cons, ih]
      rfl
  | slash _ ih => exact pointerKeys_append ['~', '1'] ['/'] (by simp) (fun field _ => unescapeKey_slash field) ih
  | tilde _ ih => exact pointerKeys_append ['~', '0'] ['~'] (by simp) (fun field _ => unescapeKey_tilde field) ih
  | @plain c pointer _ _ hc hescape _ ih =>
      refine pointerKeys_append [c] [c] (by simpa using hc.symm) (fun field hhead => ?_) ih
      exact unescapeKey_plain fun he => ⟨fun h0 => (hescape he).1 (hhead _ h0), fun h1 => (hescape he).2 (hhead _ h1)⟩

theorem Spells.ne_nil {pointer : Text} {keys : List Text} (h : Spells pointer keys) : keys ≠ [] := by
  cases h <;> simp

/-- Every pointer spells some keys. -/
theorem exists_spells (pointer : Text) : ∃ keys, Spells pointer keys := by
  induction hn : pointer.length using Nat.strongRecOn generalizing pointer with
  | ind n ih =>
      subst hn
      have hshorter : ∀ rest : Text, rest.length < pointer.length → ∃ key keys, Spells rest (key :: keys) := by
        intro rest hlength
        obtain ⟨keys, hkeys⟩ := ih rest.length hlength rest rfl
        obtain ⟨key, keys, rfl⟩ := List.exists_cons_of_ne_nil hkeys.ne_nil
        exact ⟨key, keys, hkeys⟩
      -- an escape takes two characters, so the induction is on the length
      cases pointer with
      | nil => exact ⟨_, .done⟩
      | cons c rest =>
          obtain ⟨key, keys, hkeys⟩ := hshorter rest (by simp)
          by_cases hc : c = '/'
          · subst hc
            exact ⟨_, .next hkeys⟩
          by_cases hescape : c = '~' ∧ (rest.head? = some '0' ∨ rest.head? = some '1')
          · obtain ⟨rfl, hhead⟩ := hescape
            obtain ⟨d, behind, rfl⟩ : ∃ d behind, rest = d :: behind := by
              cases rest with
              | nil => simp at hhead
              | cons d behind => exact ⟨d, behind, rfl⟩
            obtain ⟨_, _, hbehind⟩ := hshorter behind (by simp only [List.length_cons]; omega)
            rcases hhead with hhead | hhead
            · obtain rfl : d = '0' := Option.some.inj hhead
              exact ⟨_, .tilde hbehind⟩
            · obtain rfl : d = '1' := Option.some.inj hhead
              exact ⟨_, .slash hbehind⟩
          · exact ⟨_, .plain hc (fun he => not_or.mp fun hor => hescape ⟨he, hor⟩) hkeys⟩

/-- **A pointer spells one list of keys.** -/
theorem spells_iff {pointer : Text} {keys : List Text} : Spells pointer keys ↔ pointerKeys pointer = keys := by
  refine ⟨pointerKeys_of_spells, ?_⟩
  rintro rfl
  obtain ⟨keys, hkeys⟩ := exists_spells pointer
  rwa [pointerKeys_of_spells hkeys]

/-! ## Places -/

/-- Keys lead from a value to a part of it, through mappings inside of each other. -/
inductive Reaches : Value → List Text → Value → Prop
  | here (v : Value) : Reaches v [] v
  | inside {v w target : Value} {key : Text} {keys : List Text} (h : v.get? key = some w)
      (rest : Reaches w keys target) : Reaches v (key :: keys) target

theorem descend_cons (v : Value) (key : Text) (keys : List Text) :
    descend v (key :: keys) = descend ((v.get? key).getD .null) keys := rfl

/-- Below nothing there is nothing. -/
theorem descend_null (keys : List Text) : descend .null keys = .null := by
  induction keys with
  | nil => rfl
  | cons key keys ih => exact ih

/-- **What keys lead to is what is found by descending**, unless it is nothing. -/
theorem reaches_iff {v target : Value} {keys : List Text} (htarget : target ≠ .null) :
    Reaches v keys target ↔ descend v keys = target := by
  constructor
  · intro h
    induction h with
    | here v => rfl
    | @inside v w target key keys hkey _ ih => rw [descend_cons, hkey]; exact ih htarget
  · intro h
    induction keys generalizing v with
    | nil => exact h ▸ .here v
    | cons key keys ih =>
        rw [descend_cons] at h
        cases hkey : v.get? key with
        | none =>
            rw [hkey] at h
            exact absurd ((descend_null keys).symm.trans h).symm htarget
        | some w => exact .inside hkey (ih (by rwa [hkey] at h))

/-! ## Chains -/

variable {spec node last target : Value} {links n : Nat}

/-- A node with a local reference, which is a text that starts with `#/`, and the pointer behind that. -/
def Points (node : Value) (pointer : Text) : Prop :=
  node.get? referenceKey = some (.str ('#' :: '/' :: pointer))

/-- A pointer leads to a place of the specification where something stands. -/
def LeadsTo (spec : Value) (pointer : Text) (target : Value) : Prop :=
  target ≠ .null ∧ ∃ keys, Spells pointer keys ∧ Reaches spec keys target

/-- A node refers to what its pointer leads to. -/
def Refers (spec node target : Value) : Prop := ∃ pointer, Points node pointer ∧ LeadsTo spec pointer target

/-- So many references one after the other lead from a node to another one. -/
inductive Chain (spec : Value) : Nat → Value → Value → Prop
  | start (node : Value) : Chain spec 0 node node
  | follow {node target last : Value} {n : Nat} (h : Refers spec node target) (more : Chain spec n target last) :
      Chain spec (n + 1) node last

theorem leadsTo_iff {pointer : Text} :
    LeadsTo spec pointer target ↔ target ≠ .null ∧ descend spec (pointerKeys pointer) = target := by
  unfold LeadsTo
  refine and_congr_right fun htarget => ?_
  simp only [spells_iff, exists_eq_left']
  exact reaches_iff htarget

/-- A node that refers to another one stands for what that one stands for. -/
theorem resolveWithin_of_refers (h : Refers spec node target) :
    resolveWithin spec (links + 1) node = resolveWithin spec links target := by
  obtain ⟨pointer, hpoints, hleads⟩ := h
  obtain ⟨htarget, hdescend⟩ := leadsTo_iff.mp hleads
  rw [resolveWithin, hpoints]
  simp only
  rw [hdescend]
  cases target with
  | null => exact absurd rfl htarget
  | _ => rfl

/-- A chain takes as much of the bound as it has references. -/
theorem resolveWithin_of_chain (h : Chain spec n node last) :
    resolveWithin spec (links + n) node = resolveWithin spec links last := by
  induction h with
  | start => rfl
  | follow h _ ih => rw [← Nat.add_assoc, resolveWithin_of_refers h, ih]

/-- How a chain goes on at a node. -/
inductive Turn (spec node : Value) : Prop
  /-- The node has no reference. -/
  | settled (h : node.get? referenceKey = none)
  /-- It refers to something. -/
  | refers (target : Value) (h : Refers spec node target)
  /-- It refers to elsewhere. -/
  | foreign (reference : Value) (h : node.get? referenceKey = some reference) (helse : ∀ pointer, ¬Points node pointer)
  /-- Its pointer leads nowhere. -/
  | dangling (pointer : Text) (h : Points node pointer) (hnowhere : ∀ target, ¬LeadsTo spec pointer target)

theorem turn (spec node : Value) : Turn spec node := by
  cases href : node.get? referenceKey with
  | none => exact .settled href
  | some reference =>
      by_cases hpoints : ∃ pointer, Points node pointer
      · obtain ⟨pointer, hpointer⟩ := hpoints
        by_cases hleads : ∃ target, LeadsTo spec pointer target
        · obtain ⟨target, htarget⟩ := hleads
          exact .refers target ⟨pointer, hpointer, htarget⟩
        · exact .dangling pointer hpointer fun target htarget => hleads ⟨target, htarget⟩
      · exact .foreign reference href fun pointer hpointer => hpoints ⟨pointer, hpointer⟩

/-! ## Main result -/

/-- What is said about a reference to elsewhere. -/
def skippedReference (reference : Value) : Note := ⟨.warning, "Skipping non-local $ref " ++ reference.text⟩

/-- The end of the chain from a node, what is given there and what is said. -/
inductive Ends (spec node : Value) : Except SourceError Value → List Note → Prop
  /-- After at most 16 references a node has none. -/
  | settled {n : Nat} {last : Value} (hn : n ≤ 16) (h : Chain spec n node last)
      (hend : last.get? referenceKey = none) : Ends spec node (.ok last) []
  /-- After fewer than 16 references one is no text that starts with `#/`. -/
  | foreign {n : Nat} {last reference : Value} (hn : n < 16) (h : Chain spec n node last)
      (href : last.get? referenceKey = some reference) (helse : ∀ pointer, ¬Points last pointer) :
      Ends spec node (.ok .null) [skippedReference reference]
  /-- After fewer than 16 references a pointer leads nowhere. -/
  | dangling {n : Nat} {last : Value} {pointer : Text} (hn : n < 16) (h : Chain spec n node last)
      (hpoints : Points last pointer) (hnowhere : ∀ target, ¬LeadsTo spec pointer target) :
      Ends spec node (.error (.schema (.referenceUnresolved ('#' :: '/' :: pointer)))) []
  /-- After 16 references there is one more. -/
  | deep {last reference : Value} (h : Chain spec 16 node last) (href : last.get? referenceKey = some reference) :
      Ends spec node (.error (.schema (.referenceTooDeep reference.text))) []

/-- A node that points to elsewhere is skipped. -/
theorem resolveWithin_foreign {reference : Value} (href : node.get? referenceKey = some reference)
    (helse : ∀ pointer, ¬Points node pointer) :
    (resolveWithin spec (links + 1) node).outcome = (.ok .null, [skippedReference reference]) := by
  rw [resolveWithin, href]
  simp only
  split
  · exact absurd href (helse _)
  · rfl

theorem resolveWithin_dangling {pointer : Text} (hpoints : Points node pointer)
    (hnowhere : ∀ target, ¬LeadsTo spec pointer target) :
    (resolveWithin spec (links + 1) node).outcome =
      (.error (.schema (.referenceUnresolved ('#' :: '/' :: pointer))), []) := by
  have hdescend : descend spec (pointerKeys pointer) = .null := by
    by_contra hne
    exact hnowhere _ (leadsTo_iff.mpr ⟨hne, rfl⟩)
  rw [resolveWithin, hpoints]
  simp only
  rw [hdescend]
  rfl

/-- The end of a chain is what is given. -/
theorem Ends.outcome {result : Except SourceError Value} {notes : List Note} (h : Ends spec node result notes) :
    (resolve spec node).outcome = (result, notes) := by
  unfold resolve
  cases h with
  | @settled n _ hn h hend =>
      obtain ⟨links, hlinks⟩ := Nat.exists_eq_add_of_le' hn
      rw [show maxReferences = links + n from hlinks, resolveWithin_of_chain h, resolveWithin, hend]
      rfl
  | @foreign n _ _ hn h href helse =>
      obtain ⟨links, hlinks⟩ := Nat.exists_eq_add_of_le' hn
      rw [show maxReferences = links + 1 + n by show 16 = _; omega, resolveWithin_of_chain h]
      exact resolveWithin_foreign href helse
  | @dangling n _ _ hn h hpoints hnowhere =>
      obtain ⟨links, hlinks⟩ := Nat.exists_eq_add_of_le' hn
      rw [show maxReferences = links + 1 + n by show 16 = _; omega, resolveWithin_of_chain h]
      exact resolveWithin_dangling hpoints hnowhere
  | deep h href =>
      rw [show maxReferences = 0 + 16 from rfl, resolveWithin_of_chain h, resolveWithin, href]
      rfl

/-- A chain goes on until it ends or has used up the bound. -/
theorem exists_chain (spec node : Value) (links : Nat) :
    ∃ n last, Chain spec n node last ∧
      ((n = links) ∨ (n < links ∧ ∀ target, ¬Refers spec last target)) := by
  induction links generalizing node with
  | zero => exact ⟨0, node, .start node, .inl rfl⟩
  | succ links ih =>
      by_cases hrefers : ∃ target, Refers spec node target
      · obtain ⟨target, htarget⟩ := hrefers
        obtain ⟨n, last, hchain, hend⟩ := ih target
        refine ⟨n + 1, last, .follow htarget hchain, ?_⟩
        exact hend.imp (congrArg (· + 1)) fun hend => ⟨Nat.succ_lt_succ hend.1, hend.2⟩
      · exact ⟨0, node, .start node, .inr ⟨Nat.succ_pos links, fun target h => hrefers ⟨target, h⟩⟩⟩

/-- Every chain has an end. -/
theorem exists_ends (spec node : Value) : ∃ result notes, Ends spec node result notes := by
  obtain ⟨n, last, hchain, hend⟩ := exists_chain spec node 16
  rcases hend with rfl | ⟨hn, hlast⟩
  · cases href : last.get? referenceKey with
    | none => exact ⟨_, _, .settled le_rfl hchain href⟩
    | some reference => exact ⟨_, _, .deep hchain href⟩
  · cases turn spec last with
    | settled hsettled => exact ⟨_, _, .settled hn.le hchain hsettled⟩
    | refers target htarget => exact absurd htarget (hlast target)
    | foreign reference href helse => exact ⟨_, _, .foreign hn hchain href helse⟩
    | dangling pointer hpoints hnowhere => exact ⟨_, _, .dangling hn hchain hpoints hnowhere⟩

/-- A node that refers to itself is given up. -/
example : (resolve (.dict [(.str "a", .dict [(.str "$ref", .str "#/a")])]) (.dict [(.str "$ref", .str "#/a")])).outcome =
    (.error (.schema (.referenceTooDeep "#/a")), []) := rfl

end HttpFile.Source.OpenApi
