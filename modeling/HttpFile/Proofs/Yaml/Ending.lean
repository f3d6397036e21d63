import HttpFile.Yaml.Failure

/-!
# `HttpFile.Proofs.Yaml.Ending` — how reading may end

Each part of the reading of a text gives something or fails. Most failures say that the text is malformed, and those
need no account. This module has the rules by which all other causes of failure, and an invariant of what is given,
are carried from the parts to the whole.

## Contents
- **Endings.** `Ends`, and its rules for the steps and the lists of a computation.
- **States.** `Keeps`: the same for work with a state, where the invariant is one of states.
-/

namespace HttpFile.Yaml

variable {cause : Failure → Prop} {α β σ : Type}

/-! ## Endings -/

/-- What is given is as `P` says, and a failure says that the text is malformed or has a cause. -/
def Ends (cause : Failure → Prop) (P : α → Prop) : Except Failure α → Prop
  | .ok a => P a
  | .error f => f = .malformed ∨ cause f

variable {P : α → Prop} {Q : β → Prop}

theorem ends_pure {a : α} (h : P a) : Ends cause P (pure a : Except Failure α) := h

theorem ends_malformed : Ends cause P (.error .malformed : Except Failure α) := .inl rfl

/-- Where every failure has a cause there is nothing to show. -/
theorem ends_of_forall {x : Except Failure α} (h : ∀ f, cause f) : Ends cause (fun _ => True) x := by
  cases x with
  | ok a => trivial
  | error f => exact .inr (h f)

theorem Ends.bind {x : Except Failure α} {k : α → Except Failure β} (hx : Ends cause P x)
    (hk : ∀ a, P a → Ends cause Q (k a)) : Ends cause Q (x >>= k) := by
  cases x with
  | ok a => exact hk a hx
  | error f => exact hx

theorem Ends.map {x : Except Failure α} {g : α → β} (hx : Ends cause P x) (hg : ∀ a, P a → Q (g a)) :
    Ends cause Q (x.map g) := by
  cases x with
  | ok a => exact hg a hx
  | error f => exact hx

theorem Ends.mono_cause {cause' : Failure → Prop} {x : Except Failure α} (hx : Ends cause P x)
    (h : ∀ f, cause f → f = .malformed ∨ cause' f) : Ends cause' P x := by
  cases x with
  | ok a => exact hx
  | error f => exact hx.elim .inl (h f)

theorem Ends.of_error {x : Except Failure α} {f : Failure} (hx : Ends cause P x) (h : x = .error f)
    (hf : f ≠ .malformed) : cause f := by
  rw [h] at hx
  exact hx.resolve_left hf

theorem ends_foldlM {step : α → β → Except Failure α} {a : α} (xs : List β) (ha : P a)
    (hstep : ∀ a x, P a → Ends cause P (step a x)) : Ends cause P (xs.foldlM step a) := by
  induction xs generalizing a with
  | nil => exact ha
  | cons x xs ih => exact (hstep a x ha).bind fun a ha => ih ha

/-! ## States -/

/-- Work that keeps an invariant of its state, and fails only as above. -/
def Keeps (cause : Failure → Prop) (inv : σ → Prop) (work : StateT σ (Except Failure) α) : Prop :=
  ∀ s, inv s → Ends cause (fun next => inv next.2) (work s)

variable {inv : σ → Prop}

theorem keeps_pure (a : α) : Keeps cause inv (pure a : StateT σ (Except Failure) α) := fun _ h => h

theorem keeps_malformed : Keeps cause inv (throw .malformed : StateT σ (Except Failure) α) := fun _ _ => .inl rfl

theorem Keeps.bind {x : StateT σ (Except Failure) α} {k : α → StateT σ (Except Failure) β} (hx : Keeps cause inv x)
    (hk : ∀ a, Keeps cause inv (k a)) : Keeps cause inv (x >>= k) := fun s hs =>
  Ends.bind (hx s hs) fun next hnext => hk next.1 next.2 hnext

theorem keeps_get {k : σ → StateT σ (Except Failure) α} (hk : ∀ s, inv s → Keeps cause inv (k s)) :
    Keeps cause inv (get >>= k) := fun s hs => hk s hs s hs

theorem keeps_set {s : σ} (h : inv s) : Keeps cause inv (set s : StateT σ (Except Failure) PUnit) := fun _ _ => h

theorem keeps_modify {g : σ → σ} (h : ∀ s, inv s → inv (g s)) :
    Keeps cause inv (modify g : StateT σ (Except Failure) PUnit) := h

theorem keeps_lift {x : Except Failure α} {k : α → StateT σ (Except Failure) β} (hx : Ends cause P x)
    (hk : ∀ a, P a → Keeps cause inv (k a)) : Keeps cause inv (liftM x >>= k) := by
  intro s hs
  cases x with
  | ok a => exact hk a hx s hs
  | error f => exact hx

theorem keeps_forM {work : α → StateT σ (Except Failure) PUnit} (xs : List α) (h : ∀ x, Keeps cause inv (work x)) :
    Keeps cause inv (xs.forM work) := by
  induction xs with
  | nil => exact keeps_pure _
  | cons x xs ih => exact (h x).bind fun _ => ih

theorem keeps_mapM {work : α → StateT σ (Except Failure) β} (xs : List α) (h : ∀ x, Keeps cause inv (work x)) :
    Keeps cause inv (xs.mapM work) := by
  induction xs with
  | nil => exact keeps_pure _
  | cons x xs ih =>
      rw [List.mapM_cons]
      exact (h x).bind fun y => ih.bind fun ys => keeps_pure (y :: ys)

end HttpFile.Yaml
