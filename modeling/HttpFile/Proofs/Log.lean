import HttpFile.Log
import Mathlib.Data.List.Forall2

/-!
# `HttpFile.Proofs.Log` — what work gives

Work makes notes on the way and may fail. A fact about what it gives is taken apart along its steps: each
of them gave something, whatever notes were made before it.

## Contents
- **Results.** `Yields`: what work gives if it does not fail.
- **Steps.** `yields_pure`, `yields_throw`, `yields_bind`, `run_bind`, `yields_map`, `yields_ofExcept`.
- **Lists.** `forall₂_of_yields`, `yields_mapM`; `ok_of_bind`, `map_eq_ok`, `forall₂_of_mapM` for work without notes.
- **Blindness.** `Blind`: the notes made before do not count; `Blind.unique`, `Blind.outcome`.
- **Outcomes.** `outcome_map`; `result_ofExcept`, `result_bind`, `result_mapM`: without its notes, blind work
  is work that makes none.
-/

namespace HttpFile

/-! ## Results -/

/-- What work gives if it does not fail, whatever notes were made before. -/
def Logged.Yields {ε α : Type} (work : Logged ε α) (a : α) : Prop :=
  ∃ before after, work before = (.ok a, after)

/-! ## Steps -/

theorem yields_pure {ε α : Type} {a b : α} (h : Logged.Yields (pure a : Logged ε α) b) : a = b := by
  obtain ⟨before, after, h⟩ := h
  have hpair : ((.ok a : Except ε α), before) = (.ok b, after) := h
  simpa using congrArg Prod.fst hpair

theorem yields_throw {ε α : Type} {e : ε} {a : α} (h : Logged.Yields (throw e : Logged ε α) a) : False := by
  obtain ⟨before, after, h⟩ := h
  have hpair : ((.error e : Except ε α), before) = (.ok a, after) := h
  simp at hpair

theorem yields_bind {ε α β : Type} {x : Logged ε α} {f : α → Logged ε β} {b : β}
    (h : Logged.Yields (x >>= f) b) : ∃ a, Logged.Yields x a ∧ Logged.Yields (f a) b := by
  obtain ⟨before, after, h⟩ := h
  have hrun : ExceptT.bindCont f (x before).1 (x before).2 = (.ok b, after) := h
  rcases hx : x before with ⟨e | a, s⟩
  · rw [hx] at hrun
    have hpair : ((.error e : Except ε β), s) = (.ok b, after) := hrun
    simp at hpair
  · rw [hx] at hrun
    exact ⟨a, ⟨before, s, hx⟩, ⟨s, after, hrun⟩⟩

/-- A step that gave something is followed by the next one. -/
theorem run_bind {ε α β : Type} {x : Logged ε α} {f : α → Logged ε β} {before after : List Note} {a : α}
    (h : x before = (.ok a, after)) : (x >>= f) before = f a after := by
  show ExceptT.bindCont f (x before).1 (x before).2 = f a after
  rw [h]
  rfl

theorem yields_ofExcept {ε α : Type} {r : Except ε α} {a : α} (h : Logged.Yields (Logged.ofExcept r) a) :
    r = .ok a := by
  cases r with
  | ok b => rw [yields_pure h]
  | error e => exact (yields_throw h).elim

theorem yields_map {ε α β : Type} {f : α → β} {x : Logged ε α} {b : β} (h : Logged.Yields (x.map f) b) :
    ∃ a, x.Yields a ∧ f a = b := by
  obtain ⟨a, ha, h⟩ := yields_bind (f := fun a => pure (f a)) h
  exact ⟨a, ha, yields_pure h⟩

/-! ## Lists -/

/-- Work on several things gives as many results, each of them its own. -/
theorem forall₂_of_yields {ε α β : Type} {f : α → Logged ε β} {xs : List α} {ys : List β}
    (h : Logged.Yields (xs.mapM f) ys) : List.Forall₂ (fun x y => Logged.Yields (f x) y) xs ys := by
  induction xs generalizing ys with
  | nil =>
      rw [List.mapM_nil] at h
      rw [← yields_pure h]
      exact .nil
  | cons x xs ih =>
      rw [List.mapM_cons] at h
      obtain ⟨y, hy, h⟩ := yields_bind h
      obtain ⟨ys', hys', h⟩ := yields_bind h
      rw [← yields_pure h]
      exact .cons hy (ih hys')

/-- Work without notes gives what its steps give. -/
theorem ok_of_bind {ε α β : Type} {x : Except ε α} {f : α → Except ε β} {b : β} (h : x >>= f = .ok b) :
    ∃ a, x = .ok a ∧ f a = .ok b := by
  cases x with
  | error e => cases h
  | ok a => exact ⟨a, rfl, h⟩

/-- Changing what work without notes gives. -/
theorem map_eq_ok {α β ε : Type} {f : α → β} {a : Except ε α} {b : β} (h : a.map f = .ok b) :
    ∃ a', a = .ok a' ∧ f a' = b := by
  cases a with
  | error e => exact absurd h (by simp [Except.map])
  | ok a' => exact ⟨a', rfl, by simpa [Except.map] using h⟩

/-- Work without notes on several things gives as many results. -/
theorem forall₂_of_mapM {ε α β : Type} {f : α → Except ε β} {xs : List α} {ys : List β}
    (h : xs.mapM f = .ok ys) : List.Forall₂ (fun x y => f x = .ok y) xs ys := by
  induction xs generalizing ys with
  | nil =>
      obtain rfl : [] = ys := Except.ok.inj h
      exact .nil
  | cons x xs ih =>
      rw [List.mapM_cons] at h
      obtain ⟨y, hy, h⟩ := ok_of_bind h
      obtain ⟨ys', hys', h⟩ := ok_of_bind h
      obtain rfl : y :: ys' = ys := Except.ok.inj h
      exact .cons hy (ih hys')

/-- Whatever is on the right has a counterpart on the left. -/
theorem exists_of_forall₂ {α β : Type} {R : α → β → Prop} {xs : List α} {ys : List β}
    (h : List.Forall₂ R xs ys) {y : β} (hy : y ∈ ys) : ∃ x ∈ xs, R x y := by
  induction h with
  | nil => simp at hy
  | cons hxy _ ih =>
      rcases List.mem_cons.mp hy with rfl | hy
      · exact ⟨_, by simp, hxy⟩
      · obtain ⟨x, hx, hxy⟩ := ih hy
        exact ⟨x, by simp [hx], hxy⟩

theorem yields_mapM {ε α β : Type} {f : α → Logged ε β} {xs : List α} {ys : List β}
    (h : Logged.Yields (xs.mapM f) ys) : ∀ y ∈ ys, ∃ x ∈ xs, Logged.Yields (f x) y :=
  fun _ hy => exists_of_forall₂ (forall₂_of_yields h) hy

/-! ## Blindness -/

/-- Work whose result does not depend on the notes made before it. -/
def Logged.Blind {ε α : Type} (work : Logged ε α) : Prop :=
  ∀ before before', (work before).1 = (work before').1

theorem blind_pure {ε α : Type} (a : α) : Logged.Blind (pure a : Logged ε α) := fun _ _ => rfl

theorem blind_throw {ε α : Type} (e : ε) : Logged.Blind (throw e : Logged ε α) := fun _ _ => rfl

theorem blind_warn {ε : Type} (message : Text) : Logged.Blind (Logged.warn message : Logged ε Unit) :=
  fun _ _ => rfl

theorem blind_ofExcept {ε α : Type} (r : Except ε α) : Logged.Blind (Logged.ofExcept r) := by
  cases r with
  | ok a => exact blind_pure a
  | error e => exact blind_throw e

theorem blind_bind {ε α β : Type} {x : Logged ε α} {f : α → Logged ε β} (hx : x.Blind)
    (hf : ∀ a, (f a).Blind) : Logged.Blind (x >>= f) := by
  intro before before'
  show (ExceptT.bindCont f (x before).1 (x before).2).1 = (ExceptT.bindCont f (x before').1 (x before').2).1
  rw [hx before before']
  cases (x before').1 with
  | error e => rfl
  | ok a => exact hf a _ _

theorem blind_mapM {ε α β : Type} {f : α → Logged ε β} (hf : ∀ a, (f a).Blind) (xs : List α) :
    Logged.Blind (xs.mapM f) := by
  induction xs with
  | nil => exact blind_pure []
  | cons x xs ih =>
      rw [List.mapM_cons]
      exact blind_bind (hf x) fun y => blind_bind ih fun ys => blind_pure (y :: ys)

/-- Blind work gives one result only. -/
theorem Logged.Blind.unique {ε α : Type} {work : Logged ε α} (hblind : work.Blind) {a b : α}
    (ha : work.Yields a) (hb : work.Yields b) : a = b := by
  obtain ⟨before, _, ha⟩ := ha
  obtain ⟨before', _, hb⟩ := hb
  have hsame := hblind before before'
  rw [ha, hb] at hsame
  exact Except.ok.inj hsame

/-- What blind work gives is its outcome. -/
theorem Logged.Blind.outcome {ε α : Type} {work : Logged ε α} (hblind : work.Blind) {a : α}
    (h : work.Yields a) : work.outcome.1 = .ok a := by
  obtain ⟨before, _, h⟩ := h
  show (work []).1 = .ok a
  rw [hblind [] before, h]

/-! ## Outcomes -/

/-- The outcome of work whose result is changed at the end. -/
theorem outcome_map {ε α β : Type} (f : α → β) (x : Logged ε α) :
    Logged.outcome (x.map f) = (x.outcome.1.map f, x.outcome.2) := by
  unfold Logged.outcome StateT.run
  simp only [ExceptT.map, ExceptT.mk, bind, StateT.bind]
  rcases x [] with ⟨_ | _, _⟩ <;> rfl

theorem result_ofExcept {ε α : Type} (r : Except ε α) : (Logged.ofExcept r).outcome.1 = r := by
  cases r <;> rfl

/-- A step, and what follows it whatever notes the step made. -/
theorem result_bind {ε α β : Type} (x : Logged ε α) {f : α → Logged ε β} (hf : ∀ a, (f a).Blind) :
    (Logged.outcome (x >>= f)).1 = (x.outcome.1 >>= fun a => (f a).outcome.1) := by
  show (ExceptT.bindCont f (x []).1 (x []).2).1 = ((x []).1 >>= fun a => (f a []).1)
  cases (x []).1 with
  | error e => rfl
  | ok a => exact hf a (x []).2 []

theorem result_mapM {ε α β : Type} {f : α → Logged ε β} (hf : ∀ a, (f a).Blind) (xs : List α) :
    (Logged.outcome (xs.mapM f)).1 = xs.mapM fun x => (f x).outcome.1 := by
  induction xs with
  | nil => rfl
  | cons x xs ih =>
      rw [List.mapM_cons, List.mapM_cons,
        result_bind (f x) fun y => blind_bind (blind_mapM hf xs) fun ys => blind_pure (y :: ys)]
      congr 1
      funext y
      rw [result_bind (xs.mapM f) fun ys => blind_pure (y :: ys), ih]
      rfl

end HttpFile
