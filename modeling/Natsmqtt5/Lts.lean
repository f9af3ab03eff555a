import Mathlib.Data.Fintype.Basic

/-!
# Labelled steps, runs and invariants

A system is a partial step function `step : σ → α → Option σ`: action `a` can be taken in `s` when
`step s a` is `some`. `ok s a` restricts the runs to those that take `a` only in states where `ok`
allows it; `free` restricts nothing.

* `Reach step ok s₀ s`: some run from `s₀`, every step of it allowed by `ok`, ends in `s`.
* `exec step ok s₀ as`: the end of the run with the actions `as`, computed.

Results:
* `Reach.invariant`: what holds of `s₀` and survives every allowed step holds of every reached
  state. `Reach.invariant_of` is the same when the step proof may use a second invariant that is
  already known.
* `Reach.mono`: a weaker restriction reaches more.
* `reach_of_exec_any`, `exists_reach`, `exists_reach_of`: a computed run is a run.
-/

namespace Lts

universe u v

variable {σ : Type u} {α : Type v} {step : σ → α → Option σ} {ok : σ → α → Prop} {s₀ : σ}

/-- No restriction. -/
def free : σ → α → Prop := fun _ _ => True

instance (s : σ) (a : α) : Decidable (free s a) := inferInstanceAs (Decidable True)

/-- The states that runs from `s₀` reach, each step allowed by `ok` in the state it is taken in. -/
inductive Reach (step : σ → α → Option σ) (ok : σ → α → Prop) (s₀ : σ) : σ → Prop
  | refl : Reach step ok s₀ s₀
  | tail {s t : σ} {a : α} (h : Reach step ok s₀ s) (hok : ok s a) (hs : step s a = some t) :
      Reach step ok s₀ t

/-- The state the actions `as` lead to, `none` when one of them cannot be taken or is not
allowed. -/
def exec (step : σ → α → Option σ) (ok : σ → α → Prop) [∀ s a, Decidable (ok s a)] :
    σ → List α → Option σ
  | s, [] => some s
  | s, a :: as =>
    if ok s a then
      match step s a with
      | some t => exec step ok t as
      | none => none
    else none

/-- **The invariant rule.** -/
theorem Reach.invariant {Inv : σ → Prop} (h0 : Inv s₀)
    (hstep : ∀ s a t, Inv s → ok s a → step s a = some t → Inv t) {s : σ}
    (h : Reach step ok s₀ s) : Inv s := by
  induction h with
  | refl => exact h0
  | tail _ hok hs ih => exact hstep _ _ _ ih hok hs

/-- The invariant rule over an invariant `Known` that every reached state has. -/
theorem Reach.invariant_of {Known Inv : σ → Prop}
    (hk : ∀ s, Reach step ok s₀ s → Known s) (h0 : Inv s₀)
    (hstep : ∀ s a t, Known s → Inv s → ok s a → step s a = some t → Inv t) {s : σ}
    (h : Reach step ok s₀ s) : Inv s := by
  induction h with
  | refl => exact h0
  | tail hr hok hs ih => exact hstep _ _ _ (hk _ hr) ih hok hs

theorem Reach.mono {ok' : σ → α → Prop} (hle : ∀ s a, ok s a → ok' s a) {s : σ}
    (h : Reach step ok s₀ s) : Reach step ok' s₀ s := by
  induction h with
  | refl => exact .refl
  | tail _ hok hs ih => exact ih.tail (hle _ _ hok) hs

theorem Reach.trans {s t : σ} (h : Reach step ok s₀ s) (h' : Reach step ok s t) :
    Reach step ok s₀ t := by
  induction h' with
  | refl => exact h
  | tail _ hok hs ih => exact ih.tail hok hs

section Exec

variable [∀ s a, Decidable (ok s a)]

theorem reach_of_exec : ∀ (as : List α) {s t : σ}, exec step ok s as = some t →
    Reach step ok s t
  | [], s, t, h => by
    simp only [exec, Option.some.injEq] at h
    rw [h]
    exact .refl
  | a :: as, s, t, h => by
    simp only [exec] at h
    split at h
    · rename_i hok
      split at h
      · rename_i u hu
        exact (Reach.refl.tail hok hu).trans (reach_of_exec as h)
      · cases h
    · cases h

/-- A computed run is a run, with what was observed of its last state. -/
theorem reach_of_exec_any (step : σ → α → Option σ) (ok : σ → α → Prop)
    [∀ s a, Decidable (ok s a)] (s₀ : σ) (as : List α) (p : σ → Bool)
    (h : (exec step ok s₀ as).any p = true) : ∃ s, Reach step ok s₀ s ∧ p s = true := by
  cases he : exec step ok s₀ as with
  | none => rw [he] at h; exact absurd h (by simp)
  | some s =>
    rw [he, Option.any_some] at h
    exact ⟨s, reach_of_exec as he, h⟩

/-- A computed run to a state with `P`. -/
theorem exists_reach {P : σ → Prop} [DecidablePred P] (as : List α)
    (h : (exec step ok s₀ as).any (fun s => decide (P s)) = true) :
    ∃ s, Reach step ok s₀ s ∧ P s := by
  obtain ⟨s, hreach, hs⟩ := reach_of_exec_any step ok s₀ as _ h
  exact ⟨s, hreach, of_decide_eq_true hs⟩

/-- A computed run to a state with `P`, and what follows for it. -/
theorem exists_reach_of {P Q : σ → Prop} [DecidablePred P] (as : List α)
    (h : (exec step ok s₀ as).any (fun s => decide (P s)) = true)
    (hq : ∀ s, Reach step ok s₀ s → P s → Q s) : ∃ s, Reach step ok s₀ s ∧ P s ∧ Q s := by
  obtain ⟨s, hreach, hs⟩ := exists_reach as h
  exact ⟨s, hreach, hs, hq s hreach hs⟩

end Exec

/-- Two parties, for the runs that two are enough for. -/
inductive Two
  | first
  | second
  deriving DecidableEq

instance : Fintype Two := ⟨{.first, .second}, fun x => by cases x <;> decide⟩

end Lts
