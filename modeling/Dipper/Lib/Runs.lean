import Mathlib.Data.List.Basic

/-!
# Runs of an event system

A system whose events may fail (`Except String`) and are allowed only in some
states. `run` applies events one after another and stops at the first failure or
the first event not allowed. A predicate closed under allowed steps holds at the end
of every successful run from a state where it holds, and a run evaluated to success
yields a state of that predicate with whatever the evaluation showed of it. A
reflexive and transitive relation that every allowed step satisfies relates the two
ends of every successful run, and the two ends of a loop (`List.foldlM`) whose every
iteration it relates.
-/

namespace Runs

variable {σ ε : Type} (apply : ε → σ → Except String σ) (adm : ε → σ → Prop) [∀ e s, Decidable (adm e s)]

/-- The events one after another. -/
def run : σ → List ε → Except String σ
  | s, [] => .ok s
  | s, e :: es => if adm e s then do run (← apply e s) es else .error "inadmissible event"

/-- A predicate that every allowed successful step keeps. -/
def StepClosed (R : σ → Prop) : Prop :=
  ∀ ⦃s s' : σ⦄ (e : ε), R s → adm e s → apply e s = .ok s' → R s'

variable {apply adm}

theorem run_closed {R : σ → Prop} (hR : StepClosed apply adm R) {s s' : σ} {es : List ε} (hs : R s)
    (h : run apply adm s es = .ok s') : R s' := by
  induction es generalizing s with
  | nil => cases h; exact hs
  | cons e es ih =>
    unfold run at h
    split at h
    · rename_i hadm
      cases happ : apply e s with
      | error msg => rw [happ] at h; cases h
      | ok t =>
        rw [happ] at h
        exact ih (hR e hs hadm happ) h
    · cases h

theorem exists_of_run {R P : σ → Prop} (hR : StepClosed apply adm R) {s : σ} (hs : R s) (es : List ε)
    (hok : (run apply adm s es).isOk = true) (h : ∀ s', run apply adm s es = .ok s' → P s') :
    ∃ s', R s' ∧ P s' := by
  cases hrun : run apply adm s es with
  | error e => rw [hrun] at hok; cases hok
  | ok s' => exact ⟨s', run_closed hR hs hrun, h s' hrun⟩

theorem foldlM_rel {β : Type} {f : σ → β → Except String σ} {r : σ → σ → Prop} (hrefl : ∀ s, r s s)
    (htrans : ∀ s₁ s₂ s₃, r s₁ s₂ → r s₂ s₃ → r s₁ s₃) (hf : ∀ s x s', f s x = .ok s' → r s s') :
    ∀ {l : List β} {s s' : σ}, l.foldlM f s = .ok s' → r s s'
  | [], s, s', h => by cases h; exact hrefl s
  | x :: l, s, s', h => by
    rw [List.foldlM_cons] at h
    cases hx : f s x with
    | error e => rw [hx] at h; cases h
    | ok t =>
      rw [hx] at h
      exact htrans _ _ _ (hf s x t hx) (foldlM_rel hrefl htrans hf h)

theorem run_rel {r : σ → σ → Prop} (hrefl : ∀ s, r s s) (htrans : ∀ s₁ s₂ s₃, r s₁ s₂ → r s₂ s₃ → r s₁ s₃)
    (hstep : ∀ ⦃s s' : σ⦄ (e : ε), adm e s → apply e s = .ok s' → r s s') :
    ∀ {es : List ε} {s s' : σ}, run apply adm s es = .ok s' → r s s'
  | [], s, s', h => by cases h; exact hrefl s
  | e :: es, s, s', h => by
    unfold run at h
    split at h
    · rename_i hadm
      cases happ : apply e s with
      | error msg => rw [happ] at h; cases h
      | ok t =>
        rw [happ] at h
        exact htrans _ _ _ (hstep e hadm happ) (run_rel hrefl htrans hstep h)
    · cases h

end Runs
