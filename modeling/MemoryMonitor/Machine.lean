import Mathlib.Init

/-! # Runs of a machine that can fault

A machine takes a step on an input, and a step gives a new state and an output or
is a fault.  Which inputs may come next is the environment's side of the contract,
`allowed`.  `Reach` is the set of states of all runs; an invariant is proved once
for the start and once for a step (`Reach.invariant`).

A run under an additional condition on its steps is a run of the restricted
machine (`Machine.restrict`).
-/
namespace Runs

/-- States `σ`, inputs `ι`, outputs `ω`, faults `ε`. -/
structure Machine (σ ι ω ε : Type) where
  /-- The inputs the environment may present in a state. -/
  allowed : σ → ι → Prop
  step : σ → ι → Except ε (σ × ω)

namespace Machine
variable {σ ι ω ε : Type} (M : Machine σ ι ω ε)

/-- The states of the runs that start in `init`. -/
inductive Reach (init : σ → Prop) : σ → Prop
  | start {s : σ} : init s → Reach init s
  | next {s s' : σ} {i : ι} {out : ω} : Reach init s → M.allowed s i → M.step s i = .ok (s', out) →
      Reach init s'

/-- The machine whose steps all satisfy a further condition. -/
def restrict (Q : σ → ι → Prop) : Machine σ ι ω ε where
  allowed s i := M.allowed s i ∧ Q s i
  step := M.step

variable {M} {init : σ → Prop} {P : σ → Prop}

/-- **The invariant rule.** -/
theorem Reach.invariant (h0 : ∀ s, init s → P s)
    (hstep : ∀ s i s' out, P s → M.allowed s i → M.step s i = .ok (s', out) → P s') {s : σ}
    (h : M.Reach init s) : P s := by
  induction h with
  | start hi => exact h0 _ hi
  | next _ ha hs ih => exact hstep _ _ _ _ ih ha hs

/-- A run that goes on from a state of another. -/
theorem Reach.trans {s s' : σ} (h : M.Reach init s) (h' : M.Reach (· = s) s') :
    M.Reach init s' := by
  induction h' with
  | start hs => exact hs ▸ h
  | next _ ha hs ih => exact .next ih ha hs

/-- A weaker condition on the steps has all the runs of a stronger one. -/
theorem Reach.mono {Q R : σ → ι → Prop} (hQR : ∀ s i, Q s i → R s i) {s : σ}
    (h : (M.restrict Q).Reach init s) : (M.restrict R).Reach init s := by
  induction h with
  | start hi => exact .start hi
  | next _ ha hs ih => exact .next ih ⟨ha.1, hQR _ _ ha.2⟩ hs

/-- A restricted run is a run. -/
theorem Reach.of_restrict {Q : σ → ι → Prop} {s : σ} (h : (M.restrict Q).Reach init s) :
    M.Reach init s := by
  induction h with
  | start hi => exact .start hi
  | next _ ha hs ih => exact .next ih ha.1 hs

/-! ## Runs that are computed -/

variable (M) in
/-- The state after the inputs, unless one of them fails the check or is a fault. -/
def exec (check : σ → ι → Bool) : σ → List ι → Option σ
  | s, [] => some s
  | s, i :: is =>
    if check s i then
      match M.step s i with
      | .ok (s', _) => exec check s' is
      | .error _ => none
    else none

/-- **A computed run is a run**, when the check is right about what is allowed in the
states where `P` holds. -/
theorem Reach.exec {check : σ → ι → Bool} (hP : ∀ s i s' out, P s → check s i = true →
      M.step s i = .ok (s', out) → M.allowed s i ∧ P s') :
    ∀ {is : List ι} {s s' : σ}, M.Reach init s → P s → M.exec check s is = some s' →
      M.Reach init s' ∧ P s'
  | [], _, _, hr, hs, he => by
      obtain rfl := Option.some.inj he
      exact ⟨hr, hs⟩
  | i :: is, s, s', hr, hs, he => by
      rw [Machine.exec] at he
      split at he
      · rename_i hc
        split at he
        · rename_i s₁ out hstep
          obtain ⟨ha, hs₁⟩ := hP s i s₁ out hs hc hstep
          exact Reach.exec hP (hr.next ha hstep) hs₁ he
        · cases he
      · cases he

end Machine

/-- The fault a step ended in, if it did. -/
def faultOf {σ ω ε : Type} : Except ε (σ × ω) → Option ε
  | .ok _ => none
  | .error e => some e

theorem faultOf_eq_some {σ ω ε : Type} {x : Except ε (σ × ω)} {e : ε} (h : faultOf x = some e) :
    x = .error e := by
  cases x with
  | ok r => cases h
  | error e' => rw [Option.some.inj h]

/-- A computation that goes on from what a step gave. -/
theorem ok_of_bind {α β ε : Type} {x : Except ε α} {f : α → Option β} {b : β}
    (h : x.toOption.bind f = some b) : ∃ a, x = .ok a ∧ f a = some b := by
  cases x with
  | ok a => exact ⟨a, rfl, h⟩
  | error e => cases h

end Runs
