import MemoryMonitor.Machine
import Mathlib.Order.Filter.EventuallyConst

/-! # Runs that do not end, and fair ones

A `Behaviour` of a machine goes on for ever.  Its inputs are steps of threads, and a
thread is `able` in the states in which its next step is not held up by another.  In a
fair behaviour a thread that is able again and again also takes a step again and again
while it is able: for a thread that waits for a lock, this is the fairness of the lock.

That a goal is reached is shown with a rank: until then no step raises it, and in every
state there is a helpful thread whose steps lower it (`Fair.frequently`).
-/
namespace Runs

open Filter

/-- A sequence of numbers that never rises falls finitely often. -/
theorem not_frequently_lt {f : Nat → Nat} (hle : ∀ᶠ n in atTop, f (n + 1) ≤ f n) :
    ¬ ∃ᶠ n in atTop, f (n + 1) < f n := by
  intro hlt
  obtain ⟨N, hN⟩ := eventually_atTop.mp hle
  have hmono : ∀ d n, N ≤ n → f (n + d) ≤ f n := by
    intro d n hn
    induction d with
    | zero => exact Nat.le_refl _
    | succ d ih => exact (hN (n + d) (by omega)).trans ih
  -- by induction on the value: after every time the sequence falls once more
  have hfall : ∀ k n, N ≤ n → f n = k → False := by
    intro k
    induction k using Nat.strongRecOn with
    | ind k ih =>
      intro n hn hk
      obtain ⟨m, hm, hlt⟩ := frequently_atTop.mp hlt n
      have hle := hmono (m - n) n hn
      rw [Nat.add_sub_cancel' hm] at hle
      exact ih (f (m + 1)) (by omega) (m + 1) (by omega) rfl
  exact hfall (f N) N (Nat.le_refl N) rfl

/-- A sequence that in the end does not change has one value in the end. -/
theorem exists_eventually_eq {τ : Type} {f : Nat → τ} (h : ∀ᶠ n in atTop, f (n + 1) = f n) :
    ∃ t, ∀ᶠ n in atTop, f n = t := by
  have : Nonempty τ := ⟨f 0⟩
  apply eventuallyConst_iff_exists_eventuallyEq.mp
  exact eventuallyConst_atTop_nat.mpr (eventually_atTop.mp h)

namespace Machine
variable {σ ι ω ε τ : Type}

/-- A run that does not end. -/
structure Behaviour (M : Machine σ ι ω ε) where
  state : Nat → σ
  input : Nat → ι
  allowed : ∀ n, M.allowed (state n) (input n)
  next : ∀ n, ∃ out, M.step (state n) (input n) = .ok (state (n + 1), out)

namespace Behaviour
variable {M : Machine σ ι ω ε} (b : M.Behaviour)

theorem reach {init : σ → Prop} (h : M.Reach init (b.state 0)) (n : Nat) :
    M.Reach init (b.state n) := by
  induction n with
  | zero => exact h
  | succ n ih =>
    obtain ⟨out, hstep⟩ := b.next n
    exact ih.next (b.allowed n) hstep

/-- What every step keeps holds in the end, once it has held. -/
theorem eventually_of_kept (P : σ → Prop) {n : Nat} (hn : P (b.state n))
    (hstep : ∀ m, P (b.state m) → P (b.state (m + 1))) : ∀ᶠ m in atTop, P (b.state m) := by
  filter_upwards [eventually_ge_atTop n] with m hm
  induction m, hm using Nat.le_induction with
  | base => exact hn
  | succ m hm ih => exact hstep m ih

/-- **Fairness.**  A thread that is able infinitely often takes a step infinitely often
while it is able. -/
def Fair (owner : ι → Option τ) (able : σ → τ → Prop) : Prop :=
  ∀ t, (∃ᶠ n in atTop, able (b.state n) t) →
    ∃ᶠ n in atTop, able (b.state n) t ∧ owner (b.input n) = some t

variable {b} {owner : ι → Option τ} {able : σ → τ → Prop}

/-- **The rank rule.**  Until the goal is reached no step raises the rank, the helpful
thread changes only when the rank falls, and its steps lower the rank. -/
theorem Fair.frequently (h : b.Fair owner able) (Q : σ → Prop) (rank : σ → Nat) (helpful : σ → τ)
    (hkeep : ∀ n, ¬ Q (b.state n) → ¬ Q (b.state (n + 1)) →
      rank (b.state (n + 1)) < rank (b.state n) ∨
        rank (b.state (n + 1)) = rank (b.state n) ∧
          helpful (b.state (n + 1)) = helpful (b.state n))
    (hlt : ∀ n, ¬ Q (b.state n) → ¬ Q (b.state (n + 1)) →
      able (b.state n) (helpful (b.state n)) → owner (b.input n) = some (helpful (b.state n)) →
        rank (b.state (n + 1)) < rank (b.state n))
    (hable : ∃ᶠ n in atTop, Q (b.state n) ∨ able (b.state n) (helpful (b.state n))) :
    ∃ᶠ n in atTop, Q (b.state n) := by
  by_contra hnever
  have hno : ∀ᶠ n in atTop, ¬ Q (b.state n) ∧ ¬ Q (b.state (n + 1)) := by
    rw [not_frequently] at hnever
    exact hnever.and ((tendsto_add_atTop_nat 1).eventually hnever)
  have hfalls : ¬ ∃ᶠ n in atTop, rank (b.state (n + 1)) < rank (b.state n) := by
    apply not_frequently_lt (f := fun n => rank (b.state n))
    filter_upwards [hno] with n hn
    rcases hkeep n hn.1 hn.2 with hfall | ⟨hsame, -⟩
    · exact hfall.le
    · exact hsame.le
  -- the rank has come to rest, and the helpful thread with it
  obtain ⟨t, ht⟩ : ∃ t, ∀ᶠ n in atTop, helpful (b.state n) = t := by
    apply exists_eventually_eq
    filter_upwards [hno, not_frequently.mp hfalls] with n hn hfall
    exact ((hkeep n hn.1 hn.2).resolve_left hfall).2
  have hfrequent : ∃ᶠ n in atTop, able (b.state n) t := by
    refine (hable.and_eventually (hno.and ht)).mono ?_
    rintro n ⟨hn, ⟨hq, -⟩, rfl⟩
    exact hn.resolve_left hq
  apply hfalls
  refine ((h t hfrequent).and_eventually (hno.and ht)).mono ?_
  rintro n ⟨⟨hn, howner⟩, ⟨hq, hq'⟩, rfl⟩
  exact hlt n hq hq' hn howner

end Behaviour

end Machine

end Runs
