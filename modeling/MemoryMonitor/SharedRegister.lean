import MemoryMonitor.Machine
import Mathlib.Logic.Function.Basic

/-! # A record under a readers-writer lock

Writers replace a record of many cells, one cell at a time, and readers run programs that
look at cell after cell.  A readers-writer lock is taken for the time of a replacement and
for the time of a program: any number of programs may be under way at once, or a single
replacement.

What the threads have done is logged when they release the lock.  The log is that of a
record which is replaced and read in one step (`Interface.Legal`): a program ends with the
result it has on the version that was last published before.
-/
namespace Register

/-- A program that reads cells and ends with a result. -/
inductive Prog {κ : Type} (V : κ → Type) (ρ : Type) where
  | done (r : ρ)
  | read (k : κ) (next : V k → Prog V ρ)

namespace Prog
variable {κ : Type} {V : κ → Type} {ρ ρ' : Type}

/-- The result of a program on cells that do not change. -/
def eval (m : ∀ k, V k) : Prog V ρ → ρ
  | done r => r
  | read k next => (next (m k)).eval m

def bind : Prog V ρ → (ρ → Prog V ρ') → Prog V ρ'
  | done r, f => f r
  | read k next, f => read k fun x => (next x).bind f

instance : Monad (Prog V) where
  pure := done
  bind := bind

/-- The program that reads one cell. -/
def get (k : κ) : Prog V (V k) := read k done

variable (m : ∀ k, V k)

@[simp] theorem eval_done (r : ρ) : (done r : Prog V ρ).eval m = r := rfl

@[simp] theorem eval_pure (r : ρ) : (pure r : Prog V ρ).eval m = r := rfl

@[simp] theorem eval_get (k : κ) : (get k).eval m = m k := rfl

@[simp] theorem eval_bind (p : Prog V ρ) (f : ρ → Prog V ρ') :
    (p >>= f).eval m = (f (p.eval m)).eval m := by
  induction p with
  | done r => rfl
  | read k next ih => exact ih (m k)

end Prog

/-- Versions `ν` of a record with cells `V`, and the programs of the readers `ι`. -/
structure Interface (ι ν : Type) {κ : Type} (V : κ → Type) (ρ : Type) where
  content : ν → ∀ k, V k
  prog : ι → Prog V ρ
  /-- The cells in the order in which they are copied. -/
  keys : List κ
  keys_all : ∀ k, k ∈ keys

/-- A thread has done its work and releases the lock. -/
inductive Event (ι ν ρ : Type) where
  | published (v : ν)
  | answered (i : ι) (r : ρ)

/-- The cells, and who holds the lock. -/
structure State (ι ν : Type) {κ : Type} (V : κ → Type) (ρ : Type) where
  cells : ∀ k, V k
  /-- The version that is being copied, and the cells that are still to come. -/
  writer : Option (ν × List κ) := none
  /-- The readers inside, and what is left of their programs. -/
  readers : List (ι × Prog V ρ) := []
  log : List (Event ι ν ρ) := []

/-- What a thread does next.  A thread that has to wait for the lock leaves the state as
it is. -/
inductive Input (ι ν : Type) where
  | wrlock (v : ν)
  /-- The writer copies a cell, or is done and unlocks. -/
  | copy
  | rdlock (i : ι)
  /-- The reader at this place of the list reads a cell, or is done and unlocks. -/
  | read (n : Nat)

namespace Interface
variable {ι ν κ ρ : Type} {V : κ → Type} (R : Interface ι ν V ρ)

/-- One step of one of the threads. -/
def step [DecidableEq κ] (s : State ι ν V ρ) : Input ι ν → State ι ν V ρ
  | .wrlock v =>
    if s.writer.isNone ∧ s.readers = [] then { s with writer := some (v, R.keys) } else s
  | .copy =>
    match s.writer with
    | none => s
    | some (v, []) => { s with writer := none, log := s.log ++ [.published v] }
    | some (v, k :: ks) =>
      { s with cells := Function.update s.cells k (R.content v k), writer := some (v, ks) }
  | .rdlock i =>
    if s.writer.isNone then { s with readers := s.readers ++ [(i, R.prog i)] } else s
  | .read n =>
    match s.readers[n]? with
    | none => s
    | some (i, .done r) =>
      { s with readers := s.readers.eraseIdx n, log := s.log ++ [.answered i r] }
    | some (i, .read k next) =>
      { s with readers := s.readers.set n (i, next (s.cells k)) }

/-- The version that is in place after what the log says. -/
def current : ν → List (Event ι ν ρ) → ν
  | v, [] => v
  | _, .published v :: log => current v log
  | v, .answered _ _ :: log => current v log

/-- **The log of a record that is replaced and read in one step.** -/
def Legal : ν → List (Event ι ν ρ) → Prop
  | _, [] => True
  | _, .published v :: log => Legal v log
  | v, .answered i r :: log => r = (R.prog i).eval (R.content v) ∧ Legal v log

theorem current_append (v : ν) (l l' : List (Event ι ν ρ)) :
    current v (l ++ l') = current (current v l) l' := by
  induction l generalizing v with
  | nil => rfl
  | cons e l ih => cases e <;> exact ih _

theorem legal_append (v : ν) (l l' : List (Event ι ν ρ)) :
    R.Legal v (l ++ l') ↔ R.Legal v l ∧ R.Legal (current v l) l' := by
  induction l generalizing v with
  | nil => simp [Legal, current]
  | cons e l ih =>
    cases e with
    | published w => exact ih w
    | answered i r => simp only [List.cons_append, Legal, current, ih, and_assoc]

/-- What holds in every state that is reached from the version `v`. -/
structure Inv (v : ν) (s : State ι ν V ρ) : Prop where
  excluded : s.writer.isSome → s.readers = []
  /-- The cells that were copied hold the new version. -/
  copied : ∀ w ks, s.writer = some (w, ks) → ∀ k, k ∉ ks → s.cells k = R.content w k
  settled : s.writer = none → s.cells = R.content (current v s.log)
  reading : ∀ r ∈ s.readers, r.2.eval s.cells = (R.prog r.1).eval s.cells
  legal : R.Legal v s.log

variable {R} {v : ν} {s : State ι ν V ρ}

theorem Inv.start (v : ν) : R.Inv v { cells := R.content v } := by
  refine ⟨fun h => by simp at h, fun w ks h => by simp at h, fun _ => rfl, ?_, trivial⟩
  intro r hr
  cases hr

variable [DecidableEq κ]

theorem Inv.wrlock (I : R.Inv v s) (w : ν) : R.Inv v (R.step s (.wrlock w)) := by
  simp only [step]
  split
  · rename_i h
    refine ⟨fun _ => h.2, ?_, nofun, I.reading, I.legal⟩
    intro w' ks hw k hk
    obtain ⟨rfl, rfl⟩ := Prod.mk.inj (Option.some.inj hw)
    exact absurd (R.keys_all k) hk
  · exact I

/-- Readers are kept out, so nobody sees the cells while they are copied. -/
theorem Inv.copy (I : R.Inv v s) : R.Inv v (R.step s .copy) := by
  simp only [step]
  split
  · exact I
  · rename_i w hw
    have hcells : s.cells = R.content w := by
      funext k
      exact I.copied w [] hw k List.not_mem_nil
    refine ⟨nofun, nofun, fun _ => ?_, I.reading, ?_⟩
    · rw [current_append]
      exact hcells
    · exact (R.legal_append ..).mpr ⟨I.legal, trivial⟩
  · rename_i w k ks hw
    have hno := I.excluded (by rw [hw]; rfl)
    refine ⟨fun _ => hno, ?_, nofun, ?_, I.legal⟩
    · intro w' ks' hw' k' hk'
      obtain ⟨rfl, rfl⟩ := Prod.mk.inj (Option.some.inj hw')
      by_cases hk : k' = k
      · subst hk
        exact Function.update_self ..
      · simp only [Function.update_of_ne hk]
        exact I.copied w (k :: ks) hw k' (by simp [hk, hk'])
    · intro r hr
      rw [hno] at hr
      cases hr

theorem Inv.rdlock (I : R.Inv v s) (i : ι) : R.Inv v (R.step s (.rdlock i)) := by
  simp only [step]
  split
  · rename_i h
    refine ⟨fun hw => ?_, I.copied, I.settled, ?_, I.legal⟩
    · rw [Option.isNone_iff_eq_none.mp h] at hw
      cases hw
    · intro r hr
      rcases List.mem_append.mp hr with hr | hr
      · exact I.reading r hr
      · rw [List.mem_singleton.mp hr]
  · exact I

/-- A reader goes on with the cell it sees, and its result stays what it was to be. -/
theorem Inv.read (I : R.Inv v s) (n : Nat) : R.Inv v (R.step s (.read n)) := by
  simp only [step]
  split
  · exact I
  · rename_i i r hn
    have hmem := List.mem_of_getElem? hn
    have hfree : s.writer = none := by
      cases hw : s.writer with
      | none => rfl
      | some w =>
        rw [I.excluded (by rw [hw]; rfl)] at hmem
        cases hmem
    have hr : r = (R.prog i).eval s.cells := I.reading _ hmem
    refine ⟨fun h => ?_, I.copied, fun _ => ?_, ?_, ?_⟩
    · rw [hfree] at h
      cases h
    · rw [current_append]
      exact I.settled hfree
    · intro q hq
      exact I.reading q (List.mem_of_mem_eraseIdx hq)
    · refine (R.legal_append ..).mpr ⟨I.legal, ?_, trivial⟩
      rw [hr, I.settled hfree]
  · rename_i i k next hn
    have hmem := List.mem_of_getElem? hn
    refine ⟨fun h => ?_, I.copied, I.settled, ?_, I.legal⟩
    · rw [I.excluded h] at hmem
      cases hmem
    · intro q hq
      rcases List.mem_or_eq_of_mem_set hq with hq | rfl
      · exact I.reading q hq
      · exact I.reading (i, .read k next) hmem

/-- **A step of any thread keeps the invariant**, and with it the log legal. -/
theorem Inv.step (I : R.Inv v s) (a : Input ι ν) : R.Inv v (R.step s a) := by
  cases a with
  | wrlock w => exact I.wrlock w
  | copy => exact I.copy
  | rdlock i => exact I.rdlock i
  | read n => exact I.read n

end Interface

end Register
