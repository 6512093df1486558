import MemoryMonitor.WorkerCount
import MemoryMonitor.FairRuns

/-! # Every connection is taken out of the count

A connection is with one thread at a time (`helper`): with the accept loop while it is in
hand or on a failure exit, and with its worker otherwise.  That thread takes it nearer to
its end with every step, unless it waits for `worker_mutex`, and no other thread moves it.
The holder of the mutex is not held up itself, so that the mutex is free again and again;
a thread that waits for it needs the fairness of the mutex.

A worker that is serving takes its step when `recv` and `send_all` have returned.  Whether
`send_all` does return is left to the module on it; a behaviour in which a worker stays in
it for ever is not a fair one.
-/
namespace MemoryMonitor

/-! ## The threads -/

/-- A thread of the server. -/
inductive Thread where
  | acceptor
  | worker (i : Nat)
  | control
deriving DecidableEq, Repr

/-- The thread that takes the step; `gui_server_start` and `gui_server_stop` are called from
outside. -/
def Move.thread : Move → Option Thread
  | .acceptor _ => some .acceptor
  | .worker i _ => some (.worker i)
  | .control _ => some .control
  | .start _ | .stop => none

/-- How many steps a stage is from the end. -/
def Stage.toGo : Stage → Nat
  | .inHand => 7
  | .serving => 6
  | .reading => 5
  | .leaving .lock => 4
  | .leaving .load => 3
  | .leaving (.store _) => 2
  | .leaving .unlock => 1
  | .finished => 0

theorem Stage.toGo_lt {t t' : Stage} (h : t.toGo < t'.toGo) : t ≠ .inHand := by
  rintro rfl
  cases t' with
  | leaving l => cases l <;> simp [Stage.toGo] at h
  | _ => simp [Stage.toGo] at h

/-- How many steps the accept loop is from starting the thread of a connection in hand. -/
def Acceptor.toGo : Acceptor → Nat
  | .unlock _ => 5
  | .malloc _ => 4
  | .attrInit _ => 3
  | .setDetachState _ => 2
  | .create _ => 1
  | _ => 0

namespace ServerThreads

/-- The next step of the thread is not held up by another. -/
def Able (s : ServerThreads) : Thread → Prop
  | .acceptor =>
    match s.acceptor with
    | .absent | .exited => False
    | .lock => s.mutex = none
    | .undo i _ => s.conns[i]?.map Conn.stage = some (.leaving .lock) → s.mutex = none
    | _ => True
  | .worker i =>
    ¬ s.Undoing i ∧
      match s.conns[i]?.map Conn.stage with
      | some .serving | some .reading => True
      | some (.leaving l) => l = .lock → s.mutex = none
      | _ => False
  | .control =>
    match s.control with
    | .ready | .started | .stopped => False
    | .join => s.acceptor = .exited
    | .lock | .wait => s.mutex = none
    | _ => True

/-- The thread that has connection `i`. -/
def helper (s : ServerThreads) (i : Nat) : Thread :=
  if s.acceptor.inHand = some i ∨ s.Undoing i then .acceptor else .worker i

/-- How many steps connection `i` is from the end. -/
def toGo (s : ServerThreads) (i : Nat) : Nat :=
  match s.conns[i]?.map Conn.stage with
  | none => 0
  | some .inHand => Stage.inHand.toGo + s.acceptor.toGo
  | some t => t.toGo

variable {s s' : ServerThreads}

/-! ## What a step leaves alone -/

theorem ok_of_map_ok {x : Except ThreadFault ServerThreads} {out : Unit}
    (h : x.map (·, ()) = .ok (s', out)) : x = .ok s' := by
  cases x with
  | error e => cases h
  | ok r =>
    cases h
    rfl

theorem step_acceptor {a : Answer} {out : Unit} (hs : s.step (.acceptor a) = .ok (s', out)) :
    s.acceptorStep a = .ok s' := ok_of_map_ok hs

theorem step_worker {i : Nat} {metrics : Bool} {out : Unit}
    (hs : s.step (.worker i metrics) = .ok (s', out)) : s.workerStep i metrics = .ok s' :=
  ok_of_map_ok hs

theorem step_control {a : Answer} {out : Unit} (hs : s.step (.control a) = .ok (s', out)) :
    s.controlStep a = .ok s' := ok_of_map_ok hs

/-- Taking connection `i` out of the count waits for the mutex, or goes one step on, and
leaves everything else where it is. -/
theorem leave_cases {i : Nat} {l : Leave} (hs : s.leave i l = .ok s') :
    (l = .lock ∧ s.mutex ≠ none ∧ s' = s) ∨
      ∃ f m n, s' = { s with activeWorkers := n, mutex := m, conns := s.conns.modify i f } ∧
        (∀ c, (f c).stage.toGo < (Stage.leaving l).toGo) ∧
        ∀ who, s.mutex = some who → m = some who ∨ m = none := by
  unfold ServerThreads.leave at hs
  cases l with
  | lock =>
    simp only [ServerThreads.lock] at hs
    split at hs
    · cases hs
    · split at hs
      · rename_i hm
        cases hs
        exact Or.inr ⟨_, _, _, rfl, fun c => by simp [Stage.toGo], fun who hwho => by simp_all⟩
      · rename_i hm
        cases hs
        exact Or.inl ⟨rfl, hm, rfl⟩
  | load =>
    cases hs
    exact Or.inr ⟨_, _, _, rfl, fun c => by simp [Stage.toGo], fun who hwho => Or.inl hwho⟩
  | store v =>
    cases hs
    exact Or.inr ⟨_, _, _, rfl, fun c => by simp [Stage.toGo], fun who hwho => Or.inl hwho⟩
  | unlock =>
    simp only at hs
    split at hs
    · cases hs
    · cases hs
      exact Or.inr ⟨_, _, _, rfl, fun c => by simp [Stage.toGo], fun who hwho => Or.inr rfl⟩

/-- The step is about connection `i` and no other. -/
structure About (i : Nat) (s s' : ServerThreads) : Prop where
  acceptor : s'.acceptor = s.acceptor
  control : s'.control = s.control
  length : s'.conns.length = s.conns.length
  others : ∀ j, i ≠ j → s'.conns[j]? = s.conns[j]?
  /-- The mutex is not taken from its holder. -/
  mutex : ∀ who, s.mutex = some who → s'.mutex = some who ∨ s'.mutex = none

theorem About.refl (i : Nat) (s : ServerThreads) : About i s s :=
  ⟨rfl, rfl, rfl, fun _ _ => rfl, fun _ hm => Or.inl hm⟩

theorem leave_about {i : Nat} {l : Leave} (hs : s.leave i l = .ok s') : About i s s' := by
  rcases leave_cases hs with ⟨-, -, rfl⟩ | ⟨f, m, n, rfl, -, hmutex⟩
  · exact .refl i s'
  · exact ⟨rfl, rfl, List.length_modify .., fun j hj => by simp [hj], hmutex⟩

/-- Once the accept loop has let go of it, a connection is as far as its stage says. -/
theorem toGo_of_stage {i : Nat} {c : Conn} (hi : s.conns[i]? = some c) (hc : c.stage ≠ .inHand) :
    s.toGo i = c.stage.toGo := by
  unfold toGo
  rw [hi, Option.map_some]
  cases hstage : c.stage with
  | inHand => exact absurd hstage hc
  | _ => rfl

theorem leave_toGo {i : Nat} {l : Leave} {c : Conn} (hi : s.conns[i]? = some c)
    (hl : c.stage = .leaving l) (hs : s.leave i l = .ok s') :
    (l = .lock ∧ s.mutex ≠ none ∧ s' = s) ∨ s'.toGo i < s.toGo i := by
  refine (leave_cases hs).imp_right ?_
  rintro ⟨f, m, n, rfl, hlt, -⟩
  have hf : (s.conns.modify i f)[i]? = some (f c) := by simp [hi]
  rw [toGo_of_stage hf (Stage.toGo_lt (hlt c)), toGo_of_stage hi (by simp [hl]), hl]
  exact hlt c

/-! ### The worker -/

/-- The worker has nothing to do with connection `i`, takes it one step on, or is taking it
out of the count. -/
theorem workerStep_cases {i : Nat} {metrics : Bool} (hs : s.workerStep i metrics = .ok s') :
    (s' = s ∧ (s.Undoing i ∨ ∀ c, s.conns[i]? = some c → c.stage = .inHand ∨ c.stage = .finished)) ∨
      ∃ c, s.conns[i]? = some c ∧ (¬ s.Undoing i ∧ c.stage ≠ .inHand ∧ c.stage ≠ .finished) ∧
        ((∃ t, t.toGo < c.stage.toGo ∧ s' = s.setStage i t) ∨
          ∃ l, c.stage = .leaving l ∧ s.leave i l = .ok s') := by
  unfold ServerThreads.workerStep at hs
  split at hs
  · rename_i hundo
    cases hs
    exact Or.inl ⟨rfl, Or.inl hundo⟩
  · rename_i hundo
    cases hi : s.conns[i]? with
    | none =>
      rw [hi] at hs
      cases hs
      exact Or.inl ⟨rfl, Or.inr (by simp)⟩
    | some c =>
      rw [hi, Option.map_some] at hs
      cases hc : c.stage with
      | inHand | finished =>
        rw [hc] at hs
        cases hs
        exact Or.inl ⟨rfl, Or.inr (by simp [hc])⟩
      | serving =>
        simp only [hc] at hs
        refine Or.inr ⟨c, rfl, ⟨hundo, by simp [hc], by simp [hc]⟩, Or.inl ?_⟩
        split at hs
        · split at hs
          · cases hs
          · cases hs
            exact ⟨_, by simp [hc, Stage.toGo], rfl⟩
        · cases hs
          exact ⟨_, by simp [hc, Stage.toGo], rfl⟩
      | reading =>
        simp only [hc] at hs
        split at hs
        · cases hs
        · cases hs
          exact Or.inr ⟨c, rfl, ⟨hundo, by simp [hc], by simp [hc]⟩,
            Or.inl ⟨_, by simp [hc, Stage.toGo], rfl⟩⟩
      | leaving l =>
        rw [hc] at hs
        exact Or.inr ⟨c, rfl, ⟨hundo, by simp [hc], by simp [hc]⟩, Or.inr ⟨l, hc, hs⟩⟩

theorem workerStep_about {i : Nat} {metrics : Bool} (hs : s.workerStep i metrics = .ok s') :
    About i s s' := by
  rcases workerStep_cases hs with ⟨rfl, -⟩ | ⟨c, -, -, ⟨t, -, rfl⟩ | ⟨l, -, hleave⟩⟩
  · exact .refl i s'
  · exact ⟨rfl, rfl, List.length_modify .., fun j hj => by simp [setStage, hj],
      fun _ hm => Or.inl hm⟩
  · exact leave_about hleave

/-- A worker takes its connection one step on, unless it waits for the mutex. -/
theorem workerStep_toGo {i : Nat} {metrics : Bool} {c : Conn} (hi : s.conns[i]? = some c)
    (hundo : ¬ s.Undoing i) (hhand : c.stage ≠ .inHand) (hfin : c.stage ≠ .finished)
    (hs : s.workerStep i metrics = .ok s') :
    (c.stage = .leaving .lock ∧ s.mutex ≠ none ∧ s' = s) ∨ s'.toGo i < s.toGo i := by
  rcases workerStep_cases hs with ⟨-, hnone⟩ | ⟨d, hd, -, hcase⟩
  · rcases hnone.resolve_left hundo c hi with hc | hc
    · exact absurd hc hhand
    · exact absurd hc hfin
  · obtain rfl : d = c := by rwa [hi, Option.some.injEq, eq_comm] at hd
    rcases hcase with ⟨t, hlt, rfl⟩ | ⟨l, hl, hleave⟩
    · right
      have ht : (s.setStage i t).conns[i]? = some { d with stage := t } := by simp [setStage, hi]
      rw [toGo_of_stage ht (Stage.toGo_lt hlt), toGo_of_stage hi hhand]
      exact hlt
    · refine (leave_toGo hi hl hleave).imp_left ?_
      rintro ⟨rfl, hm, rfl⟩
      exact ⟨hl, hm, rfl⟩

/-- It leaves a connection alone that is not its own any more, or not yet. -/
theorem workerStep_stays {i : Nat} {metrics : Bool} {c : Conn} (hi : s.conns[i]? = some c)
    (hstay : s.Undoing i ∨ c.stage = .inHand ∨ c.stage = .finished)
    (hs : s.workerStep i metrics = .ok s') : s' = s := by
  rcases workerStep_cases hs with ⟨h, -⟩ | ⟨d, hd, ⟨hundo, hhand, hfin⟩, -⟩
  · exact h
  · obtain rfl : d = c := by rwa [hi, Option.some.injEq, eq_comm] at hd
    rcases hstay with h | h | h
    · exact absurd h hundo
    · exact absurd h hhand
    · exact absurd h hfin

/-! ### The accept loop -/

theorem orUndo_frame {a : Answer} {i j : Nat} {next : Acceptor} {created : Bool} (hij : i ≠ j)
    (hnext : ∀ created, next ≠ .undo j created) :
    (s.orUndo a i next created).conns[j]? = s.conns[j]? ∧
      ¬ (s.orUndo a i next created).Undoing j := by
  unfold orUndo
  split
  · exact ⟨rfl, by simp [Undoing, hnext]⟩
  · exact ⟨by simp [setStage, hij], by simp [Undoing, hij]⟩

theorem acceptorStep_control {a : Answer} (hs : s.acceptorStep a = .ok s') :
    s'.control = s.control := by
  unfold ServerThreads.acceptorStep at hs
  cases ha : s.acceptor with
  | lock =>
    simp only [ha, ServerThreads.lock] at hs
    split at hs <;> (try split at hs) <;> cases hs <;> rfl
  | undo i created =>
    simp only [ha] at hs
    split at hs
    · exact (leave_about hs).control
    · cases hs
      rfl
  | malloc i | attrInit i | setDetachState i | create i =>
    simp only [ha] at hs
    unfold orUndo at hs
    split at hs <;> cases hs <;> rfl
  | accept =>
    simp only [ha] at hs
    cases a <;> cases hs <;> rfl
  | compare =>
    simp only [ha] at hs
    split at hs <;> cases hs <;> rfl
  | _ =>
    simp only [ha] at hs
    cases hs
    rfl

/-- The accept loop leaves a connection alone that it does not have. -/
theorem acceptorStep_frame {a : Answer} {j : Nat} {c : Conn} (hj : s.conns[j]? = some c)
    (hhand : s.acceptor.inHand ≠ some j) (hundo : ¬ s.Undoing j)
    (hs : s.acceptorStep a = .ok s') : s'.conns[j]? = some c ∧ ¬ s'.Undoing j := by
  unfold ServerThreads.acceptorStep at hs
  cases ha : s.acceptor with
  | absent | exited =>
    simp only [ha] at hs
    cases hs
    exact ⟨hj, hundo⟩
  | accept =>
    simp only [ha] at hs
    cases a <;> cases hs <;> exact ⟨hj, by simp [Undoing]⟩
  | loop | acceptFailed =>
    simp only [ha] at hs
    cases hs
    refine ⟨hj, ?_⟩
    unfold Undoing
    dsimp only
    split <;> simp
  | lock =>
    simp only [ha, ServerThreads.lock] at hs
    split at hs
    · cases hs
    · split at hs
      · cases hs
        exact ⟨hj, by simp [Undoing]⟩
      · cases hs
        exact ⟨hj, hundo⟩
  | compare =>
    simp only [ha] at hs
    split at hs
    · cases hs
      exact ⟨hj, by simp [Undoing]⟩
    · cases hs
      exact ⟨hj, by simp [Undoing]⟩
  | increment v =>
    simp only [ha] at hs
    cases hs
    refine ⟨?_, by simp [Undoing]⟩
    show (s.conns ++ _)[j]? = some c
    rw [List.getElem?_append_left (List.getElem?_eq_some_iff.mp hj).1, hj]
  | busy | reject | unlock i | attrDestroy =>
    simp only [ha] at hs
    cases hs
    exact ⟨hj, by simp [Undoing]⟩
  | malloc i | attrInit i | setDetachState i =>
    have hij : i ≠ j := by simpa [ha, Acceptor.inHand] using hhand
    simp only [ha] at hs
    cases hs
    rw [← hj]
    exact orUndo_frame hij (by simp)
  | create i =>
    have hij : i ≠ j := by simpa [ha, Acceptor.inHand] using hhand
    simp only [ha] at hs
    split at hs
    · cases hs
      exact ⟨by simp [setStage, hij, hj], by simp [Undoing]⟩
    · cases hs
      rw [← hj]
      exact orUndo_frame hij (by simp)
  | undo i created =>
    have hij : i ≠ j := by
      rintro rfl
      exact hundo (by cases created <;> simp [Undoing, ha])
    simp only [ha] at hs
    split at hs
    · have habout := leave_about hs
      rw [habout.others j hij, hj]
      refine ⟨rfl, ?_⟩
      unfold Undoing
      rw [habout.acceptor]
      exact hundo
    · cases hs
      refine ⟨hj, ?_⟩
      unfold Undoing
      dsimp only
      split <;> simp

/-- The accept loop takes the connection in its hand one step on. -/
theorem Inv.acceptorStep_hand (h : s.Inv) {a : Answer} {i : Nat}
    (hhand : s.acceptor.inHand = some i) (hs : s.acceptorStep a = .ok s') :
    s'.toGo i < s.toGo i := by
  obtain ⟨c, hi, hc⟩ := (h.hand i).mp hhand
  have hto : s.toGo i = 7 + s.acceptor.toGo := by simp [toGo, hi, hc, Stage.toGo]
  have horUndo : ∀ {next : Acceptor} {created : Bool}, next.toGo < s.acceptor.toGo →
      (s.orUndo a i next created).toGo i < s.toGo i := by
    intro next created hlt
    rw [hto]
    unfold ServerThreads.orUndo
    split
    · simp [toGo, hi, hc, Stage.toGo, hlt]
    · simp [toGo, setStage, hi, Stage.toGo]
      omega
  unfold ServerThreads.acceptorStep at hs
  cases ha : s.acceptor with
  | unlock i' =>
    simp only [ha] at hs
    cases hs
    rw [hto, ha]
    simp [toGo, hi, hc, Stage.toGo, Acceptor.toGo]
  | malloc i' | attrInit i' | setDetachState i' =>
    obtain rfl : i' = i := by simpa [ha, Acceptor.inHand] using hhand
    simp only [ha] at hs
    cases hs
    exact horUndo (by simp [ha, Acceptor.toGo])
  | create i' =>
    obtain rfl : i' = i := by simpa [ha, Acceptor.inHand] using hhand
    simp only [ha] at hs
    split at hs
    · cases hs
      rw [hto]
      simp [toGo, setStage, hi, Stage.toGo]
      omega
    · cases hs
      exact horUndo (by simp [ha, Acceptor.toGo])
  | _ => simp [ha, Acceptor.inHand] at hhand

/-- On a failure exit it does so too, unless it waits for the mutex. -/
theorem acceptorStep_undo {a : Answer} {i : Nat} {l : Leave} {c : Conn}
    (hi : s.conns[i]? = some c) (hl : c.stage = .leaving l) (hundo : s.Undoing i)
    (hs : s.acceptorStep a = .ok s') :
    (l = .lock ∧ s.mutex ≠ none ∧ s' = s) ∨ s'.toGo i < s.toGo i := by
  have hleave : s.acceptorStep a = s.leave i l := by
    unfold ServerThreads.acceptorStep
    rcases hundo with ha | ha <;> simp [ha, hi, hl]
  rw [hleave] at hs
  exact leave_toGo hi hl hs

/-! ### The other threads -/

theorem controlStep_frame {a : Answer} (hs : s.controlStep a = .ok s') :
    s'.conns = s.conns ∧ (s.control ≠ .create → s'.acceptor = s.acceptor) := by
  unfold ServerThreads.controlStep ServerThreads.lock at hs
  split at hs <;> (try split at hs) <;> (try split at hs) <;> cases hs <;> simp_all

theorem startStep_frame (listening : Bool) : (s.startStep listening).conns = s.conns ∧
    (s.startStep listening).acceptor = s.acceptor := by
  unfold ServerThreads.startStep
  split <;> exact ⟨rfl, rfl⟩

theorem stopStep_frame : s.stopStep.conns = s.conns ∧ s.stopStep.acceptor = s.acceptor := by
  unfold ServerThreads.stopStep
  split <;> (try split) <;> exact ⟨rfl, rfl⟩

/-! ## A connection on its way -/

theorem toGo_congr {i : Nat} (hconn : s'.conns[i]? = s.conns[i]?)
    (hacc : s'.acceptor = s.acceptor) :
    s'.toGo i = s.toGo i ∧ s'.helper i = s.helper i := by
  have hundo : s'.Undoing i ↔ s.Undoing i := by
    unfold Undoing
    rw [hacc]
  constructor
  · unfold toGo
    rw [hconn, hacc]
  · simp only [helper, hacc, hundo]

theorem Inv.leaving_of_undoing (h : s.Inv) {i : Nat} {c : Conn} (hi : s.conns[i]? = some c)
    (hfin : c.stage ≠ .finished) (hundo : s.Undoing i) : ∃ l, c.stage = .leaving l := by
  have hstage : ∀ created, s.acceptor = .undo i created → ∃ l, c.stage = .leaving l := by
    intro created ha
    obtain ⟨d, hd, hstage⟩ := h.undoing i created ha
    obtain rfl : d = c := by rwa [hi, Option.some.injEq, eq_comm] at hd
    exact hstage.resolve_left hfin
  rcases hundo with ha | ha
  · exact hstage _ ha
  · exact hstage _ ha

/-- **A step takes a connection nearer to its end, or leaves it where it is.** -/
theorem Inv.conn_step (h : s.Inv) {mv : Move} (hs : s.step mv = .ok (s', ())) {i : Nat} {c : Conn}
    (hi : s.conns[i]? = some c) (hfin : c.stage ≠ .finished) :
    s'.toGo i < s.toGo i ∨
      s'.conns[i]? = some c ∧ s'.toGo i = s.toGo i ∧ s'.helper i = s.helper i := by
  have hsame : s'.conns[i]? = s.conns[i]? → s'.acceptor = s.acceptor →
      s'.conns[i]? = some c ∧ s'.toGo i = s.toGo i ∧ s'.helper i = s.helper i :=
    fun hconn hacc => ⟨hconn.trans hi, toGo_congr hconn hacc⟩
  cases mv with
  | acceptor a =>
    have hs' := step_acceptor hs
    by_cases hhand : s.acceptor.inHand = some i
    · exact Or.inl (h.acceptorStep_hand hhand hs')
    · by_cases hundo : s.Undoing i
      · obtain ⟨l, hl⟩ := h.leaving_of_undoing hi hfin hundo
        rcases acceptorStep_undo hi hl hundo hs' with ⟨-, -, rfl⟩ | hlt
        · exact Or.inr (hsame rfl rfl)
        · exact Or.inl hlt
      · obtain ⟨hconn, hundo'⟩ := acceptorStep_frame hi hhand hundo hs'
        -- the connection is in nobody's hand, before and after
        have hc : c.stage ≠ .inHand := fun hc => hhand ((h.hand i).mpr ⟨c, hi, hc⟩)
        have hhand' : s'.acceptor.inHand ≠ some i := by
          intro hhand'
          obtain ⟨s₁, hs₁, hinv⟩ := h.step (.acceptor a)
          obtain rfl : s₁ = s' := by rw [hs] at hs₁; cases hs₁; rfl
          obtain ⟨d, hd, hstage⟩ := (hinv.hand i).mp hhand'
          obtain rfl : d = c := by rwa [hconn, Option.some.injEq, eq_comm] at hd
          exact hc hstage
        refine Or.inr ⟨hconn, ?_, ?_⟩
        · unfold toGo
          rw [hconn, hi]
          cases hstage : c.stage with
          | inHand => exact absurd hstage hc
          | _ => simp [hstage]
        · unfold helper
          rw [if_neg (by simp [hhand', hundo']), if_neg (by simp [hhand, hundo])]
  | worker j metrics =>
    have hs' := step_worker hs
    by_cases hji : j = i
    · subst hji
      by_cases hstay : s.Undoing j ∨ c.stage = .inHand
      · obtain rfl := workerStep_stays hi (hstay.imp_right Or.inl) hs'
        exact Or.inr (hsame rfl rfl)
      · obtain ⟨hundo, hc⟩ := not_or.mp hstay
        rcases workerStep_toGo hi hundo hc hfin hs' with ⟨-, -, rfl⟩ | hlt
        · exact Or.inr (hsame rfl rfl)
        · exact Or.inl hlt
    · exact Or.inr (hsame ((workerStep_about hs').others i hji) (workerStep_about hs').acceptor)
  | start listening =>
    cases hs
    obtain ⟨hconns, hacc⟩ := startStep_frame (s := s) listening
    exact Or.inr (hsame (by rw [hconns]) hacc)
  | stop =>
    cases hs
    obtain ⟨hconns, hacc⟩ := stopStep_frame (s := s)
    exact Or.inr (hsame (by rw [hconns]) hacc)
  | control a =>
    obtain ⟨hconns, hacc⟩ := controlStep_frame (step_control hs)
    refine Or.inr (hsame (by rw [hconns]) (hacc fun hcreate => ?_))
    rw [(h.unstarted (by rw [hcreate]; rfl)).2] at hi
    cases hi

/-- The thread that has a connection is not held up by anything but the mutex. -/
theorem Inv.helper_able (h : s.Inv) {i : Nat} {c : Conn} (hi : s.conns[i]? = some c)
    (hfin : c.stage ≠ .finished) (hm : c.stage = .leaving .lock → s.mutex = none) :
    s.Able (s.helper i) := by
  unfold helper
  split
  · rename_i hhas
    rcases hhas with hhand | hundo
    · unfold Able
      cases ha : s.acceptor <;> simp [ha, Acceptor.inHand] at hhand ⊢
    · rcases hundo with ha | ha <;> simpa [Able, ha, hi] using hm
  · rename_i hhas
    obtain ⟨hhand, hundo⟩ := not_or.mp hhas
    refine ⟨hundo, ?_⟩
    rw [hi, Option.map_some]
    cases hc : c.stage with
    | inHand => exact absurd ((h.hand i).mpr ⟨c, hi, hc⟩) hhand
    | finished => exact absurd hc hfin
    | leaving l =>
      rintro rfl
      exact hm hc
    | _ => trivial

/-- The other way round: it is able to take the mutex only when the mutex is free. -/
theorem Inv.mutex_of_able (h : s.Inv) {i : Nat} {c : Conn} (hi : s.conns[i]? = some c)
    (hable : s.Able (s.helper i)) (hl : c.stage = .leaving .lock) : s.mutex = none := by
  have hhand : s.acceptor.inHand ≠ some i := by
    intro hhand
    obtain ⟨d, hd, hstage⟩ := (h.hand i).mp hhand
    simp_all
  unfold helper at hable
  split at hable
  · rename_i hhas
    rcases hhas.resolve_left hhand with ha | ha
    · simpa [Able, ha, hi, hl] using hable
    · simpa [Able, ha, hi, hl] using hable
  · simpa [hi, hl] using hable.2

/-- **The thread that has a connection takes it one step on**, unless it waits. -/
theorem Inv.helper_step (h : s.Inv) {mv : Move} (hs : s.step mv = .ok (s', ())) {i : Nat}
    {c : Conn} (hi : s.conns[i]? = some c) (hfin : c.stage ≠ .finished)
    (hm : c.stage = .leaving .lock → s.mutex = none) (ht : mv.thread = some (s.helper i)) :
    s'.toGo i < s.toGo i := by
  unfold helper at ht
  split at ht
  · rename_i hhas
    obtain ⟨a, rfl⟩ : ∃ a, mv = .acceptor a := by
      cases mv <;> simp_all [Move.thread]
    have hs' := step_acceptor hs
    by_cases hhand : s.acceptor.inHand = some i
    · exact h.acceptorStep_hand hhand hs'
    · have hundo := hhas.resolve_left hhand
      obtain ⟨l, hl⟩ := h.leaving_of_undoing hi hfin hundo
      rcases acceptorStep_undo hi hl hundo hs' with ⟨rfl, hheld, -⟩ | hlt
      · exact absurd (hm hl) hheld
      · exact hlt
  · rename_i hhas
    obtain ⟨hhand, hundo⟩ := not_or.mp hhas
    obtain ⟨metrics, rfl⟩ : ∃ metrics, mv = .worker i metrics := by
      cases mv <;> simp_all [Move.thread]
    have hc : c.stage ≠ .inHand := fun hc => hhand ((h.hand i).mpr ⟨c, hi, hc⟩)
    rcases workerStep_toGo hi hundo hc hfin (step_worker hs) with ⟨hl, hheld, -⟩ | hlt
    · exact absurd (hm hl) hheld
    · exact hlt

/-- A connection that is finished stays so. -/
theorem Inv.finished_step (h : s.Inv) {mv : Move} (hs : s.step mv = .ok (s', ())) {i : Nat}
    {c : Conn} (hi : s.conns[i]? = some c) (hfin : c.stage = .finished) :
    s'.conns[i]? = some c := by
  cases mv with
  | acceptor a =>
    have hs' := step_acceptor hs
    have hhand : s.acceptor.inHand ≠ some i := by
      intro hhand
      obtain ⟨d, hd, hstage⟩ := (h.hand i).mp hhand
      simp_all
    by_cases hundo : s.Undoing i
    · have hconns : s'.conns = s.conns := by
        unfold ServerThreads.acceptorStep at hs'
        rcases hundo with ha | ha
        · simp only [ha, hi, Option.map_some, hfin] at hs'
          cases hs'
          rfl
        · simp only [ha, hi, Option.map_some, hfin] at hs'
          cases hs'
          rfl
      rw [hconns, hi]
    · exact (acceptorStep_frame hi hhand hundo hs').1
  | worker j metrics =>
    have hs' := step_worker hs
    by_cases hji : j = i
    · subst hji
      rw [workerStep_stays hi (Or.inr (Or.inr hfin)) hs', hi]
    · rw [(workerStep_about hs').others i hji, hi]
  | start listening =>
    cases hs
    rw [(startStep_frame (s := s) listening).1, hi]
  | stop =>
    cases hs
    rw [(stopStep_frame (s := s)).1, hi]
  | control a => rw [(controlStep_frame (step_control hs)).1, hi]

/-! ## The mutex -/

/-- The thread that holds the mutex. -/
def holder (s : ServerThreads) : Holder → Thread
  | .acceptor => .acceptor
  | .conn i => s.helper i
  | .control => .control

/-- How many steps the holder is from the release. -/
def release (s : ServerThreads) : Holder → Nat
  | .acceptor =>
    match s.acceptor with
    | .compare => 3
    | .increment _ => 2
    | _ => 1
  | .conn i => s.toGo i
  | .control => if s.control = .compare then 2 else 1

/-- How far the mutex is from being free. -/
def untilFree (s : ServerThreads) : Nat := (s.mutex.map s.release).getD 0

/-- The mutex is not handed on: it is free in between. -/
theorem step_mutex {mv : Move} (hs : s.step mv = .ok (s', ())) {who : Holder}
    (hm : s.mutex = some who) : s'.mutex = some who ∨ s'.mutex = none := by
  cases mv with
  | acceptor a =>
    have hs' := step_acceptor hs
    unfold ServerThreads.acceptorStep at hs'
    cases ha : s.acceptor with
    | lock =>
      simp only [ha, ServerThreads.lock, hm] at hs'
      split at hs' <;> cases hs'
      exact Or.inl hm
    | undo i created =>
      simp only [ha] at hs'
      split at hs'
      · exact (leave_about hs').mutex who hm
      · cases hs'
        exact Or.inl hm
    | busy | unlock i =>
      simp only [ha] at hs'
      cases hs'
      exact Or.inr rfl
    | malloc i | attrInit i | setDetachState i | create i =>
      simp only [ha] at hs'
      unfold ServerThreads.orUndo at hs'
      split at hs' <;> cases hs' <;> exact Or.inl hm
    | accept =>
      simp only [ha] at hs'
      cases a <;> cases hs' <;> exact Or.inl hm
    | compare =>
      simp only [ha] at hs'
      split at hs' <;> cases hs' <;> exact Or.inl hm
    | absent | exited | loop | acceptFailed | reject | increment v | attrDestroy =>
      simp only [ha] at hs'
      cases hs'
      exact Or.inl hm
  | worker j metrics => exact (workerStep_about (step_worker hs)).mutex who hm
  | start listening =>
    cases hs
    unfold ServerThreads.startStep
    split <;> exact Or.inl hm
  | stop =>
    cases hs
    unfold ServerThreads.stopStep
    split <;> (try split) <;> exact Or.inl hm
  | control a =>
    have hs' := step_control hs
    unfold ServerThreads.controlStep ServerThreads.lock at hs'
    split at hs' <;> (try split at hs') <;> (try split at hs') <;> cases hs' <;> simp_all

/-- A critical section keeps a thread of `gui_server_stop` where only it goes on. -/
theorem control_frame {mv : Move} (hs : s.step mv = .ok (s', ()))
    (hc : s.control.critical = true) (ht : mv.thread ≠ some .control) :
    s'.control = s.control := by
  cases mv with
  | acceptor a => exact acceptorStep_control (step_acceptor hs)
  | worker j metrics => exact (workerStep_about (step_worker hs)).control
  | start listening =>
    cases hs
    unfold ServerThreads.startStep
    rw [if_neg]
    rintro ⟨hready, -⟩
    rw [hready] at hc
    cases hc
  | stop =>
    cases hs
    unfold ServerThreads.stopStep
    cases hk : s.control <;> simp [hk, Control.critical] at hc ⊢
  | control a => exact absurd rfl ht

/-- Only its own steps move the accept loop on. -/
theorem Inv.acceptor_frame (h : s.Inv) {mv : Move} (hs : s.step mv = .ok (s', ()))
    (ha : s.acceptor ≠ .absent) (ht : mv.thread ≠ some .acceptor) : s'.acceptor = s.acceptor := by
  cases mv with
  | acceptor a => exact absurd rfl ht
  | worker j metrics => exact (workerStep_about (step_worker hs)).acceptor
  | start listening =>
    cases hs
    exact (startStep_frame listening).2
  | stop =>
    cases hs
    exact stopStep_frame.2
  | control a =>
    refine (controlStep_frame (step_control hs)).2 fun hcreate => ha ?_
    exact (h.unstarted (by rw [hcreate]; rfl)).1

/-- **A step of the holder brings the release nearer.** -/
theorem Inv.holder_step (h : s.Inv) {mv : Move} (hs : s.step mv = .ok (s', ())) {who : Holder}
    (hm : s.mutex = some who) (hm' : s'.mutex = some who) (ht : mv.thread = some (s.holder who)) :
    s'.release who < s.release who := by
  cases who with
  | acceptor =>
    have hcrit := h.ownerAcceptor.mp hm
    obtain ⟨a, rfl⟩ : ∃ a, mv = .acceptor a := by
      cases mv <;> simp_all [Move.thread, holder]
    have hs' := step_acceptor hs
    unfold ServerThreads.acceptorStep at hs'
    cases ha : s.acceptor <;> simp [ha, Acceptor.critical] at hcrit <;> simp only [ha] at hs'
    case compare =>
      split at hs' <;> cases hs' <;> simp [release, ha]
    case busy =>
      cases hs'
      cases hm'
    case increment v =>
      cases hs'
      simp [release, ha]
    case unlock i =>
      cases hs'
      cases hm'
  | conn i =>
    obtain ⟨c, hi, hcrit⟩ := (h.ownerConn i).mp hm
    refine h.helper_step hs hi ?_ ?_ ht
    · intro hc
      simp [hc, Stage.critical] at hcrit
    · intro hc
      simp [hc, Stage.critical] at hcrit
  | control =>
    have hcrit := h.ownerControl.mp hm
    obtain ⟨a, rfl⟩ : ∃ a, mv = .control a := by
      cases mv <;> simp_all [Move.thread, holder]
    have hs' := step_control hs
    unfold ServerThreads.controlStep at hs'
    cases hk : s.control <;> simp [hk, Control.critical] at hcrit <;> simp only [hk] at hs'
    case compare =>
      split at hs' <;> cases hs'
      · cases hm'
      · simp [release, hk]
    case unlock =>
      cases hs'
      cases hm'

/-- The other threads leave the holder where it is. -/
theorem Inv.mutex_step (h : s.Inv) {mv : Move} (hs : s.step mv = .ok (s', ())) {who : Holder}
    (hm : s.mutex = some who) (hm' : s'.mutex = some who) :
    s'.release who < s.release who ∨
      s'.release who = s.release who ∧ s'.holder who = s.holder who := by
  by_cases ht : mv.thread = some (s.holder who)
  · exact Or.inl (h.holder_step hs hm hm' ht)
  · cases who with
    | acceptor =>
      have hcrit := h.ownerAcceptor.mp hm
      have hacc := h.acceptor_frame hs (by rintro ha; rw [ha] at hcrit; cases hcrit) ht
      right
      simp [release, holder, hacc]
    | conn i =>
      obtain ⟨c, hi, hcrit⟩ := (h.ownerConn i).mp hm
      have hfin : c.stage ≠ .finished := by
        intro hc
        simp [hc, Stage.critical] at hcrit
      exact (h.conn_step hs hi hfin).imp_right And.right
    | control =>
      have hcontrol := control_frame hs (h.ownerControl.mp hm) ht
      right
      simp [release, holder, hcontrol]

theorem Inv.release_pos (h : s.Inv) {who : Holder} (hm : s.mutex = some who) :
    0 < s.release who := by
  cases who with
  | acceptor =>
    unfold release
    simp only
    split <;> omega
  | conn i =>
    obtain ⟨c, hi, hcrit⟩ := (h.ownerConn i).mp hm
    show 0 < s.toGo i
    cases hc : c.stage with
    | leaving l => cases l <;> simp [toGo, hi, hc, Stage.toGo]
    | _ => simp [hc, Stage.critical] at hcrit
  | control =>
    unfold release
    simp only
    split <;> omega

/-- The holder is not held up. -/
theorem Inv.holder_able (h : s.Inv) {who : Holder} (hm : s.mutex = some who) :
    s.Able (s.holder who) := by
  cases who with
  | acceptor =>
    have hcrit := h.ownerAcceptor.mp hm
    show s.Able .acceptor
    cases ha : s.acceptor <;> simp_all [Able, Acceptor.critical]
  | conn i =>
    obtain ⟨c, hi, hcrit⟩ := (h.ownerConn i).mp hm
    refine h.helper_able hi ?_ ?_
    · intro hc
      simp [hc, Stage.critical] at hcrit
    · intro hc
      simp [hc, Stage.critical] at hcrit
  | control =>
    have hcrit := h.ownerControl.mp hm
    show s.Able .control
    cases hk : s.control <;> simp_all [Able, Control.critical]

/-! ## The end of a connection -/

/-- A connection at its end was taken out of the count once. -/
theorem Inv.finished_once (h : s.Inv) {i : Nat} {c : Conn} (hi : s.conns[i]? = some c)
    (hfin : c.stage = .finished) : s.conns[i]? = some ⟨.finished, 1⟩ := by
  have honce := h.once i c hi
  rw [hfin] at honce
  obtain ⟨stage, decrements⟩ := c
  obtain rfl : stage = .finished := hfin
  obtain rfl : decrements = 1 := honce
  exact hi

theorem orUndo_length {a : Answer} {i : Nat} {next : Acceptor} {created : Bool} :
    (s.orUndo a i next created).conns.length = s.conns.length := by
  unfold orUndo
  split
  · rfl
  · exact List.length_modify ..

theorem acceptorStep_length {a : Answer} (hs : s.acceptorStep a = .ok s') :
    s.conns.length ≤ s'.conns.length := by
  unfold ServerThreads.acceptorStep at hs
  cases ha : s.acceptor with
  | increment v =>
    simp only [ha] at hs
    cases hs
    simp
  | lock =>
    simp only [ha, ServerThreads.lock] at hs
    split at hs
    · cases hs
    · split at hs <;> cases hs <;> exact Nat.le_refl _
  | malloc i | attrInit i | setDetachState i =>
    simp only [ha] at hs
    cases hs
    exact orUndo_length.ge
  | create i =>
    simp only [ha] at hs
    split at hs
    · cases hs
      exact (List.length_modify ..).ge
    · cases hs
      exact orUndo_length.ge
  | undo i created =>
    simp only [ha] at hs
    split at hs
    · exact (leave_about hs).length.ge
    · cases hs
      exact Nat.le_refl _
  | accept =>
    simp only [ha] at hs
    cases a <;> cases hs <;> exact Nat.le_refl _
  | compare =>
    simp only [ha] at hs
    split at hs <;> cases hs <;> exact Nat.le_refl _
  | absent | loop | acceptFailed | busy | reject | unlock i | attrDestroy | exited =>
    simp only [ha] at hs
    cases hs
    exact Nat.le_refl _

/-- No step takes a connection off the list. -/
theorem step_length {mv : Move} (hs : s.step mv = .ok (s', ())) :
    s.conns.length ≤ s'.conns.length := by
  cases mv with
  | acceptor a => exact acceptorStep_length (step_acceptor hs)
  | worker i metrics => rw [(workerStep_about (step_worker hs)).length]
  | start listening =>
    cases hs
    rw [(startStep_frame listening).1]
  | stop =>
    cases hs
    rw [stopStep_frame.1]
  | control a => rw [(controlStep_frame (step_control hs)).1]

theorem steps (b : serverThreads.Behaviour) (n : Nat) :
    (b.state n).step (b.input n) = .ok (b.state (n + 1), ()) := by
  obtain ⟨out, hstep⟩ := b.next n
  exact hstep

/-- **The mutex is free again and again.** -/
theorem mutex_free_often {b : serverThreads.Behaviour} (hinv : ∀ n, (b.state n).Inv)
    (hfair : b.Fair Move.thread Able) : ∃ᶠ n in Filter.atTop, (b.state n).mutex = none := by
  have hsteps := steps b
  have hheld : ∀ n, (b.state n).mutex ≠ none → (b.state (n + 1)).mutex ≠ none →
      ∃ who, (b.state n).mutex = some who ∧ (b.state (n + 1)).mutex = some who := by
    intro n hn hn'
    obtain ⟨who, hm⟩ := Option.ne_none_iff_exists'.mp hn
    exact ⟨who, hm, (step_mutex (hsteps n) hm).resolve_right hn'⟩
  refine hfair.frequently (fun s => s.mutex = none) untilFree
    (fun s => (s.mutex.map s.holder).getD .control) ?_ ?_ ?_
  · intro n hn hn'
    obtain ⟨who, hm, hm'⟩ := hheld n hn hn'
    simpa only [untilFree, hm, hm', Option.map_some, Option.getD_some] using
      (hinv n).mutex_step (hsteps n) hm hm'
  · intro n hn hn' _ ht
    obtain ⟨who, hm, hm'⟩ := hheld n hn hn'
    simp only [untilFree, hm, hm', Option.map_some, Option.getD_some] at ht ⊢
    exact (hinv n).holder_step (hsteps n) hm hm' ht
  · refine Filter.Frequently.of_forall fun n => ?_
    cases hm : (b.state n).mutex with
    | none => exact Or.inl rfl
    | some who => exact Or.inr ((hinv n).holder_able hm)

/-- The stage of connection `i`, if there is one, is the last. -/
def Finished (i : Nat) (s : ServerThreads) : Prop :=
  ∀ c, s.conns[i]? = some c → c.stage = .finished

theorem exists_unfinished {i : Nat} (h : ¬ Finished i s) :
    ∃ c, s.conns[i]? = some c ∧ c.stage ≠ .finished := by
  obtain ⟨c, hc⟩ := not_forall.mp h
  exact ⟨c, Classical.not_imp.mp hc⟩

/-- **In a fair behaviour every connection is taken out of the count.** -/
theorem eventually_finished {b : serverThreads.Behaviour} (hinv : ∀ n, (b.state n).Inv)
    (hfair : b.Fair Move.thread Able) {n i : Nat} (hi : i < (b.state n).conns.length) :
    ∀ᶠ m in Filter.atTop, (b.state m).conns[i]? = some ⟨.finished, 1⟩ := by
  have hsteps := steps b
  have hfinished : ∃ᶠ m in Filter.atTop, Finished i (b.state m) := by
    refine hfair.frequently (Finished i) (fun s => s.toGo i) (fun s => s.helper i) ?_ ?_ ?_
    · intro m hm _
      obtain ⟨c, hc, hfin⟩ := exists_unfinished hm
      exact ((hinv m).conn_step (hsteps m) hc hfin).imp_right And.right
    · intro m hm _ hable ht
      obtain ⟨c, hc, hfin⟩ := exists_unfinished hm
      exact (hinv m).helper_step (hsteps m) hc hfin ((hinv m).mutex_of_able hc hable) ht
    · refine (mutex_free_often hinv hfair).mono fun m hm => ?_
      by_cases hq : Finished i (b.state m)
      · exact Or.inl hq
      · obtain ⟨c, hc, hfin⟩ := exists_unfinished hq
        exact Or.inr ((hinv m).helper_able hc hfin fun _ => hm)
  -- from `n` on the connection is on the list
  have hlength := b.eventually_of_kept (fun s => i < s.conns.length) hi fun m hm =>
    Nat.lt_of_lt_of_le hm (step_length (hsteps m))
  obtain ⟨m, hfin, hm⟩ := (hfinished.and_eventually hlength).exists
  have hconn := List.getElem?_eq_getElem hm
  exact b.eventually_of_kept (fun s => s.conns[i]? = some ⟨.finished, 1⟩)
    ((hinv m).finished_once hconn (hfin _ hconn))
    fun m hm => (hinv m).finished_step (hsteps m) hm rfl

/-! ## A way to the end -/

/-- A step of the thread. -/
def move : Thread → Move
  | .acceptor => .acceptor .ok
  | .worker i => .worker i false
  | .control => .control .ok

theorem thread_move (t : Thread) : (move t).thread = some t := by
  cases t <;> rfl

/-- Some thread takes connection `i` nearer to its end, or the mutex nearer to its release. -/
theorem Inv.exists_step (h : s.Inv) {i : Nat} {c : Conn} (hi : s.conns[i]? = some c)
    (hfin : c.stage ≠ .finished) : ∃ mv s', s.step mv = .ok (s', ()) ∧
      (s'.toGo i < s.toGo i ∨ s'.toGo i = s.toGo i ∧ s'.untilFree < s.untilFree) := by
  cases hm : s.mutex with
  | none =>
    obtain ⟨s', hs, -⟩ := h.step (move (s.helper i))
    exact ⟨_, s', hs, Or.inl (h.helper_step hs hi hfin (fun _ => hm) (thread_move _))⟩
  | some who =>
    obtain ⟨s', hs, -⟩ := h.step (move (s.holder who))
    refine ⟨_, s', hs, (h.conn_step hs hi hfin).imp_right fun hsame => ⟨hsame.2.1, ?_⟩⟩
    rcases step_mutex hs hm with hm' | hm'
    · simpa [untilFree, hm, hm'] using h.holder_step hs hm hm' (thread_move _)
    · simpa [untilFree, hm, hm'] using h.release_pos hm

/-- The threads can take every connection out of the count. -/
theorem Inv.exists_finished (h : s.Inv) {i : Nat} (hi : i < s.conns.length) :
    ∃ s', serverThreads.Reach (· = s) s' ∧ s'.conns[i]? = some ⟨.finished, 1⟩ := by
  -- by induction on the steps of the connection, and between them on those of the holder
  generalize hk : s.toGo i = k
  induction k using Nat.strongRecOn generalizing s with
  | ind k ihk =>
    generalize hj : s.untilFree = j
    induction j using Nat.strongRecOn generalizing s with
    | ind j ihj =>
      have hconn := List.getElem?_eq_getElem hi
      by_cases hfin : s.conns[i].stage = .finished
      · exact ⟨s, .start rfl, h.finished_once hconn hfin⟩
      · obtain ⟨mv, s₁, hs, hlt⟩ := h.exists_step hconn hfin
        have hi₁ := Nat.lt_of_lt_of_le hi (step_length hs)
        have hinv₁ : s₁.Inv := by
          obtain ⟨s₂, hs₂, hinv⟩ := h.step mv
          rw [hs] at hs₂
          cases hs₂
          exact hinv
        obtain ⟨s', hreach, hend⟩ : ∃ s', serverThreads.Reach (· = s₁) s' ∧
            s'.conns[i]? = some ⟨.finished, 1⟩ := by
          rcases hlt with hlt | ⟨hsame, hlt⟩
          · exact ihk _ (hk ▸ hlt) hinv₁ hi₁ rfl
          · exact ihj _ (hj ▸ hlt) hinv₁ hi₁ (hsame.trans hk) rfl
        have hfirst : serverThreads.Reach (· = s) s₁ := .next (.start rfl) trivial hs
        exact ⟨s', hfirst.trans hreach, hend⟩

end ServerThreads

open ServerThreads

/-- **Worker accounting.**  In every interleaving of the accept loop with all its exits,
the workers, and `gui_server_stop`, the connections are accounted for, and no step uses a
lock that was destroyed, destroys one that is held, or reads the snapshot after it was
freed.  From every state the threads can take each connection out of the count, and in a
fair behaviour they do, in whatever order they run. -/
theorem worker_accounting {s : ServerThreads} (h : serverThreads.Reach Initialised s) :
    s.Accounted ∧ (∀ mv, ∃ s', serverThreads.step s mv = .ok (s', ())) ∧
      (∀ i, i < s.conns.length →
        ∃ s', serverThreads.Reach (· = s) s' ∧ s'.conns[i]? = some ⟨.finished, 1⟩) ∧
      ∀ b : serverThreads.Behaviour, b.state 0 = s → b.Fair Move.thread Able →
        ∀ n i, i < (b.state n).conns.length →
          ∀ᶠ m in Filter.atTop, (b.state m).conns[i]? = some ⟨.finished, 1⟩ := by
  have hinv := Inv.of_reach h
  refine ⟨hinv.accounted, fun mv => ?_, fun i hi => hinv.exists_finished hi, ?_⟩
  · obtain ⟨s', hs, -⟩ := hinv.step mv
    exact ⟨s', hs⟩
  · rintro b rfl hfair n i hi
    exact eventually_finished (fun m => Inv.of_reach (b.reach h m)) hfair hi

/-- One connection whose thread cannot be created, and one whose worker reads the snapshot
when the server is stopped. -/
def stopWhileReading : List Move :=
  [.start true, .control .ok] ++ List.replicate 9 (.acceptor .ok) ++ [.acceptor .error] ++
    List.replicate 17 (.acceptor .ok) ++ [.worker 1 true, .stop]

/-- The worker finishes, then the accept loop, then `gui_server_stop`. -/
def windDown : List Move :=
  List.replicate 5 (.worker 1 false) ++ [.acceptor .ok] ++ List.replicate 7 (.control .ok)

def stillReading : ServerThreads where
  activeWorkers := 1
  acceptor := .loop
  conns := [⟨.finished, 1⟩, ⟨.reading, 0⟩]
  control := .join

def woundDown : ServerThreads where
  workerLocks := false
  snapshotLock := false
  latestSnapshot := false
  acceptor := .exited
  conns := [⟨.finished, 1⟩, ⟨.finished, 1⟩]
  control := .stopped

/-- The states of the run, which stays at its end. -/
def windingDown (n : Nat) : ServerThreads :=
  (serverThreads.exec (fun _ _ => true) stillReading (windDown.take n)).getD woundDown

theorem windingDown_late {n : Nat} (hn : 13 ≤ n) : windingDown n = woundDown := by
  unfold windingDown
  rw [List.take_of_length_le (show windDown.length ≤ n from hn)]
  decide

theorem windDown_next (n : Nat) : serverThreads.step (windingDown n)
    (windDown.getD n (.control .ok)) = .ok (windingDown (n + 1), ()) := by
  by_cases hn : n < 13
  · have hearly : ∀ n : Fin 13, serverThreads.step (windingDown n)
        (windDown.getD n (.control .ok)) = .ok (windingDown (n + 1), ()) := by
      decide
    exact hearly ⟨n, hn⟩
  · have hlength : windDown.length ≤ n := Nat.le_of_not_lt hn
    rw [windingDown_late (by omega), windingDown_late (by omega), List.getD_eq_getElem?_getD,
      List.getElem?_eq_none hlength]
    rfl

/-- The run as a behaviour. -/
def windDownBehaviour : serverThreads.Behaviour where
  state := windingDown
  input n := windDown.getD n (.control .ok)
  allowed _ := trivial
  next n := ⟨(), windDown_next n⟩

/-- At its end no thread is able any more. -/
theorem windDown_fair : windDownBehaviour.Fair Move.thread Able := by
  intro t hable
  obtain ⟨n, hn, hable⟩ := Filter.frequently_atTop.mp hable 13
  rw [show windDownBehaviour.state n = woundDown from windingDown_late hn] at hable
  cases t with
  | acceptor => exact hable.elim
  | control => exact hable.elim
  | worker i =>
    have hstage := hable.2
    match i with
    | 0 | 1 => exact hstage.elim
    | i + 2 => exact hstage.elim

theorem worker_accounting_stopped :
    serverThreads.Reach Initialised stillReading ∧ stillReading.Accounted ∧
    (∃ s', serverThreads.Reach (· = stillReading) s' ∧ s'.conns[1]? = some ⟨.finished, 1⟩) ∧
      windDownBehaviour.state 0 = stillReading ∧
      ∀ᶠ m in Filter.atTop, (windDownBehaviour.state m).conns[1]? = some ⟨.finished, 1⟩ := by
  have hrun : serverThreads.exec (fun _ _ => true) {} stopWhileReading = some stillReading := by
    decide
  have hstart : serverThreads.Reach Initialised {} := .start rfl
  obtain ⟨hreach, -⟩ := Runs.Machine.Reach.exec (P := fun _ => True)
    (fun _ _ _ _ _ _ _ => ⟨trivial, trivial⟩) hstart trivial hrun
  obtain ⟨haccounted, -, hway, hfair⟩ := worker_accounting hreach
  exact ⟨hreach, haccounted, hway 1 (by decide), rfl,
    hfair windDownBehaviour rfl windDown_fair 0 1 (by decide)⟩

end MemoryMonitor
