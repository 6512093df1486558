import MemoryMonitor.ServerThreads
import Mathlib.Data.List.Basic

/-! # Every connection is counted and uncounted once

`active_workers` is read and written under `worker_mutex` only, so what a thread has read
is still there when it writes (`Inv.stored`, `Inv.increment`), and the count is that of
the connections that have not been taken out (`Inv.count`).  A connection is taken out by
its worker or by a failure exit, whichever has it, and once.

`gui_server_stop` looks at the count only after the accept loop has ended.  A count of 0
then means that every worker has passed its decrement, and because the mutex was free,
that it has released the mutex too: from there on no worker touches the server.
-/
namespace MemoryMonitor

/-- Inside `worker_mutex`. -/
def Stage.critical : Stage → Bool
  | .leaving .load | .leaving (.store _) | .leaving .unlock => true
  | _ => false

/-- Past the decrement. -/
def Stage.left : Stage → Bool
  | .leaving .unlock | .finished => true
  | _ => false

/-- Inside `worker_mutex`. -/
def Acceptor.critical : Acceptor → Bool
  | .compare | .busy | .increment _ | .unlock _ => true
  | _ => false

/-- The connection that was counted and has no thread yet. -/
def Acceptor.inHand : Acceptor → Option Nat
  | .unlock i | .malloc i | .attrInit i | .setDetachState i | .create i => some i
  | _ => none

/-- Inside `worker_mutex`. -/
def Control.critical : Control → Bool
  | .compare | .unlock => true
  | _ => false

/-- The accept loop was not started. -/
def Control.unstarted : Control → Bool
  | .ready | .create => true
  | _ => false

/-- The accept loop has ended. -/
def Control.joined : Control → Bool
  | .ready | .create | .started | .join => false
  | _ => true

/-- The count was found to be 0. -/
def Control.settled : Control → Bool
  | .destroyMutex | .destroyRwlock | .free | .stopped => true
  | _ => false

theorem Control.joined_of_settled {k : Control} (h : k.settled = true) : k.joined = true := by
  revert h
  cases k <;> simp [Control.settled, Control.joined]

/-- A connection that was counted and not taken out of the count. -/
def Conn.counted (c : Conn) : Bool := c.decrements = 0

/-! ## Lists of connections -/

section Modify
variable {α : Type} {p : α → Bool} {f : α → α}

theorem countP_modify (h : ∀ a, p (f a) = p a) (l : List α) (i : Nat) :
    (l.modify i f).countP p = l.countP p := by
  induction l generalizing i with
  | nil => simp
  | cons a l ih =>
    cases i with
    | zero => simp [List.countP_cons, h]
    | succ i => simp [List.countP_cons, ih]

theorem countP_modify_of_drop {l : List α} {i : Nat} {a : α} (hi : l[i]? = some a)
    (ha : p a = true) (hfa : p (f a) = false) : (l.modify i f).countP p + 1 = l.countP p := by
  induction l generalizing i with
  | nil => simp at hi
  | cons b l ih =>
    cases i with
    | zero =>
      obtain rfl : b = a := by simpa using hi
      simp [ha, hfa]
    | succ i =>
      have := ih (i := i) (by simpa using hi)
      simp only [List.modify_succ_cons, List.countP_cons]
      omega

theorem getElem?_modify_eq_some {l : List α} {i j : Nat} {b : α} :
    (l.modify i f)[j]? = some b ↔ ∃ a, l[j]? = some a ∧ b = if i = j then f a else a := by
  rw [List.getElem?_modify]
  cases l[j]? with
  | none => simp
  | some a =>
    simp only [Option.some.injEq]
    split <;> simp [eq_comm]

end Modify

namespace ServerThreads

/-- **The invariant.** -/
structure Inv (s : ServerThreads) : Prop where
  ownerAcceptor : s.mutex = some .acceptor ↔ s.acceptor.critical = true
  ownerConn : ∀ i : Nat, s.mutex = some (.conn i) ↔ ∃ c, s.conns[i]? = some c ∧ c.stage.critical = true
  ownerControl : s.mutex = some .control ↔ s.control.critical = true
  count : s.activeWorkers = s.conns.countP Conn.counted
  bound : s.activeWorkers ≤ maxClientWorkers
  once : ∀ (i : Nat) (c : Conn), s.conns[i]? = some c → c.decrements = if c.stage.left then 1 else 0
  stored : ∀ (i : Nat) (c : Conn) v, s.conns[i]? = some c → c.stage = .leaving (.store v) → v = s.activeWorkers
  increment : ∀ v, s.acceptor = .increment v → v = s.activeWorkers ∧ v < maxClientWorkers
  hand : ∀ i : Nat, s.acceptor.inHand = some i ↔ ∃ c, s.conns[i]? = some c ∧ c.stage = .inHand
  undoing : ∀ (i : Nat) created, s.acceptor = .undo i created →
    ∃ c, s.conns[i]? = some c ∧ (c.stage = .finished ∨ ∃ l, c.stage = .leaving l)
  running : s.isRunning = true ↔ s.control = .create ∨ s.control = .started
  unstarted : s.control.unstarted = true → s.acceptor = .absent ∧ s.conns = []
  joined : s.control.joined = true → s.acceptor = .absent ∨ s.acceptor = .exited
  zero : s.control = .unlock → s.activeWorkers = 0
  settled : s.control.settled = true →
    ∀ (i : Nat) (c : Conn), s.conns[i]? = some c → c.stage = .finished
  workerLocks : s.workerLocks = false → s.control.settled = true
  snapshotLock : s.snapshotLock = false → s.control.settled = true
  latestSnapshot : s.latestSnapshot = false → s.control.settled = true

theorem Inv.init : Inv ({} : ServerThreads) := by
  constructor <;> simp [Acceptor.critical, Control.critical, Acceptor.inHand, Control.settled,
    Control.joined]
  decide

variable {s s' : ServerThreads}


theorem getElem?_setStage {i j : Nat} {c' : Conn} {st : Stage} :
    (s.setStage i st).conns[j]? = some c' ↔
      ∃ c, s.conns[j]? = some c ∧ c' = if i = j then ⟨st, c.decrements⟩ else c :=
  getElem?_modify_eq_some

@[simp, grind =] theorem setStage_activeWorkers {i : Nat} {st : Stage} :
    (s.setStage i st).activeWorkers = s.activeWorkers := rfl

@[simp, grind =] theorem setStage_control {i : Nat} {st : Stage} :
    (s.setStage i st).control = s.control := rfl

/-- What a step may do to the mutex when it moves connection `i` to another stage. -/
def MutexMoves (s : ServerThreads) (i : Nat) (old new : Stage) (m : Option Holder) : Prop :=
  m = s.mutex ∧ new.critical = old.critical ∨
    s.mutex = none ∧ m = some (.conn i) ∧ new.critical = true ∨
    s.mutex = some (.conn i) ∧ m = none ∧ new.critical = false

/-- What it may do to the accept loop. -/
def AcceptorMoves (s : ServerThreads) (i : Nat) (old new : Stage) (a : Acceptor) : Prop :=
  a = s.acceptor ∧ old ≠ .inHand ∧ new ≠ .inHand ∧
      (s.Undoing i → new = .finished ∨ ∃ l, new = .leaving l) ∨
    s.acceptor.inHand = some i ∧ s.acceptor.critical = false ∧
      (a = .attrDestroy ∧ new = .serving ∨ ∃ created, a = .undo i created ∧ new = .leaving .lock)

/-- A step that moves a connection and does not take it out of the count. -/
theorem Inv.restage (h : s.Inv) {i : Nat} {c : Conn} (hi : s.conns[i]? = some c)
    (hset : s.control.settled = false) {t : Stage} {m : Option Holder} {a : Acceptor}
    (hleft : t.left = c.stage.left)
    (hstore : ∀ v, t = .leaving (.store v) → v = s.activeWorkers)
    (hm : s.MutexMoves i c.stage t m) (ha : s.AcceptorMoves i c.stage t a) :
    Inv { s.setStage i t with mutex := m, acceptor := a } := by
  have hstart : s.control.unstarted = false := by
    by_contra hu
    rw [(h.unstarted (by simpa using hu)).2] at hi
    cases hi
  refine { h with
    ownerAcceptor := ?_, ownerConn := ?_, ownerControl := ?_, count := ?_, once := ?_, stored := ?_,
    increment := ?_, hand := ?_, undoing := ?_, unstarted := ?_, joined := ?_, settled := ?_ }
  · have := h.ownerAcceptor
    have := h.ownerConn i
    grind [MutexMoves, AcceptorMoves, Acceptor.critical]
  · intro j
    have := h.ownerConn j
    have := h.ownerConn i
    simp only [getElem?_setStage]
    grind [MutexMoves]
  · have := h.ownerControl
    grind [MutexMoves]
  · show s.activeWorkers = ((s.conns.modify i _).countP Conn.counted : Int)
    rw [countP_modify]
    · exact h.count
    · exact fun _ => rfl
  · intro j c'
    simp only [getElem?_setStage]
    have := h.once j
    grind
  · intro j c' v
    simp only [getElem?_setStage]
    have := h.stored j
    grind
  · have := h.increment
    grind [AcceptorMoves]
  · intro j
    have := h.hand j
    simp only [getElem?_setStage]
    grind [AcceptorMoves, Acceptor.inHand]
  · intro j b
    have := h.undoing j b
    simp only [getElem?_setStage]
    cases b <;> grind [AcceptorMoves, Undoing]
  · intro hu
    exact absurd hu (by simp [hstart])
  · have := h.joined
    grind [AcceptorMoves, Acceptor.inHand]
  · intro hs
    exact absurd hs (by simp [hset])

/-- **The decrement.** -/
theorem Inv.decrement (h : s.Inv) {i : Nat} {c : Conn} {v : Int} (hi : s.conns[i]? = some c)
    (hc : c.stage = .leaving (.store v)) :
    Inv { s with
      activeWorkers := v - 1
      conns := s.conns.modify i fun c => ⟨.leaving .unlock, c.decrements + 1⟩ } := by
  have hv := h.stored i c v hi hc
  have hzero : c.decrements = 0 := by simpa [hc, Stage.left] using h.once i c hi
  have howner : s.mutex = some (.conn i) := (h.ownerConn i).mpr ⟨c, hi, by simp [hc, Stage.critical]⟩
  have hcount := countP_modify_of_drop (p := Conn.counted)
    (f := fun c => (⟨.leaving .unlock, c.decrements + 1⟩ : Conn)) hi (by simp [Conn.counted, hzero])
    (by simp [Conn.counted])
  refine { h with
    ownerConn := ?_, count := ?_, bound := ?_, once := ?_, stored := ?_, increment := ?_, hand := ?_,
    undoing := ?_, unstarted := ?_, zero := ?_, settled := ?_ }
  · intro j
    have := h.ownerConn j
    simp only [getElem?_modify_eq_some]
    grind [Stage.critical]
  · have := h.count
    simp only
    omega
  · have := h.bound
    simp only
    omega
  · intro j c'
    simp only [getElem?_modify_eq_some]
    have := h.once j
    grind [Stage.left]
  · -- a second reader of the count would be inside the mutex
    intro j c' w hj hw
    obtain ⟨d, hd, rfl⟩ := getElem?_modify_eq_some.mp hj
    have := (h.ownerConn j).mpr ⟨d, hd, by grind [Stage.critical]⟩
    grind
  · intro w hw
    have := h.ownerAcceptor.mpr (by rw [show s.acceptor = .increment w from hw]; rfl)
    simp [howner] at this
  · intro j
    have := h.hand j
    simp only [getElem?_modify_eq_some]
    grind
  · intro j b
    have := h.undoing j b
    simp only [getElem?_modify_eq_some]
    grind
  · intro hu
    rw [(h.unstarted hu).2] at hi
    cases hi
  · intro hu
    have := h.ownerControl.mpr (by rw [show s.control = .unlock from hu]; rfl)
    simp [howner] at this
  · intro hs
    have := h.settled hs i c hi
    simp [hc] at this

/-- A connection on its way is not settled. -/
theorem Inv.not_settled (h : s.Inv) {i : Nat} {c : Conn} (hi : s.conns[i]? = some c)
    (hc : c.stage ≠ .finished) : s.control.settled = false := by
  cases hset : s.control.settled with
  | false => rfl
  | true => exact absurd (h.settled hset i c hi) hc

theorem Inv.locks (h : s.Inv) (hset : s.control.settled = false) : s.workerLocks ≠ false := by
  intro hlocks
  rw [h.workerLocks hlocks] at hset
  cases hset

/-- Taking a connection out of the count keeps the invariant and does not fault. -/
theorem Inv.leave (h : s.Inv) {i : Nat} {l : Leave} {c : Conn} (hi : s.conns[i]? = some c)
    (hl : c.stage = .leaving l) : ∃ s', s.leave i l = .ok s' ∧ s'.Inv := by
  have hset : s.control.settled = false := h.not_settled hi (by simp [hl])
  have hstay : ∀ {st : Stage}, st = .finished ∨ (∃ l, st = .leaving l) →
      s.AcceptorMoves i c.stage st s.acceptor := by
    intro st hst
    refine Or.inl ⟨rfl, by simp [hl], ?_, fun _ => hst⟩
    rcases hst with rfl | ⟨l, rfl⟩ <;> simp
  cases l with
  | lock =>
    unfold ServerThreads.leave lock
    simp only
    rw [if_neg (h.locks hset)]
    split
    · rename_i hm
      refine ⟨_, rfl, h.restage hi hset (t := .leaving .load) (by simp [hl, Stage.left]) (by simp)
        (Or.inr (Or.inl ⟨hm, rfl, rfl⟩)) (hstay (by simp))⟩
    · exact ⟨s, rfl, h⟩
  | load =>
    exact ⟨_, rfl, h.restage hi hset (t := .leaving (.store s.activeWorkers))
      (by simp [hl, Stage.left]) (by simp) (Or.inl ⟨rfl, by simp [hl, Stage.critical]⟩)
      (hstay (by simp))⟩
  | store v => exact ⟨_, rfl, h.decrement hi hl⟩
  | unlock =>
    have howner : s.mutex = some (.conn i) :=
      (h.ownerConn i).mpr ⟨c, hi, by simp [hl, Stage.critical]⟩
    unfold ServerThreads.leave
    simp only
    rw [if_neg (h.locks hset)]
    exact ⟨_, rfl, h.restage hi hset (t := .finished) (by simp [hl, Stage.left]) (by simp)
      (Or.inr (Or.inr ⟨howner, rfl, rfl⟩)) (hstay (by simp))⟩

/-- A step of a worker keeps the invariant and does not fault. -/
theorem Inv.workerStep (h : s.Inv) (i : Nat) (metrics : Bool) :
    ∃ s', s.workerStep i metrics = .ok s' ∧ s'.Inv := by
  unfold ServerThreads.workerStep
  split
  · exact ⟨s, rfl, h⟩
  · rename_i hundo
    cases hi : s.conns[i]? with
    | none => exact ⟨s, rfl, h⟩
    | some c =>
      have hstay : ∀ {st : Stage}, c.stage ≠ .inHand → st ≠ .inHand →
          s.AcceptorMoves i c.stage st s.acceptor :=
        fun hc hst => Or.inl ⟨rfl, hc, hst, fun hu => absurd hu hundo⟩
      cases hc : c.stage with
      | inHand => exact ⟨s, by simp [hc], h⟩
      | finished => exact ⟨s, by simp [hc], h⟩
      | leaving l => simpa [hc] using h.leave hi hc
      | serving =>
        have hset := h.not_settled hi (by simp [hc])
        have hto : ∀ st : Stage, st = .reading ∨ st = .leaving .lock → (s.setStage i st).Inv := by
          intro st hst
          refine h.restage hi hset (m := s.mutex) ?_ ?_ (Or.inl ⟨rfl, ?_⟩) (hstay (by simp [hc]) ?_)
          all_goals rcases hst with rfl | rfl <;> simp [hc, Stage.left, Stage.critical]
        have hlock : s.snapshotLock ≠ false := fun hl => by simp [h.snapshotLock hl] at hset
        cases metrics with
        | false => exact ⟨_, by simp [hc], hto (.leaving .lock) (by simp)⟩
        | true => exact ⟨_, by simp [hc, hlock], hto .reading (by simp)⟩
      | reading =>
        have hset := h.not_settled hi (by simp [hc])
        have hsnap : s.latestSnapshot ≠ false := fun hl => by simp [h.latestSnapshot hl] at hset
        have hto : (s.setStage i (.leaving .lock)).Inv := by
          refine h.restage hi hset (m := s.mutex) ?_ ?_ (Or.inl ⟨rfl, ?_⟩)
            (hstay (by simp [hc]) (by simp))
          all_goals simp [hc, Stage.left, Stage.critical]
        exact ⟨_, by simp [hc, hsnap], hto⟩

/-! ## The accept loop -/

/-- The accept loop is running. -/
def Acceptor.Active (a : Acceptor) : Prop := a ≠ .absent ∧ a ≠ .exited

/-- A step of the accept loop that keeps to itself, but for the mutex. -/
theorem Inv.goto (h : s.Inv) (hactive : Acceptor.Active s.acceptor) {a : Acceptor}
    {m : Option Holder}
    (hm : m = s.mutex ∧ a.critical = s.acceptor.critical ∨
      s.mutex = none ∧ m = some .acceptor ∧ a.critical = true ∨
      s.mutex = some .acceptor ∧ m = none ∧ a.critical = false)
    (hhand : a.inHand = s.acceptor.inHand)
    (hinc : ∀ v, a = .increment v → v = s.activeWorkers ∧ v < maxClientWorkers)
    (hundo : ∀ i created, a ≠ .undo i created) : Inv { s with mutex := m, acceptor := a } := by
  refine { h with
    ownerAcceptor := ?_, ownerConn := ?_, ownerControl := ?_, increment := hinc, hand := ?_,
    undoing := ?_, unstarted := ?_, joined := ?_ }
  · have := h.ownerAcceptor
    grind
  · intro i
    have := h.ownerConn i
    grind
  · have := h.ownerControl
    grind
  · intro i
    show a.inHand = some i ↔ _
    rw [hhand]
    exact h.hand i
  · intro i created ha
    exact absurd ha (hundo i created)
  · intro hu
    exact absurd (h.unstarted hu).1 hactive.1
  · intro hj
    rcases h.joined hj with ha | ha
    · exact absurd ha hactive.1
    · exact absurd ha hactive.2

/-- The accept loop counts a connection. -/
theorem Inv.countUp (h : s.Inv) {v : Int} (ha : s.acceptor = .increment v) :
    Inv { s with
      activeWorkers := v + 1
      conns := s.conns ++ [⟨.inHand, 0⟩]
      acceptor := .unlock s.conns.length } := by
  obtain ⟨hv, hlt⟩ := h.increment v ha
  have howner : s.mutex = some .acceptor := h.ownerAcceptor.mpr (by rw [ha]; rfl)
  have hconn : ∀ (j : Nat) c, (s.conns ++ [(⟨.inHand, 0⟩ : Conn)])[j]? = some c ↔
      s.conns[j]? = some c ∨ j = s.conns.length ∧ c = ⟨.inHand, 0⟩ := by
    intro j c
    grind
  refine { h with
    ownerAcceptor := ?_, ownerConn := ?_, count := ?_, bound := ?_, once := ?_, stored := ?_,
    increment := ?_, hand := ?_, undoing := ?_, unstarted := ?_, joined := ?_, zero := ?_,
    settled := ?_ }
  · simp [howner, Acceptor.critical]
  · intro j
    have := h.ownerConn j
    simp only [hconn]
    grind [Stage.critical]
  · have := h.count
    show v + 1 = ((s.conns ++ [(⟨.inHand, 0⟩ : Conn)]).countP Conn.counted : Int)
    rw [List.countP_append, show [(⟨.inHand, 0⟩ : Conn)].countP Conn.counted = 1 from rfl]
    omega
  · simp only
    omega
  · intro j c
    simp only [hconn]
    have := h.once j
    grind [Stage.left]
  · intro j c w hj hw
    have := (h.ownerConn j).mpr ⟨c, by grind, by grind [Stage.critical]⟩
    simp [howner] at this
  · simp
  · intro j
    have := h.hand j
    simp only [hconn]
    grind [Acceptor.inHand]
  · simp
  · intro hu
    simp [(h.unstarted hu).1] at ha
  · intro hj
    rcases h.joined hj with ha' | ha' <;> simp [ha'] at ha
  · intro hu
    have := h.ownerControl.mpr (by rw [show s.control = .unlock from hu]; rfl)
    simp [howner] at this
  · intro hs
    rcases h.joined (Control.joined_of_settled hs) with ha' | ha' <;> simp [ha'] at ha

/-- A call about a connection in hand, on its way to the thread or to the failure exit. -/
theorem Inv.orUndo (h : s.Inv) {a : Answer} {i : Nat} {next : Acceptor} {created : Bool}
    (hhand : s.acceptor.inHand = some i) (hcrit : s.acceptor.critical = false)
    (hactive : Acceptor.Active s.acceptor)
    (hnext : a = .ok → next.inHand = some i ∧ next.critical = false) :
    (s.orUndo a i next created).Inv := by
  unfold ServerThreads.orUndo
  split
  · rename_i hok
    obtain ⟨hni, hnc⟩ := hnext hok
    refine h.goto hactive (Or.inl ⟨rfl, by rw [hnc, hcrit]⟩) (by rw [hni, hhand]) ?_ ?_
    · rintro v rfl
      cases hni
    · rintro j c rfl
      cases hni
  · obtain ⟨c, hi, hc⟩ := (h.hand i).mp hhand
    refine h.restage hi (h.not_settled hi (by simp [hc])) (m := s.mutex) ?_ ?_ (Or.inl ⟨rfl, ?_⟩)
      (Or.inr ⟨hhand, hcrit, Or.inr ⟨created, rfl, rfl⟩⟩)
    all_goals simp [hc, Stage.left, Stage.critical]

/-- A step of the accept loop keeps the invariant and does not fault. -/
theorem Inv.acceptorStep (h : s.Inv) (a : Answer) :
    ∃ s', s.acceptorStep a = .ok s' ∧ s'.Inv := by
  -- most steps only lead on to the next line
  have hgoto : Acceptor.Active s.acceptor → ∀ b : Acceptor, b.critical = s.acceptor.critical →
      b.inHand = s.acceptor.inHand → (∀ v, b ≠ .increment v) → (∀ i c, b ≠ .undo i c) →
      Inv { s with acceptor := b } := fun hactive b hcrit hhand hinc hundo =>
    h.goto hactive (Or.inl ⟨rfl, hcrit⟩) hhand (fun v hv => absurd hv (hinc v)) hundo
  unfold ServerThreads.acceptorStep
  cases ha : s.acceptor with
  | absent => exact ⟨s, rfl, h⟩
  | exited => exact ⟨s, rfl, h⟩
  | loop =>
    refine ⟨_, rfl, hgoto (by simp [ha, Acceptor.Active]) _ ?_ ?_ ?_ ?_⟩
    all_goals split <;> simp [ha, Acceptor.critical, Acceptor.inHand]
  | accept =>
    have hto : ∀ b : Acceptor, b = .lock ∨ b = .loop ∨ b = .acceptFailed →
        Inv { s with acceptor := b } := by
      intro b hb
      refine hgoto (by simp [ha, Acceptor.Active]) b ?_ ?_ ?_ ?_
      all_goals rcases hb with rfl | rfl | rfl <;> simp [ha, Acceptor.critical, Acceptor.inHand]
    cases a with
    | ok => exact ⟨_, rfl, hto .lock (by simp)⟩
    | again => exact ⟨_, rfl, hto .loop (by simp)⟩
    | error => exact ⟨_, rfl, hto .acceptFailed (by simp)⟩
  | acceptFailed =>
    refine ⟨_, rfl, hgoto (by simp [ha, Acceptor.Active]) _ ?_ ?_ ?_ ?_⟩
    all_goals split <;> simp [ha, Acceptor.critical, Acceptor.inHand]
  | lock =>
    have hset : s.control.settled = false := by
      by_contra hset
      have hjoined := Control.joined_of_settled (by simpa using hset)
      rcases h.joined hjoined with ha' | ha' <;> simp [ha'] at ha
    unfold ServerThreads.lock
    simp only
    rw [if_neg (h.locks hset)]
    split
    · rename_i hm
      refine ⟨_, rfl, h.goto (by simp [ha, Acceptor.Active]) (Or.inr (Or.inl ⟨hm, rfl, rfl⟩)) ?_ ?_ ?_⟩
      all_goals simp [ha, Acceptor.inHand]
    · exact ⟨s, rfl, h⟩
  | compare =>
    simp only
    split
    · refine ⟨_, rfl, hgoto (by simp [ha, Acceptor.Active]) _ ?_ ?_ ?_ ?_⟩
      all_goals simp [ha, Acceptor.critical, Acceptor.inHand]
    · rename_i hlt
      refine ⟨_, rfl, h.goto (m := s.mutex) (by simp [ha, Acceptor.Active]) (Or.inl ⟨rfl, ?_⟩) ?_ ?_ ?_⟩
      · simp [ha, Acceptor.critical]
      · simp [ha, Acceptor.inHand]
      · rintro v hv
        cases hv
        exact ⟨rfl, by omega⟩
      · simp
  | busy =>
    have howner : s.mutex = some .acceptor := h.ownerAcceptor.mpr (by rw [ha]; rfl)
    refine ⟨_, rfl, h.goto (by simp [ha, Acceptor.Active])
      (Or.inr (Or.inr ⟨howner, rfl, rfl⟩)) ?_ ?_ ?_⟩
    all_goals simp [ha, Acceptor.inHand]
  | reject =>
    refine ⟨_, rfl, hgoto (by simp [ha, Acceptor.Active]) _ ?_ ?_ ?_ ?_⟩
    all_goals simp [ha, Acceptor.critical, Acceptor.inHand]
  | increment v => exact ⟨_, rfl, h.countUp ha⟩
  | unlock i =>
    have howner : s.mutex = some .acceptor := h.ownerAcceptor.mpr (by rw [ha]; rfl)
    refine ⟨_, rfl, h.goto (by simp [ha, Acceptor.Active])
      (Or.inr (Or.inr ⟨howner, rfl, rfl⟩)) ?_ ?_ ?_⟩
    all_goals simp [ha, Acceptor.inHand]
  | malloc i =>
    refine ⟨_, rfl, h.orUndo ?_ ?_ ?_ fun _ => ⟨rfl, rfl⟩⟩
    all_goals simp [ha, Acceptor.critical, Acceptor.inHand, Acceptor.Active]
  | attrInit i =>
    refine ⟨_, rfl, h.orUndo ?_ ?_ ?_ fun _ => ⟨rfl, rfl⟩⟩
    all_goals simp [ha, Acceptor.critical, Acceptor.inHand, Acceptor.Active]
  | setDetachState i =>
    refine ⟨_, rfl, h.orUndo ?_ ?_ ?_ fun _ => ⟨rfl, rfl⟩⟩
    all_goals simp [ha, Acceptor.critical, Acceptor.inHand, Acceptor.Active]
  | create i =>
    have hhand : s.acceptor.inHand = some i := by rw [ha]; rfl
    have hcrit : s.acceptor.critical = false := by rw [ha]; rfl
    simp only
    split
    · obtain ⟨c, hi, hc⟩ := (h.hand i).mp hhand
      refine ⟨_, rfl, h.restage hi (h.not_settled hi (by simp [hc])) (m := s.mutex) ?_ ?_
        (Or.inl ⟨rfl, ?_⟩) (Or.inr ⟨hhand, hcrit, Or.inl ⟨rfl, rfl⟩⟩)⟩
      all_goals simp [hc, Stage.left, Stage.critical]
    · rename_i hfail
      exact ⟨_, rfl, h.orUndo hhand hcrit (by simp [ha, Acceptor.Active]) fun hok => absurd hok hfail⟩
  | undo i created =>
    obtain ⟨c, hi, hc⟩ := h.undoing i created ha
    rcases hc with hc | ⟨l, hc⟩
    · refine ⟨_, by simp [hi, hc], hgoto (by simp [ha, Acceptor.Active])
        (if created then .attrDestroy else .loop) ?_ ?_ ?_ ?_⟩
      all_goals split <;> simp [ha, Acceptor.critical, Acceptor.inHand]
    · simpa [hi, hc] using h.leave hi hc
  | attrDestroy =>
    refine ⟨_, rfl, hgoto (by simp [ha, Acceptor.Active]) _ ?_ ?_ ?_ ?_⟩
    all_goals simp [ha, Acceptor.critical, Acceptor.inHand]

/-! ## Starting and stopping -/

/-- Once the count was found to be 0 and the mutex is released, every worker is done. -/
theorem Inv.all_finished (h : s.Inv) (hzero : s.activeWorkers = 0)
    (howner : s.mutex = some .control) :
    ∀ (i : Nat) (c : Conn), s.conns[i]? = some c → c.stage = .finished := by
  intro i c hi
  have hcounted : s.conns.countP Conn.counted = 0 := by
    have := h.count
    omega
  have hdec : c.decrements ≠ 0 := by
    simpa [Conn.counted] using List.countP_eq_zero.mp hcounted c (List.mem_of_getElem? hi)
  have hleft : c.stage.left = true := by
    by_contra hl
    exact hdec (by simpa [hl] using h.once i c hi)
  have hcrit : c.stage.critical = false := by
    by_contra hc
    have := (h.ownerConn i).mpr ⟨c, hi, by simpa using hc⟩
    simp [howner] at this
  revert hleft hcrit
  cases c.stage with
  | leaving l => cases l <;> simp [Stage.left, Stage.critical]
  | _ => simp [Stage.left]

/-- A step of `gui_server_start` or `gui_server_stop` that keeps to itself, but for the
flag and the mutex. -/
theorem Inv.steer (h : s.Inv) {r : Bool} {k : Control} {m : Option Holder}
    (hm : m = s.mutex ∧ k.critical = s.control.critical ∨
      s.mutex = none ∧ m = some .control ∧ k.critical = true ∨
      s.mutex = some .control ∧ m = none ∧ k.critical = false)
    (hrun : r = true ↔ k = .create ∨ k = .started)
    (hun : k.unstarted = true → s.acceptor = .absent ∧ s.conns = [])
    (hjoin : k.joined = true → s.acceptor = .absent ∨ s.acceptor = .exited)
    (hzero : k = .unlock → s.activeWorkers = 0)
    (hset : k.settled = true →
      ∀ (i : Nat) (c : Conn), s.conns[i]? = some c → c.stage = .finished)
    (hkeep : s.control.settled = true → k.settled = true) :
    Inv { s with isRunning := r, mutex := m, control := k } := by
  refine { h with
    ownerAcceptor := ?_, ownerConn := ?_, ownerControl := ?_, running := hrun, unstarted := hun,
    joined := hjoin, zero := hzero, settled := hset, workerLocks := ?_, snapshotLock := ?_,
    latestSnapshot := ?_ }
  · have := h.ownerAcceptor
    grind
  · intro i
    have := h.ownerConn i
    grind
  · have := h.ownerControl
    grind
  · exact fun hl => hkeep (h.workerLocks hl)
  · exact fun hl => hkeep (h.snapshotLock hl)
  · exact fun hl => hkeep (h.latestSnapshot hl)

/-- `gui_server_stop` takes the mutex. -/
theorem Inv.controlLock (h : s.Inv) (hc : s.control = .lock ∨ s.control = .wait) :
    ∃ s', (s.lock .control fun s => { s with control := .compare }) = .ok s' ∧ s'.Inv := by
  have hset : s.control.settled = false := by rcases hc with hc | hc <;> rw [hc] <;> rfl
  have hjoin := h.joined (by rcases hc with hc | hc <;> rw [hc] <;> rfl)
  have hrun := h.running
  unfold ServerThreads.lock
  rw [if_neg (h.locks hset)]
  split
  · rename_i hm
    refine ⟨_, rfl, h.steer (Or.inr (Or.inl ⟨hm, rfl, rfl⟩)) ?_ ?_ (fun _ => hjoin) ?_ ?_ ?_⟩
    · rcases hc with hc | hc <;> simpa [hc] using hrun
    all_goals rcases hc with hc | hc <;> simp [hc, Control.unstarted, Control.settled]
  · exact ⟨s, rfl, h⟩

/-- The last lines of `gui_server_stop`. -/
theorem Inv.windUp (h : s.Inv) (hset : s.control.settled = true) {k : Control}
    (hk : k.settled = true) : Inv { s with control := k } := by
  have hplain : ∀ k : Control, k.settled = true → k.critical = false ∧ k.unstarted = false ∧
      k ≠ .create ∧ k ≠ .started ∧ k ≠ .unlock ∧ k.joined = true := by
    intro k
    cases k <;> simp [Control.settled, Control.critical, Control.unstarted, Control.joined]
  obtain ⟨hcrit, -, hcreate, hstarted, -, hjoined⟩ := hplain s.control hset
  obtain ⟨hcrit', hun', hcreate', hstarted', hunlock', -⟩ := hplain k hk
  have hrun := h.running
  refine h.steer (m := s.mutex) (Or.inl ⟨rfl, hcrit'.trans hcrit.symm⟩) ?_ ?_
    (fun _ => h.joined hjoined) ?_ (fun _ => h.settled hset) fun _ => hk
  · simpa [hcreate, hstarted, hcreate', hstarted'] using hrun
  · simp [hun']
  · simp [hunlock']

/-- Nobody is left who could hold the mutex. -/
theorem Inv.mutex_free (h : s.Inv) (hset : s.control.settled = true) : s.mutex = none := by
  cases hm : s.mutex with
  | none => rfl
  | some who =>
    cases who with
    | acceptor =>
      have hcrit := h.ownerAcceptor.mp hm
      rcases h.joined (Control.joined_of_settled hset) with ha | ha <;>
        simp [ha, Acceptor.critical] at hcrit
    | conn i =>
      obtain ⟨c, hi, hcrit⟩ := (h.ownerConn i).mp hm
      simp [h.settled hset i c hi, Stage.critical] at hcrit
    | control =>
      have hcrit := h.ownerControl.mp hm
      revert hset hcrit
      cases s.control <;> simp [Control.settled, Control.critical]

/-- A step of `gui_server_start` or `gui_server_stop` keeps the invariant and does not
fault. -/
theorem Inv.controlStep (h : s.Inv) (a : Answer) :
    ∃ s', s.controlStep a = .ok s' ∧ s'.Inv := by
  have hrun := h.running
  unfold ServerThreads.controlStep
  cases hc : s.control with
  | ready => exact ⟨s, rfl, h⟩
  | started => exact ⟨s, rfl, h⟩
  | stopped => exact ⟨s, rfl, h⟩
  | create =>
    obtain ⟨ha, hnil⟩ := h.unstarted (by rw [hc]; rfl)
    simp only
    split
    · have hnext := h.steer (m := s.mutex) (k := .started) (Or.inl ⟨rfl, by simp [hc, Control.critical]⟩)
        (by simpa [hc] using hrun) (fun _ => ⟨ha, hnil⟩) (fun _ => Or.inl ha) (by simp)
        (by simp [Control.settled]) (by simp [hc, Control.settled])
      refine ⟨_, rfl, { hnext with
        ownerAcceptor := ?_, increment := ?_, hand := ?_, undoing := ?_, unstarted := ?_,
        joined := ?_ }⟩
      · simpa [ha, Acceptor.critical] using h.ownerAcceptor
      · simp
      · simp [hnil, Acceptor.inHand]
      · simp
      · simp [Control.unstarted]
      · simp [Control.joined]
    · refine ⟨_, rfl, h.steer (m := s.mutex) (Or.inl ⟨rfl, ?_⟩) ?_ (fun _ => ⟨ha, hnil⟩) ?_ ?_ ?_ ?_⟩
      all_goals simp [hc, Control.critical, Control.joined, Control.settled]
  | join =>
    simp only
    split
    · rename_i ha
      refine ⟨_, rfl, h.steer (m := s.mutex) (Or.inl ⟨rfl, ?_⟩) ?_ ?_ (fun _ => Or.inr ha) ?_ ?_ ?_⟩
      · simp [hc, Control.critical]
      · simpa [hc] using hrun
      all_goals simp [hc, Control.unstarted, Control.settled]
    · exact ⟨s, rfl, h⟩
  | lock => exact h.controlLock (Or.inl hc)
  | wait => exact h.controlLock (Or.inr hc)
  | compare =>
    have howner : s.mutex = some .control := h.ownerControl.mpr (by rw [hc]; rfl)
    have hjoin := h.joined (by rw [hc]; rfl)
    simp only
    split
    · refine ⟨_, rfl, h.steer (Or.inr (Or.inr ⟨howner, rfl, rfl⟩)) ?_ ?_ (fun _ => hjoin) ?_ ?_ ?_⟩
      · simpa [hc] using hrun
      all_goals simp [hc, Control.unstarted, Control.settled]
    · rename_i hle
      refine ⟨_, rfl, h.steer (m := s.mutex) (Or.inl ⟨rfl, ?_⟩) ?_ ?_ (fun _ => hjoin) ?_ ?_ ?_⟩
      · simp [hc, Control.critical]
      · simpa [hc] using hrun
      · simp [Control.unstarted]
      · intro _
        have := h.count
        omega
      all_goals simp [hc, Control.settled]
  | unlock =>
    have howner : s.mutex = some .control := h.ownerControl.mpr (by rw [hc]; rfl)
    have hjoin := h.joined (by rw [hc]; rfl)
    refine ⟨_, rfl, h.steer (Or.inr (Or.inr ⟨howner, rfl, rfl⟩)) ?_ ?_ (fun _ => hjoin) ?_
      (fun _ => h.all_finished (h.zero hc) howner) ?_⟩
    · simpa [hc] using hrun
    all_goals simp [hc, Control.unstarted, Control.settled]
  | destroyMutex =>
    have hfree := h.mutex_free (by rw [hc]; rfl)
    have hnext := h.windUp (by rw [hc]; rfl) (k := .destroyRwlock) rfl
    simp only
    rw [if_neg (not_not.mpr hfree)]
    exact ⟨_, rfl, { hnext with workerLocks := fun _ => rfl }⟩
  | destroyRwlock =>
    have hfin := h.settled (by rw [hc]; rfl)
    have hnobody : ¬ s.conns.any (fun c => c.stage = .reading) = true := by
      rw [List.any_eq_true]
      rintro ⟨c, hmem, hread⟩
      obtain ⟨i, hi⟩ := List.getElem?_of_mem hmem
      simp [hfin i c hi] at hread
    have hnext := h.windUp (by rw [hc]; rfl) (k := .free) rfl
    simp only
    rw [if_neg hnobody]
    exact ⟨_, rfl, { hnext with snapshotLock := fun _ => rfl }⟩
  | free =>
    have hnext := h.windUp (by rw [hc]; rfl) (k := .stopped) rfl
    exact ⟨_, rfl, { hnext with latestSnapshot := fun _ => rfl }⟩

theorem Inv.startStep (h : s.Inv) (listening : Bool) : (s.startStep listening).Inv := by
  unfold ServerThreads.startStep
  split
  · rename_i hc
    obtain ⟨hc, -⟩ := hc
    obtain ⟨ha, hnil⟩ := h.unstarted (by rw [hc]; rfl)
    refine h.steer (m := s.mutex) (Or.inl ⟨rfl, ?_⟩) ?_ (fun _ => ⟨ha, hnil⟩) ?_ ?_ ?_ ?_
    all_goals simp [hc, Control.critical, Control.joined, Control.settled]
  · exact h

theorem Inv.stopStep (h : s.Inv) : s.stopStep.Inv := by
  have hrun := h.running
  unfold ServerThreads.stopStep
  cases hc : s.control with
  | ready =>
    obtain ⟨ha, hnil⟩ := h.unstarted (by rw [hc]; rfl)
    have hoff : s.isRunning = false := by simpa [hc] using hrun
    simp only
    rw [if_neg (by simp [hoff])]
    refine h.steer (m := s.mutex) (Or.inl ⟨rfl, ?_⟩) ?_ ?_ (fun _ => Or.inl ha) ?_ ?_ ?_
    · simp [hc, Control.critical]
    · simp [hoff]
    all_goals simp [hnil, Control.unstarted, Control.settled]
  | started =>
    have hon : s.isRunning = true := by simpa [hc] using hrun
    simp only
    rw [if_pos hon]
    refine h.steer (m := s.mutex) (Or.inl ⟨rfl, ?_⟩) ?_ ?_ ?_ ?_ ?_ ?_
    all_goals simp [hc, Control.critical, Control.unstarted, Control.joined, Control.settled]
  | _ => exact h

/-- Every step keeps the invariant, and none faults. -/
theorem Inv.step (h : s.Inv) (mv : Move) : ∃ s', s.step mv = .ok (s', ()) ∧ s'.Inv := by
  have hmap : ∀ {x : Except ThreadFault ServerThreads}, (∃ s', x = .ok s' ∧ s'.Inv) →
      ∃ s', x.map (·, ()) = .ok (s', ()) ∧ s'.Inv := by
    rintro x ⟨s', rfl, hinv⟩
    exact ⟨s', rfl, hinv⟩
  cases mv with
  | acceptor a => exact hmap (h.acceptorStep a)
  | worker i metrics => exact hmap (h.workerStep i metrics)
  | start listening => exact ⟨_, rfl, h.startStep listening⟩
  | stop => exact ⟨_, rfl, h.stopStep⟩
  | control a => exact hmap (h.controlStep a)

theorem Inv.of_reach (h : serverThreads.Reach Initialised s) : s.Inv := by
  refine h.invariant (fun _ hs => ?_) fun s mv s' out hinv _ hs => ?_
  · rw [show _ = _ from hs]
    exact .init
  · obtain ⟨s₁, hs₁, hinv₁⟩ := hinv.step mv
    rw [show s.step mv = .ok (s', out) from hs] at hs₁
    cases hs₁
    exact hinv₁

/-- The count is right, each connection is taken out of it once, by whoever has it, and
nobody is left to use what was destroyed. -/
structure Accounted (s : ServerThreads) : Prop where
  count : s.activeWorkers = s.conns.countP fun c => c.decrements = 0
  range : 0 ≤ s.activeWorkers ∧ s.activeWorkers ≤ maxClientWorkers
  /-- A connection was taken out once when it is past its decrement, and not before. -/
  once : ∀ c ∈ s.conns, c.decrements = if c.stage.left then 1 else 0
  /-- A connection without a thread is with the accept loop: none is forgotten. -/
  inHand : ∀ i : Nat, s.conns[i]?.map Conn.stage = some .inHand → s.acceptor.inHand = some i
  freed : s.workerLocks = false ∨ s.snapshotLock = false ∨ s.latestSnapshot = false →
    ∀ c ∈ s.conns, c.stage = .finished

theorem Inv.accounted (h : s.Inv) : s.Accounted where
  count := h.count
  range := ⟨by have := h.count; omega, h.bound⟩
  once c hc := by
    obtain ⟨i, hi⟩ := List.getElem?_of_mem hc
    exact h.once i c hi
  inHand i hi := by
    obtain ⟨c, hc, hstage⟩ := Option.map_eq_some_iff.mp hi
    exact (h.hand i).mpr ⟨c, hc, hstage⟩
  freed hgone c hc := by
    obtain ⟨i, hi⟩ := List.getElem?_of_mem hc
    have hset : s.control.settled = true := by
      rcases hgone with hg | hg | hg
      · exact h.workerLocks hg
      · exact h.snapshotLock hg
      · exact h.latestSnapshot hg
    exact h.settled hset i c hi

end ServerThreads

end MemoryMonitor
