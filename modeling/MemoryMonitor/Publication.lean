import MemoryMonitor.SharedRegister
import MemoryMonitor.MetricsJson

/-! # From the sampler to the dashboard (`main.c`, `gui_server.c`)

The loop in `main` takes a snapshot and, unless that failed, hands it to
`gui_server_update_snapshot`, which copies it into `latest_snapshot` under the write side
of `snapshot_lock`.  Meanwhile any number of workers are in `serve_metrics_json`, which
walks through `latest_snapshot` under the read side.

`memcpy` takes a step for each field here, and a worker for each field it reads, so a
worker could see half of a new snapshot if the lock did not prevent it.  What the workers
answer is compared with `serveMetricsJson`, which sees one snapshot as a whole.
-/
namespace MemoryMonitor

open CString Register

/-! ## The fields -/

/-- A `system_snapshot_t` has room for `MAX_PROCS` processes. -/
def Snapshot : Type := { s : SystemSnapshot // s.procs.length ≤ maxProcs }

/-- The fields of `system_snapshot_t` that `serve_metrics_json` reads. -/
inductive Cell where
  | timestamp
  | truncated
  | totalUsagePct
  | userPct
  | systemPct
  | idlePct
  | coreCount
  | memTotalKb
  | memAvailableKb
  | memFreeKb
  | buffersKb
  | cachedKb
  | memUsagePct
  | swapTotalKb
  | swapFreeKb
  | swapUsagePct
  | count
  | pid (i : Fin maxProcs)
  | comm (i : Fin maxProcs)
  | state (i : Fin maxProcs)
  | cpuUsagePct (i : Fin maxProcs)
  | vmRssKb (i : Fin maxProcs)
  | numThreads (i : Fin maxProcs)
deriving DecidableEq

namespace Cell

def Value : Cell → Type
  | timestamp => Int
  | truncated => Bool
  | totalUsagePct => Percent
  | userPct => Percent
  | systemPct => Percent
  | idlePct => Percent
  | coreCount => Int
  | memTotalKb => Nat
  | memAvailableKb => Nat
  | memFreeKb => Nat
  | buffersKb => Nat
  | cachedKb => Nat
  | memUsagePct => Percent
  | swapTotalKb => Nat
  | swapFreeKb => Nat
  | swapUsagePct => Percent
  | count => Fin (maxProcs + 1)
  | pid _ => Int
  | comm _ => List UInt8
  | state _ => UInt8
  | cpuUsagePct _ => Percent
  | vmRssKb _ => Nat
  | numThreads _ => Int

/-- The fields of a process. -/
def ofProc (i : Fin maxProcs) : List Cell :=
  [pid i, comm i, state i, cpuUsagePct i, vmRssKb i, numThreads i]

/-- All fields, in the order of the struct. -/
def all : List Cell :=
  (List.finRange maxProcs).flatMap ofProc ++
    [count, truncated, totalUsagePct, userPct, systemPct, idlePct, coreCount, memTotalKb, memFreeKb,
      memAvailableKb, buffersKb, cachedKb, swapTotalKb, swapFreeKb, memUsagePct, swapUsagePct,
      timestamp]

theorem mem_all (k : Cell) : k ∈ all := by
  have hproc : ∀ i, ∀ k ∈ ofProc i, k ∈ all := by
    intro i k hk
    exact List.mem_append_left _ (List.mem_flatMap.mpr ⟨i, List.mem_finRange i, hk⟩)
  cases k with
  | pid i => exact hproc i _ (by simp [ofProc])
  | comm i => exact hproc i _ (by simp [ofProc])
  | state i => exact hproc i _ (by simp [ofProc])
  | cpuUsagePct i => exact hproc i _ (by simp [ofProc])
  | vmRssKb i => exact hproc i _ (by simp [ofProc])
  | numThreads i => exact hproc i _ (by simp [ofProc])
  | _ => exact List.mem_append_right _ (by simp)

end Cell

/-- The entry at `i`; the array is zero behind its last process. -/
def SystemSnapshot.procAt (s : SystemSnapshot) (i : Fin maxProcs) : ProcessInfo :=
  s.procs[i.val]?.getD { pid := 0 }

/-- What the fields hold. -/
def Snapshot.content (s : Snapshot) : ∀ k, Cell.Value k
  | .timestamp => s.val.timestamp
  | .truncated => s.val.truncated
  | .totalUsagePct => s.val.cpu.totalUsagePct
  | .userPct => s.val.cpu.userPct
  | .systemPct => s.val.cpu.systemPct
  | .idlePct => s.val.cpu.idlePct
  | .coreCount => s.val.cpu.coreCount
  | .memTotalKb => s.val.mem.memTotalKb
  | .memAvailableKb => s.val.mem.memAvailableKb
  | .memFreeKb => s.val.mem.memFreeKb
  | .buffersKb => s.val.mem.buffersKb
  | .cachedKb => s.val.mem.cachedKb
  | .memUsagePct => s.val.mem.memUsagePct
  | .swapTotalKb => s.val.mem.swapTotalKb
  | .swapFreeKb => s.val.mem.swapFreeKb
  | .swapUsagePct => s.val.mem.swapUsagePct
  | .count => ⟨s.val.procs.length, Nat.lt_succ_of_le s.property⟩
  | .pid i => (s.val.procAt i).pid
  | .comm i => (s.val.procAt i).comm
  | .state i => (s.val.procAt i).state
  | .cpuUsagePct i => (s.val.procAt i).cpuUsagePct
  | .vmRssKb i => (s.val.procAt i).vmRssKb
  | .numThreads i => (s.val.procAt i).numThreads

/-- `memset(server->latest_snapshot, 0, sizeof(system_snapshot_t))`. -/
def zeroSnapshot : Snapshot := ⟨⟨[], false, {}, {}, 0⟩, Nat.zero_le _⟩

/-! ## `serve_metrics_json`, field by field -/

/-- A program that reads fields of `latest_snapshot`. -/
abbrev Reading := Prog Cell.Value

def Cell.get (k : Cell) : Reading k.Value := Prog.get k

/-- What the first `snprintf` prints of the CPU. -/
def readCpuMetrics : Reading CpuMetrics := do
  let totalUsagePct : Percent ← Cell.totalUsagePct.get
  let userPct : Percent ← Cell.userPct.get
  let systemPct : Percent ← Cell.systemPct.get
  let idlePct : Percent ← Cell.idlePct.get
  let coreCount : Int ← Cell.coreCount.get
  return { totalUsagePct, userPct, systemPct, idlePct, coreCount }

/-- What the first `snprintf` prints of the memory. -/
def readMemMetrics : Reading MemMetrics := do
  let memTotalKb : Nat ← Cell.memTotalKb.get
  let memAvailableKb : Nat ← Cell.memAvailableKb.get
  let memFreeKb : Nat ← Cell.memFreeKb.get
  let buffersKb : Nat ← Cell.buffersKb.get
  let cachedKb : Nat ← Cell.cachedKb.get
  let memUsagePct : Percent ← Cell.memUsagePct.get
  let swapTotalKb : Nat ← Cell.swapTotalKb.get
  let swapFreeKb : Nat ← Cell.swapFreeKb.get
  let swapUsagePct : Percent ← Cell.swapUsagePct.get
  return { memTotalKb, memAvailableKb, memFreeKb, buffersKb, cachedKb, memUsagePct, swapTotalKb,
           swapFreeKb, swapUsagePct }

/-- The arguments of the first `snprintf`, as a snapshot without processes. -/
def readHead : Reading SystemSnapshot := do
  let timestamp : Int ← Cell.timestamp.get
  let truncated : Bool ← Cell.truncated.get
  let cpu ← readCpuMetrics
  let mem ← readMemMetrics
  return { procs := [], truncated, cpu, mem, timestamp }

/-- What the loop reads of the process at `i`. -/
def readProc (i : Fin maxProcs) : Reading ProcessInfo := do
  let comm : List UInt8 ← (Cell.comm i).get
  let pid : Int ← (Cell.pid i).get
  let state : UInt8 ← (Cell.state i).get
  let cpuUsagePct : Percent ← (Cell.cpuUsagePct i).get
  let vmRssKb : Nat ← (Cell.vmRssKb i).get
  let numThreads : Int ← (Cell.numThreads i).get
  return { pid, comm, state, cpuUsagePct, vmRssKb, numThreads }

/-- `snap->count`. -/
def readCount : Reading (Fin (maxProcs + 1)) := Cell.count.get

/-- The loop over the processes from `i` on, of which `n` are left; `none` when it fails. -/
def readProcs (h : Host) : (n i : Nat) → i + n ≤ maxProcs → List UInt8 × Nat →
    Reading (Option (List UInt8 × Nat))
  | 0, _, _, r => return some r
  | n + 1, i, hi, (json, cap) =>
    let grown :=
      if cap < json.length + 1024 then if h.alloc (cap * 2) then some (cap * 2) else none
      else some cap
    match grown with
    | none => return none
    | some cap => do
      let p ← readProc ⟨i, by omega⟩
      let entry := metricsEntry h p (n = 0)
      if cap - json.length ≤ entry.length then return none
      else readProcs h n (i + 1) (by omega) (json ++ entry, cap)

theorem count_bound (count : Fin (maxProcs + 1)) : 0 + count.val ≤ maxProcs := by
  omega

/-- `serve_metrics_json`: what it does under the lock, and what it sends in the end. -/
def readMetrics (h : Host) : Reading (List UInt8) :=
  let unable := sendResponse "500 Internal Server Error" "text/plain"
    (bytes "Unable to serialize metrics")
  if h.alloc initialJsonCap = false then
    return sendResponse "500 Internal Server Error" "text/plain" (bytes "Out of Memory")
  else do
    let head ← readHead
    let json := metricsHead h (some head)
    if initialJsonCap ≤ json.length then return unable
    else do
      let count ← readCount
      let read ← readProcs h count.val 0 (count_bound count) (json, initialJsonCap)
      match read with
      | none => return unable
      | some (json, cap) =>
        if cap < json.length + 32 ∧ h.alloc (cap + 1024) = false then return unable
        else
          return sendResponse "200 OK" "application/json" (cstr (json ++ bytes "  ]\n\x7d\n"))
            "Cache-Control: no-store\r\n"

theorem readHead_eval (s : Snapshot) : readHead.eval s.content = { s.val with procs := [] } := by
  rfl

/-- The loop reads the processes one after the other. -/
theorem readProcs_eval (h : Host) (s : Snapshot) (n i : Nat) (hi : i + n ≤ maxProcs)
    (hn : i + n = s.val.procs.length) (r : List UInt8 × Nat) :
    (readProcs h n i hi r).eval s.content = metricsLoop h (s.val.procs.drop i) r := by
  induction n generalizing i r with
  | zero =>
    rw [List.drop_of_length_le (by omega)]
    rfl
  | succ n ih =>
    obtain ⟨json, cap⟩ := r
    have hlt : i < s.val.procs.length := by omega
    have hentry : metricsEntry h ((readProc ⟨i, by omega⟩).eval s.content) (n = 0) =
        metricsEntry h s.val.procs[i] (s.val.procs.drop (i + 1)).isEmpty := by
      have hlast : (s.val.procs.drop (i + 1)).isEmpty = decide (n = 0) := by
        rw [Bool.eq_iff_iff, List.isEmpty_iff, List.drop_eq_nil_iff, decide_eq_true_eq]
        omega
      have hproc : s.val.procAt ⟨i, by omega⟩ = s.val.procs[i] := by
        simp [SystemSnapshot.procAt, hlt]
      rw [hlast, ← hproc]
      rfl
    rw [List.drop_eq_getElem_cons hlt]
    unfold readProcs metricsLoop
    dsimp only
    -- the buffer is large enough, is made larger, or cannot be
    by_cases hcap : cap < json.length + 1024
    · by_cases halloc : h.alloc (cap * 2) = true
      · simp only [if_pos hcap, if_pos halloc, Option.bind_eq_bind, Option.bind_some,
          Prog.eval_bind, hentry]
        split
        · rfl
        · exact ih (i + 1) (by omega) (by omega) _
      · simp only [if_pos hcap, if_neg halloc]
        rfl
    · simp only [if_neg hcap, Option.bind_eq_bind, Option.bind_some, Prog.eval_bind, hentry]
      split
      · rfl
      · exact ih (i + 1) (by omega) (by omega) _

/-- **On a snapshot that does not change, the worker answers what `serveMetricsJson` says.** -/
theorem readMetrics_eval (h : Host) (s : Snapshot) (token : List UInt8) :
    (readMetrics h).eval s.content = serveMetricsJson ⟨token, some s.val⟩ h := by
  unfold readMetrics serveMetricsJson
  split
  · rfl
  · rw [Prog.eval_bind, readHead_eval]
    have hhead : metricsHead h (some { s.val with procs := [] }) = metricsHead h (some s.val) := rfl
    simp only [hhead]
    split
    · rfl
    · have hcount : (readCount.eval s.content).val = s.val.procs.length := rfl
      have hloop := readProcs_eval h s (readCount.eval s.content).val 0 (by omega)
        (by rw [hcount, Nat.zero_add]) (metricsHead h (some s.val), initialJsonCap)
      rw [Prog.eval_bind, Prog.eval_bind, hloop]
      simp only [List.drop_zero, Option.map_some, Option.getD_some]
      cases metricsLoop h s.val.procs (metricsHead h (some s.val), initialJsonCap) with
      | none => rfl
      | some r =>
        dsimp only
        split <;> rfl

/-! ## The loop in `main` and the workers -/

/-- A connection that asks for the metrics, and what the calls of its worker find. -/
structure Request where
  conn : Nat
  host : Host

/-- `latest_snapshot` under `snapshot_lock`. -/
def latestSnapshot : Interface Request Snapshot Cell.Value (List UInt8) where
  content := Snapshot.content
  prog r := readMetrics r.host
  keys := Cell.all
  keys_all := Cell.mem_all

/-- Where the loop in `main` is, and what it shares with the workers. -/
structure Monitoring where
  parser : Parser
  /-- The snapshot that `gui_server_update_snapshot` was called with and has not begun to
  copy. -/
  pending : Option Snapshot := none
  shared : Register.State Request Snapshot Cell.Value (List UInt8) :=
    { cells := zeroSnapshot.content }
  /-- The snapshots that were taken without a failure, in order. -/
  taken : List Snapshot := []

/-- What one of the threads does next. -/
inductive Turn where
  /-- `main` calls `proc_parser_take_snapshot`. -/
  | sample (fs : ProcFs)
  /-- `main` tries to take the write side of the lock. -/
  | wrlock
  /-- `main` copies a field, or unlocks. -/
  | copy
  /-- The worker of a connection tries to take the read side. -/
  | rdlock (r : Request)
  /-- A worker under the lock reads a field, or unlocks. -/
  | read (n : Nat)

/-- A snapshot holds at most `MAX_PROCS` processes. -/
theorem takeSnapshot_length {g g' : Parser} {fs : ProcFs} {snap : SystemSnapshot}
    (h : g.takeSnapshot fs = (some snap, g')) : snap.procs.length ≤ maxProcs := by
  obtain ⟨cpu, g₁, mem, entries, -, -, -, rfl⟩ := Parser.takeSnapshot_some h
  exact g₁.readdirLoop_length mem entries (Nat.zero_le _)

namespace Monitoring

/-- `main` is between two calls of `gui_server_update_snapshot`. -/
def Between (s : Monitoring) : Prop := s.pending = none ∧ s.shared.writer = none

instance (s : Monitoring) : Decidable s.Between :=
  decidable_of_iff (s.pending.isNone ∧ s.shared.writer.isNone) (by simp [Between])

/-- One step of one of the threads. -/
def step (s : Monitoring) : Turn → Monitoring
  | .sample fs =>
    if s.Between then
      match h : s.parser.takeSnapshot fs with
      | (none, g) => { s with parser := g }
      | (some snap, g) =>
        { s with
          parser := g
          pending := some ⟨snap, takeSnapshot_length h⟩
          taken := s.taken ++ [⟨snap, takeSnapshot_length h⟩] }
    else s
  | .wrlock =>
    match s.pending with
    | none => s
    | some snap =>
      if s.shared.writer.isNone ∧ s.shared.readers = [] then
        { s with pending := none, shared := latestSnapshot.step s.shared (.wrlock snap) }
      else s
  | .copy => { s with shared := latestSnapshot.step s.shared .copy }
  | .rdlock r => { s with shared := latestSnapshot.step s.shared (.rdlock r) }
  | .read n => { s with shared := latestSnapshot.step s.shared (.read n) }

/-- `proc_parser_init` and `gui_server_init` have succeeded. -/
def Started (s : Monitoring) : Prop := ∃ g : Parser, s = { parser := g }

end Monitoring

/-- The threads in any order. -/
def monitoring : Runs.Machine Monitoring Turn Unit Empty :=
  ⟨fun _ _ => True, fun s t => .ok (s.step t, ())⟩

/-! ## What the dashboard is shown -/

/-- What the threads have done with `latest_snapshot`, in the order of their unlocking. -/
abbrev Log := List (Event Request Snapshot (List UInt8))

namespace Log

/-- The snapshots that were copied into `latest_snapshot`. -/
def published (log : Log) : List Snapshot :=
  log.filterMap fun
    | .published snap => some snap
    | .answered _ _ => none

/-- The snapshot that is in place after what the log says. -/
def latest (log : Log) : Snapshot := log.published.getLastD zeroSnapshot

theorem current_eq (snap : Snapshot) (log : Log) :
    Interface.current snap log = log.published.getLastD snap := by
  induction log generalizing snap with
  | nil => rfl
  | cons e log ih =>
    cases e with
    | published w =>
      rw [Interface.current, ih]
      exact (List.getLastD_cons ..).symm
    | answered r sent => exact ih snap

end Log

namespace Monitoring

/-- The snapshot that is on its way into `latest_snapshot`. -/
def underWay (s : Monitoring) : Option Snapshot := s.pending.or (s.shared.writer.map Prod.fst)

/-- What holds in every state. -/
structure Inv (s : Monitoring) : Prop where
  register : latestSnapshot.Inv zeroSnapshot s.shared
  /-- `main` is in one call of `gui_server_update_snapshot` at a time. -/
  single : s.pending.isSome → s.shared.writer = none
  handedOn : Log.published s.shared.log ++ s.underWay.toList = s.taken

theorem Started.inv {s : Monitoring} (h : s.Started) : s.Inv := by
  obtain ⟨g, rfl⟩ := h
  exact ⟨.start zeroSnapshot, nofun, rfl⟩

/-- Readers come and go without touching what `main` does. -/
theorem Inv.reader {s : Monitoring} (I : s.Inv) {shared : Register.State Request Snapshot Cell.Value
      (List UInt8)} (hreg : latestSnapshot.Inv zeroSnapshot shared)
    (hw : shared.writer = s.shared.writer)
    (hlog : Log.published shared.log = Log.published s.shared.log) :
    Inv { s with shared := shared } := by
  refine ⟨hreg, fun h => ?_, ?_⟩
  · rw [hw]
    exact I.single h
  · have := I.handedOn
    simp only [underWay, hw, hlog] at this ⊢
    exact this

/-- **A step of any thread keeps the invariant.** -/
theorem Inv.step {s : Monitoring} (I : s.Inv) (t : Turn) : (s.step t).Inv := by
  have hon := I.handedOn
  cases t with
  | sample fs =>
    simp only [Monitoring.step]
    split
    · rename_i hb
      have hway : s.underWay = none := by simp [underWay, hb.1, hb.2]
      rw [hway, Option.toList_none, List.append_nil] at hon
      split
      · refine ⟨I.register, I.single, ?_⟩
        rw [← hon]
        simp [underWay, hb.1, hb.2]
      · refine ⟨I.register, fun _ => hb.2, ?_⟩
        rw [← hon]
        rfl
    · exact I
  | wrlock =>
    simp only [Monitoring.step]
    split
    · exact I
    · rename_i snap hp
      split
      · rename_i hfree
        have hstep : latestSnapshot.step s.shared (.wrlock snap) =
            { s.shared with writer := some (snap, Cell.all) } := if_pos hfree
        refine ⟨I.register.step (.wrlock snap), nofun, ?_⟩
        rw [hstep, ← hon]
        simp [underWay, hp]
      · exact I
  | copy =>
    have hreg := I.register.step .copy
    simp only [Monitoring.step]
    cases hw : s.shared.writer with
    | none =>
      have hstep : latestSnapshot.step s.shared .copy = s.shared := by simp [Interface.step, hw]
      rw [hstep]
      exact I
    | some w =>
      obtain ⟨snap, ks⟩ := w
      have hp : s.pending = none := by
        cases hp : s.pending with
        | none => rfl
        | some _ =>
          rw [I.single (by rw [hp]; rfl)] at hw
          cases hw
      refine ⟨hreg, fun h => by simp [hp] at h, ?_⟩
      rw [← hon]
      cases ks with
      | nil => simp [Interface.step, hw, underWay, hp, Log.published]
      | cons k ks => simp [Interface.step, hw, underWay, hp]
  | rdlock r =>
    refine I.reader (I.register.step _) ?_ ?_ <;> simp only [Interface.step] <;> split <;> rfl
  | read n =>
    refine I.reader (I.register.step _) ?_ ?_
    · simp only [Interface.step]
      split <;> rfl
    · simp only [Interface.step]
      split
      · rfl
      · simp [Log.published]
      · rfl

theorem Inv.of_reach {s : Monitoring} (h : monitoring.Reach Started s) : s.Inv := by
  refine h.invariant (fun s h => h.inv) ?_
  intro s t s' out I _ hs
  obtain ⟨rfl, -⟩ := Prod.mk.inj (Except.ok.inj hs)
  exact I.step t

/-- **Every answer shows one snapshot, the latest.**  In every interleaving of the sampling
loop with any number of workers, what a worker answers is what `serveMetricsJson` says for
the snapshot that was published last before it unlocks, never a mixture of two.  The
published snapshots are those that were taken successfully, in order, each of them once;
a failed one leaves the dashboard as it was. -/
theorem answers_show_latest {s : Monitoring} (h : monitoring.Reach Started s) :
    (∀ before r sent after, s.shared.log = before ++ .answered r sent :: after →
      ∀ token, sent = serveMetricsJson ⟨token, some (Log.latest before).val⟩ r.host) ∧
      Log.published s.shared.log ++ s.underWay.toList = s.taken := by
  have I := Inv.of_reach h
  refine ⟨?_, I.handedOn⟩
  intro before r sent after hlog token
  have hlegal := I.register.legal
  rw [hlog] at hlegal
  obtain ⟨hsent, -⟩ := ((latestSnapshot.legal_append ..).mp hlegal).2
  rw [hsent, Log.current_eq]
  exact readMetrics_eval r.host _ token

/-! ## A run -/

theorem reach_step {s : Monitoring} (h : monitoring.Reach Started s) (t : Turn) :
    monitoring.Reach Started (s.step t) := by
  have hstep : monitoring.step s t = .ok (s.step t, ()) := rfl
  exact h.next trivial hstep

/-- `main` copies what is left and unlocks. -/
theorem reach_copies {s : Monitoring} (h : monitoring.Reach Started s) {w : Snapshot}
    {ks : List Cell} (hw : s.shared.writer = some (w, ks)) :
    ∃ cells, monitoring.Reach Started { s with
      shared := { s.shared with
        cells := cells, writer := none, log := s.shared.log ++ [.published w] } } := by
  induction ks generalizing s with
  | nil =>
    have hnext := reach_step h .copy
    simp only [Monitoring.step, Interface.step, hw] at hnext
    exact ⟨_, hnext⟩
  | cons k ks ih =>
    have hnext := reach_step h .copy
    simp only [Monitoring.step, Interface.step, hw] at hnext
    have hrest := ih hnext rfl
    exact hrest

/-- A worker that is alone under the lock reads what is left and unlocks. -/
theorem reach_reads {s : Monitoring} (h : monitoring.Reach Started s) {r : Request}
    {p : Reading (List UInt8)} (hr : s.shared.readers = [(r, p)]) :
    monitoring.Reach Started { s with
      shared := { s.shared with
        readers := [], log := s.shared.log ++ [.answered r (p.eval s.shared.cells)] } } := by
  induction p generalizing s with
  | done sent =>
    have hnext := reach_step h (.read 0)
    simp only [Monitoring.step, Interface.step, hr, List.getElem?_cons_zero, List.eraseIdx_zero,
      List.tail_cons] at hnext
    exact hnext
  | read k next ih =>
    have hnext := reach_step h (.read 0)
    simp only [Monitoring.step, Interface.step, hr, List.getElem?_cons_zero] at hnext
    have hrest := ih _ hnext rfl
    exact hrest

/-- A snapshot of one process is taken, and a worker comes before it is copied. -/
def earlyWorker : List Turn :=
  [.sample { stat := some (bytes "cpu 1 2 3 4"), meminfo := some (bytes "MemTotal: 8 kB")
             entries := some [⟨bytes "7", some (bytes
              "7 (init) S 0 7 7 0 -1 0 0 0 0 0 5 3 0 0 20 0 1 0 9 1000 50"), none⟩] },
    .rdlock ⟨0, quietHost⟩] ++ List.replicate 18 (.read 0)

/-- What is left to do when a snapshot is pending and nobody holds the lock: it is
published, and a worker answers. -/
theorem reach_published {s : Monitoring} (h : monitoring.Reach Started s) {w : Snapshot}
    (hw : s.pending = some w) (hwriter : s.shared.writer = none) (hreaders : s.shared.readers = [])
    (r : Request) : ∃ s' sent, monitoring.Reach Started s' ∧ s'.taken = s.taken ∧
      s'.shared.log = s.shared.log ++ [.published w, .answered r sent] := by
  have hlock := reach_step h .wrlock
  simp only [Monitoring.step, Interface.step, hw, hwriter, hreaders, Option.isNone_none, and_self,
    if_true] at hlock
  obtain ⟨cells, hcopied⟩ := reach_copies hlock rfl
  have hinside := reach_step hcopied (.rdlock r)
  simp only [Monitoring.step, Interface.step, Option.isNone_none, if_true,
    List.nil_append] at hinside
  have hanswered := reach_reads hinside rfl
  exact ⟨_, _, hanswered, rfl, List.append_assoc ..⟩

/-- Two workers answer, one before the snapshot is published and one after it. -/
theorem answers_show_latest_twice : ∃ (s : Monitoring) (snap : Snapshot) (r r' : Request),
    s.taken = [snap] ∧ snap.val.procs.map ProcessInfo.pid = [7] ∧
    s.shared.log =
      [.answered r (serveMetricsJson ⟨bytes "token", some zeroSnapshot.val⟩ r.host), .published snap,
        .answered r' (serveMetricsJson ⟨bytes "token", some snap.val⟩ r'.host)] := by
  have hrun : (monitoring.exec (fun _ _ => true) { parser := {} } earlyWorker).map (fun s =>
      (s.taken.map fun snap => snap.val.procs.map ProcessInfo.pid, s.shared.log.map fun
        | .answered _ _ => true
        | .published _ => false)) = some ([[7]], [true]) := by decide +kernel
  have hidle : (monitoring.exec (fun _ _ => true) { parser := {} } earlyWorker).map (fun s =>
      (s.pending.isSome, s.shared.writer.isNone, s.shared.readers.length)) =
      some (true, true, 0) := by decide +kernel
  obtain ⟨s, hs, hout⟩ := Option.map_eq_some_iff.mp hrun
  rw [hs] at hidle
  obtain ⟨htaken, hlog⟩ := Prod.mk.inj hout
  obtain ⟨hpending, hfree⟩ := Prod.mk.inj (Option.some.inj hidle)
  obtain ⟨hwriter, hreaders⟩ := Prod.mk.inj hfree
  obtain ⟨snap, htaken, hpids⟩ := List.map_eq_singleton_iff.mp htaken
  obtain ⟨e, hlog, he⟩ := List.map_eq_singleton_iff.mp hlog
  obtain ⟨w, hw⟩ := Option.isSome_iff_exists.mp hpending
  have hreach : monitoring.Reach Started s :=
    (Runs.Machine.Reach.exec (P := fun _ => True) (fun _ _ _ _ _ _ _ => ⟨trivial, trivial⟩)
      (.start ⟨{}, rfl⟩) trivial hs).1
  obtain ⟨s', sent', hreach', htaken', hlog'⟩ := reach_published hreach hw
    (Option.isNone_iff_eq_none.mp hwriter) (List.length_eq_zero_iff.mp hreaders) ⟨1, quietHost⟩
  rw [hlog, List.singleton_append] at hlog'
  rw [htaken] at htaken'
  obtain ⟨hshown, hpublished⟩ := answers_show_latest hreach'
  cases e with
  | published snap => cases he
  | answered r sent =>
    -- the published snapshot is the one that was taken
    have hsame : w :: s'.underWay.toList = [snap] := by
      rw [← htaken', ← hpublished, hlog']
      rfl
    obtain rfl := (List.cons.inj hsame).1
    refine ⟨s', w, r, ⟨1, quietHost⟩, htaken', hpids, ?_⟩
    rw [hlog', hshown [] r sent _ hlog' (bytes "token"),
      hshown [.answered r sent, .published w] _ sent' [] hlog' (bytes "token")]
    rfl

end Monitoring

end MemoryMonitor
