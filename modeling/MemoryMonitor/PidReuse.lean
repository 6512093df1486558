import MemoryMonitor.SnapshotRuns
import Mathlib.Data.List.Nodup

/-! # Whose time a share of the CPU counts

A process is a pid together with the time it was started at; the kernel hands the pid of
a process that is gone to a new one.  `prev_processes` keeps pids and times only, so the
growth that `find_previous_process_time` leads to may start from the time of another
process.  It is the process's own growth exactly when what is on record under its pid is
the process itself, or has no less time than the process, which then counts as no growth.
-/
namespace MemoryMonitor

open CString

/-- Two readings of one process. -/
def ProcessInfo.Same (q p : ProcessInfo) : Prop :=
  q.pid = p.pid ∧ q.starttimeTicks = p.starttimeTicks

instance (q p : ProcessInfo) : Decidable (q.Same p) := by
  unfold ProcessInfo.Same
  infer_instance

/-- The growth of a process's own time since it was stored; 0 when it was not. -/
def ownGrowth (stored : List ProcessInfo) (p : ProcessInfo) : Nat :=
  match stored.find? fun q => q.Same p with
  | some q => Parser.delta p.totalTime q.totalTime
  | none => 0

/-- The first process stored under the pid is the process itself, or the process is not
stored and has no more time than that other one. -/
def Undisturbed (stored : List ProcessInfo) (p : ProcessInfo) : Prop :=
  ∀ q, (stored.find? fun q => q.pid = p.pid) = some q → q.starttimeTicks ≠ p.starttimeTicks →
    p.totalTime ≤ q.totalTime ∧ ∀ r ∈ stored, ¬ r.Same p

/-- The processes that can be read among the entries of a directory. -/
def Parser.reads (es : List Entry) : List ProcessInfo :=
  es.filterMap fun e =>
    if isDigit (e.name.headD 0) = false then none
    else readProcess (atoi e.name) e.stat e.status

/-- The processes that the loop reads. -/
def ProcFs.processes (fs : ProcFs) : List ProcessInfo :=
  (Parser.reads (fs.entries.getD [])).take maxProcs

namespace Monitor

/-- The processes of the last snapshot. -/
def stored (m : Monitor) : List ProcessInfo :=
  match m.samples with
  | [] => []
  | T :: _ => T.snapshot.procs

/-- Every growth that a snapshot used is the process's own since the snapshot before.
Where the system's counters did not grow, none is used. -/
def OwnGrowths (m m' : Monitor) (s : Sample) : Prop :=
  0 < m'.parser.lastSystemJiffiesDelta →
    ∀ p ∈ s.snapshot.procs, p.cpuUsagePct.num = ownGrowth m.stored p

/-- What the call finds does not meet the time of another process, unless the system's
counters did not grow. -/
def Undisturbed (m : Monitor) (fs : ProcFs) : Prop :=
  ∀ c, Parser.parseCpu fs.stat = some c → m.parser.prevCpuJiffies.total < c.total →
    ∀ p ∈ fs.processes, MemoryMonitor.Undisturbed m.stored p

end Monitor

/-! ## The processes of a snapshot -/

/-- What the loop reads of a process and does not compute. -/
def ProcessInfo.reading (p : ProcessInfo) : Int × Nat × Nat :=
  (p.pid, p.starttimeTicks, p.totalTime)

namespace Parser
variable {g : Parser} {fs : ProcFs}

theorem reads_cons {e : Entry} {es : List Entry} :
    reads (e :: es) = if isDigit (e.name.headD 0) = false then reads es else
      match readProcess (atoi e.name) e.stat e.status with
      | none => reads es
      | some p => p :: reads es := by
  unfold reads
  rw [List.filterMap_cons]
  split <;> split <;> simp_all

theorem readdirLoop_readings (mem : MemMetrics) (es : List Entry) (s : Scan) :
    (g.readdirLoop mem es s).procs.map ProcessInfo.reading =
      s.procs.map ProcessInfo.reading ++
        ((reads es).take (maxProcs - s.procs.length)).map ProcessInfo.reading := by
  induction es generalizing s with
  | nil => simp [readdirLoop, reads]
  | cons e es ih =>
    rw [reads_cons]
    unfold readdirLoop
    split
    · exact ih s
    · split
      · rename_i hfull
        rw [Nat.sub_eq_zero_of_le hfull]
        simp
      · rename_i hroom
        cases readProcess (atoi e.name) e.stat e.status with
        | none => exact ih s
        | some p =>
          have hrest : maxProcs - s.procs.length = maxProcs - (s.procs.length + 1) + 1 := by omega
          simp only
          rw [ih, hrest]
          -- the loop adds the shares to what it read
          split <;> simp [ProcessInfo.reading]

theorem takeSnapshot_readings {snapshot : SystemSnapshot} {g' : Parser}
    (h : g.takeSnapshot fs = (some snapshot, g')) :
    snapshot.procs.map ProcessInfo.reading = fs.processes.map ProcessInfo.reading := by
  obtain ⟨cpu, g₁, mem, entries, -, -, hdir, rfl⟩ := takeSnapshot_some h
  rw [readdirLoop_readings]
  simp [ProcFs.processes, hdir]

/-! ## One process -/

/-- The growth that the loop uses, by what is stored under the pid. -/
theorem cpuUsagePct_num {stored : List ProcessInfo} {p : ProcessInfo}
    (hrec : g.prevProcesses = stored.map onRecord) (hdelta : 0 < g.lastSystemJiffiesDelta) :
    (g.cpuUsagePct p).num =
      match stored.find? fun q => q.pid = p.pid with
      | some q => delta p.totalTime q.totalTime
      | none => 0 := by
  have hfind : g.findPreviousProcessTime p.pid =
      (stored.find? fun q => q.pid = p.pid).map ProcessInfo.totalTime := by
    unfold findPreviousProcessTime
    rw [hrec, List.find?_map, Option.map_map]
    rfl
  unfold cpuUsagePct
  rw [if_pos hdelta, hfind]
  cases stored.find? fun q => q.pid = p.pid <;> rfl

end Parser

section OneProcess
variable {stored : List ProcessInfo} {p q : ProcessInfo}

/-- The first process of a pid, when it is `p` itself, is the first reading of `p`. -/
theorem find_same (hq : (stored.find? fun q => q.pid = p.pid) = some q)
    (hstart : q.starttimeTicks = p.starttimeTicks) :
    (stored.find? fun q => q.Same p) = some q := by
  obtain ⟨hpid, as, bs, hsplit, hbefore⟩ := List.find?_eq_some_iff_append.mp hq
  refine List.find?_eq_some_iff_append.mpr ⟨?_, as, bs, hsplit, fun r hr => ?_⟩
  · simpa [ProcessInfo.Same, hstart] using hpid
  · have hne : r.pid ≠ p.pid := by simpa using hbefore r hr
    simp [ProcessInfo.Same, hne]

theorem ownGrowth_of_not_stored (h : ∀ r ∈ stored, ¬ r.Same p) : ownGrowth stored p = 0 := by
  have hnone : (stored.find? fun q => q.Same p) = none := by
    rw [List.find?_eq_none]
    intro r hr
    simpa using h r hr
  unfold ownGrowth
  rw [hnone]

/-- Undisturbed, the growth from what is stored under the pid is the process's own. -/
theorem Undisturbed.growth (h : Undisturbed stored p) :
    (match stored.find? fun q => q.pid = p.pid with
      | some q => Parser.delta p.totalTime q.totalTime
      | none => 0) = ownGrowth stored p := by
  cases hfind : stored.find? fun q => q.pid = p.pid with
  | none =>
    refine (ownGrowth_of_not_stored fun r hr hsame => ?_).symm
    have := List.find?_eq_none.mp hfind r hr
    simp [hsame.1] at this
  | some q =>
    by_cases hstart : q.starttimeTicks = p.starttimeTicks
    · unfold ownGrowth
      rw [find_same hfind hstart]
    · obtain ⟨hle, hnot⟩ := h q hfind hstart
      rw [ownGrowth_of_not_stored hnot]
      show Parser.delta p.totalTime q.totalTime = 0
      unfold Parser.delta
      split
      · omega
      · rfl

/-- Where every pid is stored once, nothing less will do. -/
theorem Undisturbed.of_growth (hpids : (stored.map ProcessInfo.pid).Nodup)
    (h : (match stored.find? fun q => q.pid = p.pid with
      | some q => Parser.delta p.totalTime q.totalTime
      | none => 0) = ownGrowth stored p) : Undisturbed stored p := by
  intro q hq hstart
  have hmem : q ∈ stored := List.mem_of_find?_eq_some hq
  have hpid : q.pid = p.pid := by simpa using List.find?_some hq
  have hnot : ∀ r ∈ stored, ¬ r.Same p := by
    intro r hr hsame
    have heq : r = q := List.inj_on_of_nodup_map hpids hr hmem (hsame.1.trans hpid.symm)
    exact hstart (heq ▸ hsame.2)
  refine ⟨?_, hnot⟩
  rw [hq, ownGrowth_of_not_stored hnot] at h
  change Parser.delta p.totalTime q.totalTime = 0 at h
  unfold Parser.delta at h
  split at h
  · omega
  · omega

/-- Only what was read of the process counts. -/
theorem Undisturbed.congr {p' : ProcessInfo} (hread : p.reading = p'.reading) :
    Undisturbed stored p ↔ Undisturbed stored p' := by
  obtain ⟨hpid, h⟩ := Prod.mk.inj hread
  obtain ⟨hstart, htime⟩ := Prod.mk.inj h
  simp only [Undisturbed, ProcessInfo.Same, hpid, hstart, htime]

end OneProcess

/-! ## Runs -/

namespace Monitor
variable {m m' : Monitor} {fs : ProcFs}

/-- **The invariant.**  On record is what the last snapshot stored. -/
def Recorded (m : Monitor) : Prop :=
  m.parser.prevProcesses = m.stored.map Parser.onRecord

theorem Initialised.recorded (h : m.Initialised) : m.Recorded := by
  obtain ⟨hsamples, g, cores, stat, hinit⟩ := h
  unfold Parser.init at hinit
  obtain ⟨⟨cpu, g'⟩, -, hg⟩ := Option.bind_eq_some_iff.mp hinit
  unfold Recorded stored
  rw [hsamples, ← Option.some.inj hg]
  rfl

theorem Recorded.step (h : m.Recorded) {out : Option Sample}
    (hs : m.step fs = .ok (m', out)) : m'.Recorded := by
  unfold Monitor.step at hs
  rcases m.parser.takeSnapshot_cases fs with ⟨-, htake⟩ | ⟨c, -, ⟨-, htake⟩ | ⟨snap, htake, -⟩⟩
  · rw [htake] at hs
    cases hs
    exact h
  · rw [htake] at hs
    cases hs
    exact h
  · rw [htake] at hs
    cases hs
    rfl

/-- A call that succeeds, spelled out. -/
theorem step_some {s : Sample} (hs : m.step fs = .ok (m', some s)) :
    ∃ c, Parser.parseCpu fs.stat = some c ∧
      m'.parser.lastSystemJiffiesDelta = (m.parser.counted c).lastSystemJiffiesDelta ∧
      (∀ p ∈ s.snapshot.procs, p.cpuUsagePct = (m.parser.counted c).cpuUsagePct p) ∧
      s.snapshot.procs.map ProcessInfo.reading = fs.processes.map ProcessInfo.reading := by
  unfold Monitor.step at hs
  rcases m.parser.takeSnapshot_cases fs with ⟨-, htake⟩ | ⟨c, hc, ⟨-, htake⟩ | ⟨snap, htake, hshare⟩⟩
  · rw [htake] at hs
    cases hs
  · rw [htake] at hs
    cases hs
  · have hread := Parser.takeSnapshot_readings htake
    rw [htake] at hs
    cases hs
    exact ⟨c, hc, rfl, hshare, hread⟩

/-- In a snapshot the growths are the processes' own as far as the processes are
undisturbed. -/
theorem Recorded.ownGrowths (h : m.Recorded) {s : Sample} (hs : m.step fs = .ok (m', some s)) :
    (m.Undisturbed fs → m.OwnGrowths m' s) ∧
      ((m.stored.map ProcessInfo.pid).Nodup → m.OwnGrowths m' s → m.Undisturbed fs) := by
  obtain ⟨c, hc, hdelta, hshare, hread⟩ := step_some hs
  have hgrew : 0 < (m.parser.counted c).lastSystemJiffiesDelta ↔
      m.parser.prevCpuJiffies.total < c.total := by
    show 0 < Parser.delta c.total m.parser.prevCpuJiffies.total ↔ _
    unfold Parser.delta
    split <;> omega
  have hnum : 0 < (m.parser.counted c).lastSystemJiffiesDelta → ∀ p ∈ s.snapshot.procs,
      p.cpuUsagePct.num = match m.stored.find? fun q => q.pid = p.pid with
        | some q => Parser.delta p.totalTime q.totalTime
        | none => 0 := by
    intro hpos p hp
    rw [hshare p hp]
    exact Parser.cpuUsagePct_num h hpos
  constructor
  · intro hund hpos p hp
    rw [hdelta] at hpos
    obtain ⟨p', hp', heq⟩ : ∃ p' ∈ fs.processes, p'.reading = p.reading :=
      List.mem_map.mp (hread ▸ List.mem_map_of_mem hp)
    rw [hnum hpos p hp]
    exact ((Undisturbed.congr heq).mp (hund c hc (hgrew.mp hpos) p' hp')).growth
  · intro hpids hown c' hc' hlt p hp
    obtain rfl : c = c' := Option.some.inj (hc.symm.trans hc')
    have hpos := hgrew.mpr hlt
    obtain ⟨p', hp', heq⟩ : ∃ p' ∈ s.snapshot.procs, p'.reading = p.reading :=
      List.mem_map.mp (hread ▸ List.mem_map_of_mem hp)
    refine (Undisturbed.congr heq).mp (Undisturbed.of_growth hpids ?_)
    rw [← hnum hpos p' hp']
    exact hown (hdelta ▸ hpos) p' hp'

end Monitor

/-- **Whose growth is used.**  In every run, a snapshot that finds the processes
undisturbed uses each process's own growth since the snapshot before, and 0 for a process
that was not stored there.  Where that snapshot listed every pid once, no other does. -/
theorem own_growths {m : Monitor} (h : sampler.Reach Monitor.Initialised m) {fs : ProcFs}
    {m' : Monitor} {s : Sample} (hs : sampler.step m fs = .ok (m', some s)) :
    (m.Undisturbed fs → m.OwnGrowths m' s) ∧
      ((m.stored.map ProcessInfo.pid).Nodup → m.OwnGrowths m' s → m.Undisturbed fs) := by
  have hrec : m.Recorded := h.invariant (fun _ hi => hi.recorded)
    fun _ _ _ _ hm _ hs => hm.step hs
  exact hrec.ownGrowths hs

/-! ## A pid that is used again -/

/-- What a call finds when its only process has the pid 7, was started at `start` and has
used `time` of the system's `total` jiffies. -/
def foundStarted (total time start : String) : ProcFs where
  stat := some (bytes "cpu " ++ bytes total ++ bytes " 0 0 0")
  meminfo := meminfoText
  entries := some [⟨bytes "7", some (bytes "7 (sh) S 1 7 7 0 -1 0 0 0 0 0 " ++ bytes time ++
    bytes " 0 0 0 20 0 1 0 " ++ bytes start), none⟩]

/-- The sampler after a snapshot that found the process started at 5. -/
theorem first_snapshot : ∃ m, sampler.Reach Monitor.Initialised m ∧
    m.stored.map ProcessInfo.reading = [(7, 5, 50)] ∧
    ∀ fs, sampler.step m fs = (sampler.step firstMonitor (foundStarted "200" "50" "5")).bind
      fun r => sampler.step r.1 fs := by
  have h1 : ((sampler.step firstMonitor (foundStarted "200" "50" "5")).toOption.bind fun r =>
      some (r.1.stored.map ProcessInfo.reading)) = some [(7, 5, 50)] := by decide +kernel
  obtain ⟨⟨m, out⟩, hfirst, h2⟩ := Runs.ok_of_bind h1
  refine ⟨m, .next (.start firstMonitor_initialised) trivial hfirst, Option.some.inj h2, ?_⟩
  intro fs
  rw [hfirst]
  rfl

theorem own_growths_kept :
    ∃ m fs m' s, sampler.Reach Monitor.Initialised m ∧ sampler.step m fs = .ok (m', some s) ∧
      m.Undisturbed fs ∧ m.stored ≠ [] ∧ m.OwnGrowths m' s := by
  obtain ⟨m, hreach, hstored, hstep⟩ := first_snapshot
  have h1 : ((sampler.step m (foundStarted "400" "150" "5")).toOption.bind Prod.snd).isSome := by
    rw [hstep]
    decide +kernel
  obtain ⟨s, hs⟩ := Option.isSome_iff_exists.mp h1
  obtain ⟨⟨m', out⟩, hsecond, rfl⟩ := Runs.ok_of_bind hs
  have hund : m.Undisturbed (foundStarted "400" "150" "5") := by
    intro c _ _ p hp q hq hne
    have hstart : p.starttimeTicks = 5 := by
      have hall : ∀ p ∈ (foundStarted "400" "150" "5").processes, p.starttimeTicks = 5 := by
        decide +kernel
      exact hall p hp
    have hread : q.reading = (7, 5, 50) := by
      have := List.mem_map_of_mem (f := ProcessInfo.reading) (List.mem_of_find?_eq_some hq)
      rw [hstored] at this
      exact List.mem_singleton.mp this
    exact absurd ((congrArg (fun r => r.2.1) hread).trans hstart.symm) hne
  refine ⟨m, _, m', s, hreach, hsecond, hund, ?_, (own_growths hreach hsecond).1 hund⟩
  rintro hnil
  rw [hnil] at hstored
  cases hstored

/-- **A reused pid inherits a time.**  The process of the second snapshot was started at
900 and was not stored before; its growth is counted from the 50 jiffies of the process
that had its pid. -/
theorem reused_pid_is_charged :
    ∃ m fs m' s, sampler.Reach Monitor.Initialised m ∧ sampler.step m fs = .ok (m', some s) ∧
      ¬ m.OwnGrowths m' s := by
  obtain ⟨m, hreach, hstored, hstep⟩ := first_snapshot
  have h1 : ((sampler.step m (foundStarted "400" "150" "900")).toOption.bind fun r =>
      r.2.map fun s => (r.1.parser.lastSystemJiffiesDelta,
        s.snapshot.procs.map fun p => (p.starttimeTicks, p.cpuUsagePct.num))) =
      some (200, [(900, 100)]) := by
    rw [hstep]
    decide +kernel
  obtain ⟨⟨m', out⟩, hsecond, h2⟩ := Runs.ok_of_bind h1
  obtain ⟨s, rfl, h3⟩ := Option.map_eq_some_iff.mp h2
  obtain ⟨hdelta, hprocs⟩ := Prod.mk.inj h3
  refine ⟨m, _, m', s, hreach, hsecond, fun hown => ?_⟩
  obtain ⟨p, hp, hpq⟩ := List.mem_map.mp (hprocs ▸ List.mem_singleton_self (900, 100))
  obtain ⟨hstart, hnum⟩ := Prod.mk.inj hpq
  have hzero : ownGrowth m.stored p = 0 := by
    refine ownGrowth_of_not_stored fun r hr hsame => ?_
    have := List.mem_map_of_mem (f := ProcessInfo.reading) hr
    rw [hstored] at this
    have hr5 : r.starttimeTicks = 5 := congrArg (fun r => r.2.1) (List.mem_singleton.mp this)
    exact absurd (hr5.symm.trans (hsame.2.trans hstart)) (by decide)
  have h100 := hown (by rw [show m'.parser.lastSystemJiffiesDelta = 200 from hdelta]; decide) p hp
  rw [hzero, hnum] at h100
  exact absurd h100 (by decide)

end MemoryMonitor
