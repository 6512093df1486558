import MemoryMonitor.ProcParser
import MemoryMonitor.Machine
import Mathlib.Tactic.ByContra

/-! # Runs of the sampler

A share of the CPU divides the growth of a process's time by the growth of the system's.
The two growths are kept in different variables: `prev_processes` is replaced by a
snapshot that succeeds, `prev_cpu_jiffies` by every reading of `/proc/stat`, also when
the call then fails at `/proc/meminfo` or at `opendir`.  As long as such failures come
only while there are no processes on record, or while the system's counters stand
still, the two describe the same snapshot (`InStep`).
-/
namespace MemoryMonitor

open CString

/-- A snapshot that succeeded, and the system's jiffies when it was taken. -/
structure Sample where
  total : Nat
  snapshot : SystemSnapshot
deriving DecidableEq

/-- The sampler's variables and its successful snapshots, newest first. -/
structure Monitor where
  parser : Parser
  samples : List Sample
deriving DecidableEq

namespace Monitor

/-- A call of `proc_parser_take_snapshot`. -/
def step (m : Monitor) (fs : ProcFs) : Except Empty (Monitor × Option Sample) :=
  match m.parser.takeSnapshot fs with
  | (none, g) => .ok (⟨g, m.samples⟩, none)
  | (some snapshot, g) =>
    let total := ((Parser.parseCpu fs.stat).map CpuRawJiffies.total).getD 0
    .ok (⟨g, ⟨total, snapshot⟩ :: m.samples⟩, some ⟨total, snapshot⟩)

/-- `proc_parser_init` has succeeded and no snapshot was taken yet. -/
def Initialised (m : Monitor) : Prop :=
  m.samples = [] ∧ ∃ g cores stat, Parser.init g cores stat = some m.parser

/-- The call does not read new counters from `/proc/stat` and then fail, unless no
process is on record. -/
def FailsClean (m : Monitor) (fs : ProcFs) : Prop :=
  ∀ c, Parser.parseCpu fs.stat = some c →
    (Parser.readMem fs.meminfo).isSome ∧ fs.entries.isSome ∨
      m.parser.prevProcesses = [] ∨ c.total = m.parser.prevCpuJiffies.total

end Monitor

/-- The calls of the sampler; any of them may find anything. -/
def sampler : Runs.Machine Monitor ProcFs (Option Sample) Empty :=
  ⟨fun _ _ => True, Monitor.step⟩

/-- Every nonzero share in a sample is the growth of the process's time over the growth
of the system's, both since one of the earlier samples. -/
def EqualIntervals (earlier : List Sample) (s : Sample) : Prop :=
  ∀ p ∈ s.snapshot.procs, p.cpuUsagePct.num ≠ 0 → ∃ T ∈ earlier, ∃ q ∈ T.snapshot.procs,
    q.pid = p.pid ∧ q.totalTime ≤ p.totalTime ∧ p.cpuUsagePct.num = p.totalTime - q.totalTime ∧
      T.total ≤ s.total ∧ p.cpuUsagePct.den = s.total - T.total

/-! ## One call -/

namespace Parser
variable {g g' : Parser} {fs : ProcFs}

/-- The variables after `/proc/stat` was read. -/
def counted (g : Parser) (c : CpuRawJiffies) : Parser :=
  { g with prevCpuJiffies := c, lastSystemJiffiesDelta := delta c.total g.prevCpuJiffies.total }

theorem readCpu_spec {stat : File} {cpu : CpuMetrics} (h : g.readCpu stat = some (cpu, g')) :
    ∃ c, parseCpu stat = some c ∧ g' = g.counted c := by
  unfold readCpu at h
  cases hc : parseCpu stat with
  | none =>
    rw [hc] at h
    cases h
  | some c =>
    rw [hc] at h
    exact ⟨c, rfl, (Prod.mk.inj (Option.some.inj h)).2.symm⟩

/-- The entries of a snapshot and what the loop puts on record for the next one. -/
def onRecord (p : ProcessInfo) : ProcessCpuHistory := ⟨p.pid, p.totalTime⟩

/-- What the loop has collected: the shares are the ones of the variables at the start,
and the record is that of the processes. -/
def ScanOk (g : Parser) (s : Scan) : Prop :=
  s.current = s.procs.map onRecord ∧ ∀ p ∈ s.procs, p.cpuUsagePct = g.cpuUsagePct p

theorem ScanOk.push {s : Scan} {p : ProcessInfo} (h : g.ScanOk s)
    (hroom : s.procs.length < maxProcs) (hp : p.cpuUsagePct = g.cpuUsagePct p) :
    g.ScanOk { s with
      procs := s.procs ++ [p]
      current :=
        if s.current.length < maxProcs then s.current ++ [⟨p.pid, p.totalTime⟩] else s.current } := by
  have hlen : s.current.length < maxProcs := by
    rw [h.1, List.length_map]
    exact hroom
  constructor
  · show (if s.current.length < maxProcs then _ else _) = _
    rw [if_pos hlen, List.map_append, h.1]
    rfl
  · intro q hq
    rcases List.mem_append.mp hq with hq | hq
    · exact h.2 q hq
    · rw [List.mem_singleton.mp hq]
      exact hp

theorem readdirLoop_ok (mem : MemMetrics) (es : List Entry) {s : Scan} (h : g.ScanOk s) :
    g.ScanOk (g.readdirLoop mem es s) := by
  induction es generalizing s with
  | nil => exact h
  | cons e es ih =>
    unfold readdirLoop
    split
    · exact ih h
    · split
      · exact h
      · rename_i hroom
        split
        · exact ih h
        · apply ih
          apply h.push (Nat.lt_of_not_le hroom)
          -- the share is computed from the process's pid and time alone
          split <;> rfl

/-- The three ways a call ends. -/
theorem takeSnapshot_cases (g : Parser) (fs : ProcFs) :
    (parseCpu fs.stat = none ∧ g.takeSnapshot fs = (none, g)) ∨
    ∃ c, parseCpu fs.stat = some c ∧
      (¬ ((readMem fs.meminfo).isSome ∧ fs.entries.isSome) ∧
          g.takeSnapshot fs = (none, g.counted c) ∨
        ∃ snapshot, g.takeSnapshot fs =
            (some snapshot, { g.counted c with prevProcesses := snapshot.procs.map onRecord }) ∧
          ∀ p ∈ snapshot.procs, p.cpuUsagePct = (g.counted c).cpuUsagePct p) := by
  unfold takeSnapshot
  cases hcpu : g.readCpu fs.stat with
  | none =>
    refine Or.inl ⟨?_, rfl⟩
    cases hc : parseCpu fs.stat with
    | none => rfl
    | some c => simp [readCpu, hc] at hcpu
  | some r =>
    obtain ⟨cpu, g₁⟩ := r
    obtain ⟨c, hc, rfl⟩ := readCpu_spec hcpu
    refine Or.inr ⟨c, hc, ?_⟩
    cases hmem : readMem fs.meminfo with
    | none => exact Or.inl ⟨by simp, rfl⟩
    | some mem =>
      cases hdir : fs.entries with
      | none => exact Or.inl ⟨by simp, rfl⟩
      | some entries =>
        obtain ⟨hcurrent, hshare⟩ :=
          (g.counted c).readdirLoop_ok mem entries (s := {}) ⟨rfl, by simp⟩
        let s := (g.counted c).readdirLoop mem entries {}
        refine Or.inr ⟨⟨s.procs, s.truncated, cpu, mem, fs.time⟩, ?_, hshare⟩
        simp only [s, ← hcurrent]

/-- A nonzero share, spelled out. -/
theorem cpuUsagePct_ne_zero {p : ProcessInfo} (h : (g.cpuUsagePct p).num ≠ 0) :
    ∃ q ∈ g.prevProcesses, q.pid = p.pid ∧ 0 < g.lastSystemJiffiesDelta ∧
      q.totalTime ≤ p.totalTime ∧ (g.cpuUsagePct p).num = p.totalTime - q.totalTime ∧
      (g.cpuUsagePct p).den = g.lastSystemJiffiesDelta := by
  unfold cpuUsagePct findPreviousProcessTime at h ⊢
  split at h
  · rename_i hdelta
    rw [if_pos hdelta]
    cases hfind : g.prevProcesses.find? fun q => q.pid = p.pid with
    | none =>
      rw [hfind] at h
      exact absurd rfl h
    | some q =>
      rw [hfind] at h
      have hpid : q.pid = p.pid := by simpa using List.find?_some hfind
      have hle : q.totalTime ≤ p.totalTime := by
        by_contra hlt
        exact h (if_neg hlt)
      exact ⟨q, List.mem_of_find?_eq_some hfind, hpid, hdelta, hle, if_pos hle, rfl⟩
  · exact absurd rfl h

end Parser

/-! ## Runs -/

namespace Monitor
variable {m m' : Monitor} {fs : ProcFs}

/-- **The invariant.**  The processes on record are those of a sample, and the counters
are the ones it was taken at. -/
def InStep (m : Monitor) : Prop :=
  m.parser.prevProcesses = [] ∨ ∃ T ∈ m.samples,
    m.parser.prevProcesses = T.snapshot.procs.map Parser.onRecord ∧
      m.parser.prevCpuJiffies.total = T.total

theorem Initialised.inStep (h : m.Initialised) : m.InStep := by
  obtain ⟨-, g, cores, stat, hinit⟩ := h
  refine Or.inl ?_
  unfold Parser.init at hinit
  obtain ⟨⟨cpu, g'⟩, -, hg⟩ := Option.bind_eq_some_iff.mp hinit
  rw [← Option.some.inj hg]

/-- A call that succeeds or fails clean keeps the invariant. -/
theorem InStep.step (h : m.InStep) (hclean : m.FailsClean fs) {out : Option Sample}
    (hs : m.step fs = .ok (m', out)) : m'.InStep := by
  unfold Monitor.step at hs
  rcases m.parser.takeSnapshot_cases fs with ⟨-, htake⟩ | ⟨c, hc, ⟨hfail, htake⟩ | ⟨snap, htake, -⟩⟩
  · rw [htake] at hs
    cases hs
    exact h
  · rw [htake] at hs
    cases hs
    rcases (hclean c hc).resolve_left hfail with hempty | htotal
    · exact Or.inl hempty
    · rcases h with hempty | ⟨T, hT, hprocs, hcpu⟩
      · exact Or.inl hempty
      · exact Or.inr ⟨T, hT, hprocs, htotal.trans hcpu⟩
  · rw [htake, hc] at hs
    cases hs
    exact Or.inr ⟨_, List.mem_cons_self .., rfl, rfl⟩

/-- In step, the next snapshot compares equal intervals. -/
theorem InStep.equalIntervals (h : m.InStep) {s : Sample} (hs : m.step fs = .ok (m', some s)) :
    EqualIntervals m.samples s := by
  unfold Monitor.step at hs
  rcases m.parser.takeSnapshot_cases fs with ⟨-, htake⟩ | ⟨c, hc, ⟨-, htake⟩ | ⟨snap, htake, hshare⟩⟩
  · rw [htake] at hs
    cases hs
  · rw [htake] at hs
    cases hs
  · rw [htake, hc] at hs
    cases hs
    intro p hp hne
    rw [hshare p hp] at hne ⊢
    obtain ⟨q, hq, hpid, hdelta, hle, hnum, hden⟩ := Parser.cpuUsagePct_ne_zero hne
    have hq : q ∈ m.parser.prevProcesses := hq
    have hdelta : 0 < Parser.delta c.total m.parser.prevCpuJiffies.total := hdelta
    rcases h with hempty | ⟨T, hT, hprocs, hcpu⟩
    · rw [hempty] at hq
      cases hq
    · rw [hprocs] at hq
      obtain ⟨q', hq', rfl⟩ := List.mem_map.mp hq
      rw [hcpu] at hdelta
      have htotal : T.total ≤ c.total := by
        by_contra hlt
        rw [show Parser.delta c.total T.total = 0 from if_neg hlt] at hdelta
        exact absurd hdelta (by decide)
      refine ⟨T, hT, q', hq', hpid, hle, hnum, htotal, hden.trans ?_⟩
      show Parser.delta c.total m.parser.prevCpuJiffies.total = c.total - T.total
      rw [hcpu]
      exact if_pos htotal

end Monitor

/-- **Equal intervals.**  In every run whose calls all fail clean, every nonzero share of
every snapshot divides the growth of the process's time since an earlier snapshot by the
growth of the system's since that same snapshot. -/
theorem equal_intervals {m : Monitor}
    (h : (sampler.restrict Monitor.FailsClean).Reach Monitor.Initialised m) {fs : ProcFs}
    {m' : Monitor} {s : Sample} (hs : sampler.step m fs = .ok (m', some s)) :
    EqualIntervals m.samples s := by
  have hstep : m.InStep := h.invariant (fun _ hi => hi.inStep)
    fun _ _ _ _ hm ha hs => hm.step ha.2 hs
  exact hstep.equalIntervals hs

/-! ## A run that falls out of step -/

/-- The sampler of a process that has seen 100 jiffies. -/
def firstMonitor : Monitor :=
  ⟨{ prevCpuJiffies := { user := 100, total := 100 }, lastSystemJiffiesDelta := 100 }, []⟩

theorem firstMonitor_initialised : firstMonitor.Initialised :=
  ⟨rfl, {}, 1, some (bytes "cpu 100 0 0 0"), by decide +kernel⟩

/-- What a call finds when the system has run for `total` jiffies, of which its only
process has used `time`. -/
def found (total time : String) (meminfo : File) : ProcFs where
  stat := some (bytes "cpu " ++ bytes total ++ bytes " 0 0 0")
  meminfo := meminfo
  entries := some [⟨bytes "7", some (bytes "7 (sh) S 1 7 7 0 -1 0 0 0 0 0 " ++ bytes time ++
    bytes " 0 0 0 20 0 1 0 5"), none⟩]

def meminfoText : File := some (bytes "MemTotal: 1000 kB")

theorem equal_intervals_second :
    ∃ m m' s, (sampler.restrict Monitor.FailsClean).Reach Monitor.Initialised m ∧
      sampler.step m (found "400" "150" meminfoText) = .ok (m', some s) ∧
      (∃ p ∈ s.snapshot.procs, p.cpuUsagePct = ⟨100, 200, 1⟩) ∧ EqualIntervals m.samples s := by
  have h1 : ((sampler.step firstMonitor (found "200" "50" meminfoText)).toOption.bind fun r =>
      (sampler.step r.1 (found "400" "150" meminfoText)).toOption.bind fun r =>
        r.2.map fun s => s.snapshot.procs.map ProcessInfo.cpuUsagePct) = some [⟨100, 200, 1⟩] := by
    decide +kernel
  obtain ⟨⟨m, out⟩, hfirst, h2⟩ := Runs.ok_of_bind h1
  obtain ⟨⟨m', out'⟩, hsecond, h3⟩ := Runs.ok_of_bind h2
  obtain ⟨s, rfl, hs⟩ := Option.map_eq_some_iff.mp h3
  have hreach : (sampler.restrict Monitor.FailsClean).Reach Monitor.Initialised m :=
    .next (i := found "200" "50" meminfoText) (.start firstMonitor_initialised)
      ⟨trivial, fun _ _ => Or.inr (Or.inl rfl)⟩ hfirst
  refine ⟨m, m', s, hreach, hsecond, ?_, equal_intervals hreach hsecond⟩
  refine List.mem_map.mp (?_ : _ ∈ s.snapshot.procs.map ProcessInfo.cpuUsagePct)
  rw [hs]
  exact List.mem_singleton_self _

/-- **A failure between two snapshots mixes the intervals.**  The second snapshot divides
the process's growth since the first by the system's growth since the failed call. -/
theorem intervals_differ :
    ∃ m fs m' s, sampler.Reach Monitor.Initialised m ∧
      sampler.step m fs = .ok (m', some s) ∧ ¬ EqualIntervals m.samples s := by
  have h1 : ((sampler.step firstMonitor (found "200" "50" meminfoText)).toOption.bind fun r =>
      (sampler.step r.1 (found "300" "100" none)).toOption.bind fun r' =>
        (sampler.step r'.1 (found "400" "150" meminfoText)).toOption.bind fun r =>
          r.2.map fun s => (r'.1.samples.map Sample.total, s.total,
            s.snapshot.procs.map ProcessInfo.cpuUsagePct)) =
      some ([200], 400, [⟨100, 100, 1⟩]) := by decide +kernel
  obtain ⟨⟨m₁, out₁⟩, hfirst, h2⟩ := Runs.ok_of_bind h1
  obtain ⟨⟨m, out⟩, hfailed, h3⟩ := Runs.ok_of_bind h2
  obtain ⟨⟨m', out'⟩, hsecond, h4⟩ := Runs.ok_of_bind h3
  obtain ⟨s, rfl, h5⟩ := Option.map_eq_some_iff.mp h4
  obtain ⟨hsamples, h6⟩ := Prod.mk.inj h5
  obtain ⟨htotal, hshares⟩ := Prod.mk.inj h6
  have hreach : sampler.Reach Monitor.Initialised m :=
    .next (.next (.start firstMonitor_initialised) trivial hfirst) trivial hfailed
  refine ⟨m, _, m', s, hreach, hsecond, fun heq => ?_⟩
  obtain ⟨p, hp, hpct⟩ : ∃ p ∈ s.snapshot.procs, p.cpuUsagePct = ⟨100, 100, 1⟩ := by
    refine List.mem_map.mp (?_ : _ ∈ s.snapshot.procs.map ProcessInfo.cpuUsagePct)
    rw [hshares]
    exact List.mem_singleton_self _
  obtain ⟨T, hT, q, -, -, -, -, -, hden⟩ := heq p hp (by rw [hpct]; decide)
  have hT200 : T.total = 200 := by
    have := List.mem_map_of_mem (f := Sample.total) hT
    rw [show m.samples.map Sample.total = [200] from hsamples] at this
    exact List.mem_singleton.mp this
  rw [hpct, hT200, show s.total = 400 from htotal] at hden
  exact absurd hden (by decide)

end MemoryMonitor
