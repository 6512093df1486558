import MemoryMonitor.CString

/-! # The sampler (`proc_parser.c`)

`proc_parser_take_snapshot` reads `/proc/stat`, `/proc/meminfo` and the directories of
the processes.  Between two calls it keeps the counters it last read from `/proc/stat`
(`prev_cpu_jiffies`, with the growth since the reading before them in
`last_system_jiffies_delta`) and the CPU times of the processes of the last snapshot
(`prev_processes`).

What the files hold is an input.  A percentage is kept as the quotient it is computed
from; the rounding of `float` is not modelled.
-/
namespace MemoryMonitor

open CString

def maxCommLen : Nat := 256
def maxProcs : Nat := 2048

/-- A sum of `unsigned long long`. -/
def addULL (a b : Nat) : Nat := (a + b) % 2 ^ 64

/-- `((float)num / (float)den) * 100.0f * (float)factor`. -/
structure Percent where
  num : Nat := 0
  den : Nat := 1
  factor : Int := 1
deriving DecidableEq, Repr

/-- `cpu_raw_jiffies_t`. -/
structure CpuRawJiffies where
  user : Nat := 0
  nice : Nat := 0
  system : Nat := 0
  idle : Nat := 0
  iowait : Nat := 0
  irq : Nat := 0
  softirq : Nat := 0
  steal : Nat := 0
  total : Nat := 0
deriving DecidableEq, Repr

/-- `cpu_metrics_t`. -/
structure CpuMetrics where
  totalUsagePct : Percent := {}
  userPct : Percent := {}
  systemPct : Percent := {}
  idlePct : Percent := {}
  coreCount : Int := 0
deriving DecidableEq, Repr

/-- `mem_metrics_t`. -/
structure MemMetrics where
  memTotalKb : Nat := 0
  memFreeKb : Nat := 0
  memAvailableKb : Nat := 0
  buffersKb : Nat := 0
  cachedKb : Nat := 0
  swapTotalKb : Nat := 0
  swapFreeKb : Nat := 0
  memUsagePct : Percent := {}
  swapUsagePct : Percent := {}
deriving DecidableEq, Repr

/-- `process_info_t`.  `pss_kb` is never set. -/
structure ProcessInfo where
  pid : Int
  ppid : Int := 0
  comm : List UInt8 := []
  state : UInt8 := 0
  utime : Nat := 0
  stime : Nat := 0
  totalTime : Nat := 0
  cpuUsagePct : Percent := {}
  vmSizeKb : Nat := 0
  vmRssKb : Nat := 0
  memUsagePct : Percent := {}
  priority : Int := 0
  nice : Int := 0
  numThreads : Int := 0
  starttimeTicks : Nat := 0
  voluntaryCtxtSwitches : Nat := 0
  nonvoluntaryCtxtSwitches : Nat := 0
deriving DecidableEq, Repr

/-- `system_snapshot_t`; `count` is the length of `procs`. -/
structure SystemSnapshot where
  procs : List ProcessInfo
  truncated : Bool
  cpu : CpuMetrics
  mem : MemMetrics
  timestamp : Int
deriving DecidableEq, Repr

/-- `process_cpu_history_t`. -/
structure ProcessCpuHistory where
  pid : Int
  totalTime : Nat
deriving DecidableEq, Repr

/-- The static variables. -/
structure Parser where
  prevCpuJiffies : CpuRawJiffies := {}
  lastSystemJiffiesDelta : Nat := 0
  sysCoreCount : Int := 1
  /-- The first `prev_process_count` entries of the array. -/
  prevProcesses : List ProcessCpuHistory := []
deriving DecidableEq, Repr

/-- A file as `open` and one `read` find it: `none` when `open` fails. -/
abbrev File := Option (List UInt8)

/-- A name that `readdir` gives, and the two files of its directory. -/
structure Entry where
  name : List UInt8
  stat : File
  status : File
deriving DecidableEq, Repr

/-- What a call of `proc_parser_take_snapshot` finds. -/
structure ProcFs where
  time : Int := 0
  stat : File
  meminfo : File
  /-- `none` when `opendir` fails. -/
  entries : Option (List Entry)
deriving DecidableEq, Repr

/-- The bytes that `open` and `read(fd, buf, cap)` leave in a buffer. -/
def File.read (f : File) (cap : Nat) : Option (List UInt8) :=
  match f with
  | none => none
  | some [] => none
  | some b => some (b.take cap)

/-- A file that fits the buffer is read whole. -/
theorem read_some {text : List UInt8} (hne : text ≠ []) {cap : Nat} (hlen : text.length ≤ cap) :
    File.read (some text) cap = some text := by
  unfold File.read
  cases text with
  | nil => exact absurd rfl hne
  | cons c s =>
    show some ((c :: s).take cap) = some (c :: s)
    rw [List.take_of_length_le hlen]

namespace Parser

/-! ## `/proc/stat` -/

/-- The counters of a `/proc/stat` that can be read; the ones that are missing stay 0. -/
def parseCpu (f : File) : Option CpuRawJiffies := do
  let buf ← f.read 4095
  let v := sscanf (cstr buf) "cpu %llu %llu %llu %llu %llu %llu %llu %llu"
  if v.length < 4 then none
  else
    let col := fun i => (v.getD i 0).toNat
    let curr : CpuRawJiffies :=
      { user := col 0, nice := col 1, system := col 2, idle := col 3
        iowait := col 4, irq := col 5, softirq := col 6, steal := col 7 }
    let others := [curr.nice, curr.system, curr.idle, curr.iowait, curr.irq, curr.softirq, curr.steal]
    some { curr with total := others.foldl addULL curr.user }

/-- A growth that is 0 when the counter went back. -/
def delta (curr prev : Nat) : Nat := if prev ≤ curr then curr - prev else 0

/-- `proc_parser_read_cpu`: `none` when it returns -1. -/
def readCpu (g : Parser) (stat : File) : Option (CpuMetrics × Parser) := do
  let curr ← parseCpu stat
  let prev := g.prevCpuJiffies
  let deltaTotal := delta curr.total prev.total
  let deltaIdle := delta curr.idle prev.idle
  let deltaUser := delta curr.user prev.user
  let deltaSystem := delta curr.system prev.system
  let metrics : CpuMetrics :=
    if 0 < deltaTotal then
      let busy := if deltaIdle < deltaTotal then deltaTotal - deltaIdle else 0
      { totalUsagePct := ⟨busy, deltaTotal, 1⟩
        userPct := ⟨deltaUser, deltaTotal, 1⟩
        systemPct := ⟨deltaSystem, deltaTotal, 1⟩
        idlePct := ⟨deltaIdle, deltaTotal, 1⟩
        coreCount := g.sysCoreCount }
    else { idlePct := ⟨1, 1, 1⟩, coreCount := g.sysCoreCount }
  some (metrics, { g with prevCpuJiffies := curr, lastSystemJiffiesDelta := deltaTotal })

/-- `proc_parser_init`, with what `sysconf(_SC_NPROCESSORS_ONLN)` says. -/
def init (g : Parser) (cores : Int) (stat : File) : Option Parser := do
  let g := if 0 < cores ∧ cores ≤ 2 ^ 31 - 1 then { g with sysCoreCount := cores } else g
  let (_, g) ← g.readCpu stat
  some { g with prevProcesses := [] }

/-! ## `/proc/meminfo` -/

/-- The number in a line of the given form. -/
def field (line : List UInt8) (fmt : String) : Option Nat :=
  (sscanf line fmt).head?.map Int.toNat

/-- One line of `/proc/meminfo`. -/
def readMemLine (m : MemMetrics) (line : List UInt8) : MemMetrics :=
  match field line "MemTotal: %lu kB" with
  | some val => { m with memTotalKb := val }
  | none =>
  match field line "MemFree: %lu kB" with
  | some val => { m with memFreeKb := val }
  | none =>
  match field line "MemAvailable: %lu kB" with
  | some val => { m with memAvailableKb := val }
  | none =>
  match field line "Buffers: %lu kB" with
  | some val => { m with buffersKb := val }
  | none =>
  match field line "Cached: %lu kB" with
  | some val => { m with cachedKb := val }
  | none =>
  match field line "SwapTotal: %lu kB" with
  | some val => { m with swapTotalKb := val }
  | none =>
  match field line "SwapFree: %lu kB" with
  | some val => { m with swapFreeKb := val }
  | none => m

/-- `proc_parser_read_mem`: `none` when it returns -1. -/
def readMem (meminfo : File) : Option MemMetrics := do
  let buf ← meminfo.read 8191
  let m := (strtokLines (cstr buf)).foldl readMemLine {}
  let used := m.memTotalKb - m.memAvailableKb
  let swapUsed := m.swapTotalKb - m.swapFreeKb
  some { m with
    memUsagePct := if 0 < m.memTotalKb then ⟨used, m.memTotalKb, 1⟩ else {}
    swapUsagePct := if 0 < m.swapTotalKb then ⟨swapUsed, m.swapTotalKb, 1⟩ else {} }

/-! ## `/proc/<pid>` -/

/-- One line of `/proc/<pid>/status`. -/
def readStatusLine (p : ProcessInfo) (line : List UInt8) : ProcessInfo :=
  match field line "VmSize: %lu kB" with
  | some val => { p with vmSizeKb := val }
  | none =>
  match field line "VmRSS: %lu kB" with
  | some val => { p with vmRssKb := val }
  | none =>
  match field line "voluntary_ctxt_switches: %lu" with
  | some val => { p with voluntaryCtxtSwitches := val }
  | none =>
  match field line "nonvoluntary_ctxt_switches: %lu" with
  | some val => { p with nonvoluntaryCtxtSwitches := val }
  | none => p

/-- `/proc/<pid>/status`, which may be missing. -/
def readStatus (p : ProcessInfo) (status : File) : ProcessInfo :=
  match status.read 4095 with
  | none => p
  | some buf => (strtokLines (cstr buf)).foldl readStatusLine p

/-- `proc_parser_read_process`: `none` when it returns -1. -/
def readProcess (pid : Int) (stat status : File) : Option ProcessInfo := do
  let buf ← stat.read 4095
  let commStart ← strchr (cstr buf) 40
  let commEnd ← strrchr (cstr buf) 41
  if commEnd ≤ commStart then none
  else
    let commLen := min (commEnd - (commStart + 1)) (maxCommLen - 1)
    let comm := (buf.drop (commStart + 1)).take commLen
    if buf.length ≤ commEnd + 2 then none
    else
      let rest := cstr (buf.drop (commEnd + 2))
      match sscanf rest ("%c %d %*d %*d %*d %*d %*u %*u %*u %*u %*u %llu %llu " ++
          "%*d %*d %ld %ld %ld %*d %llu") with
      | [state, ppid, utime, stime, priority, nice, numThreads, starttime] =>
        some (readStatus
          { pid := pid, ppid := ppid, comm := comm, state := state.toNat.toUInt8
            utime := utime.toNat, stime := stime.toNat
            totalTime := addULL utime.toNat stime.toNat
            priority := priority, nice := nice, numThreads := numThreads
            starttimeTicks := starttime.toNat } status)
      | _ => none

/-! ## The snapshot -/

/-- `find_previous_process_time`. -/
def findPreviousProcessTime (g : Parser) (pid : Int) : Option Nat :=
  (g.prevProcesses.find? fun h => h.pid = pid).map ProcessCpuHistory.totalTime

/-- The share of the CPU that the loop computes for a process. -/
def cpuUsagePct (g : Parser) (proc : ProcessInfo) : Percent :=
  if 0 < g.lastSystemJiffiesDelta then
    match g.findPreviousProcessTime proc.pid with
    | some previous =>
      ⟨delta proc.totalTime previous, g.lastSystemJiffiesDelta, g.sysCoreCount⟩
    | none => {}
  else {}

/-- What the loop over the directory has collected. -/
structure Scan where
  procs : List ProcessInfo := []
  current : List ProcessCpuHistory := []
  truncated : Bool := false

/-- The loop over the directory. -/
def readdirLoop (g : Parser) (mem : MemMetrics) : List Entry → Scan → Scan
  | [], s => s
  | e :: es, s =>
    if isDigit (e.name.headD 0) = false then readdirLoop g mem es s
    else if maxProcs ≤ s.procs.length then { s with truncated := true }
    else
      match readProcess (atoi e.name) e.stat e.status with
      | none => readdirLoop g mem es s
      | some proc =>
        let proc := { proc with cpuUsagePct := g.cpuUsagePct proc }
        let proc :=
          if 0 < mem.memTotalKb then { proc with memUsagePct := ⟨proc.vmRssKb, mem.memTotalKb, 1⟩ }
          else proc
        readdirLoop g mem es
          { s with
            procs := s.procs ++ [proc]
            current :=
              if s.current.length < maxProcs then s.current ++ [⟨proc.pid, proc.totalTime⟩]
              else s.current }

/-- `proc_parser_take_snapshot`: the snapshot, or `none` for -1, and the variables after. -/
def takeSnapshot (g : Parser) (fs : ProcFs) : Option SystemSnapshot × Parser :=
  match g.readCpu fs.stat with
  | none => (none, g)
  | some (cpu, g) =>
    match readMem fs.meminfo with
    | none => (none, g)
    | some mem =>
      match fs.entries with
      | none => (none, g)
      | some entries =>
        let s := g.readdirLoop mem entries {}
        (some ⟨s.procs, s.truncated, cpu, mem, fs.time⟩, { g with prevProcesses := s.current })

/-! ## What a call returns -/

variable {g g' : Parser}

/-- The array has room for `MAX_PROCS` processes. -/
theorem readdirLoop_length (g : Parser) (mem : MemMetrics) (es : List Entry) {s : Scan}
    (h : s.procs.length ≤ maxProcs) : (g.readdirLoop mem es s).procs.length ≤ maxProcs := by
  induction es generalizing s with
  | nil => exact h
  | cons e es ih =>
    unfold readdirLoop
    split
    · exact ih h
    · split
      · exact h
      · split
        · exact ih h
        · refine ih ?_
          rw [List.length_append, List.length_singleton]
          omega

/-- Where the snapshot of a successful call comes from. -/
theorem takeSnapshot_some {fs : ProcFs} {snap : SystemSnapshot}
    (h : g.takeSnapshot fs = (some snap, g')) : ∃ cpu g₁ mem entries,
      g.readCpu fs.stat = some (cpu, g₁) ∧ readMem fs.meminfo = some mem ∧
      fs.entries = some entries ∧ snap = ⟨(g₁.readdirLoop mem entries {}).procs,
        (g₁.readdirLoop mem entries {}).truncated, cpu, mem, fs.time⟩ := by
  unfold takeSnapshot at h
  split at h
  · cases h
  · rename_i cpu g₁ hcpu
    split at h
    · cases h
    · rename_i mem hmem
      split at h
      · cases h
      · rename_i entries hentries
        cases h
        exact ⟨cpu, g₁, mem, entries, hcpu, hmem, hentries, rfl⟩

end Parser

end MemoryMonitor
