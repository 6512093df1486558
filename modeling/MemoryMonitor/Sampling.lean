import MemoryMonitor.ProcFiles

/-! # What a snapshot says of the system

A `World` is the system at one moment: the counters of the CPU, the lines of
`/proc/meminfo`, and the names in `/proc` with the processes behind them.  Its files are
what the kernel prints.  A snapshot of a world shows its processes in order, up to the
capacity of the array, and compares each with the world of the snapshot before.  The
sampler never sees two worlds at once: what it needs of the one before, it keeps in
`prev_cpu_jiffies` and `prev_processes` (`Remembers`).
-/
namespace MemoryMonitor

open CString

/-! ## Processes -/

/-- A process, as the kernel shows it in files that fit the buffer. -/
structure Task where
  line : StatLine
  /-- The fields of the line that the sampler does not read. -/
  tail : List UInt8
  /-- The lines of the status file; `none` when the process ends before it is opened. -/
  status : Option (List KeyLine)
  pid : 0 ≤ line.pid ∧ line.pid < 2 ^ 31
  typed : line.Typed
  name : 0 ∉ line.name
  state : line.state ≠ 0
  tail_noDigit : NoDigit tail
  paren : 41 ∉ line.rest tail
  line_length : (line.text tail).length < 4096
  status_plain : ∀ l ∈ status.getD [], l.Plain
  status_length : (fileText (status.getD [])).length < 4096

namespace Task

/-- What the files of a process say of it. -/
def info (t : Task) : ProcessInfo := withStatus t.line.info (t.status.getD [])

theorem readProcess_eq (t : Task) :
    Parser.readProcess t.line.pid (some (t.line.text t.tail)) (t.status.map fileText) =
      some t.info := by
  rw [StatLine.readProcess_line t.typed t.name t.state t.tail_noDigit t.paren t.line_length]
  have hlen := t.status_length
  have hplain := t.status_plain
  unfold info
  cases hstatus : t.status with
  | none => rfl
  | some lines =>
    rw [hstatus, Option.getD_some] at hlen hplain
    rw [Option.map_some, Option.getD_some, readStatus_fileText hplain hlen rfl]

end Task

/-- A name in `/proc`. -/
inductive Dirent where
  | task (t : Task)
  /-- A process that ends before its files are opened. -/
  | ended (pid : Nat)
  /-- A name that is not a number, such as `self`. -/
  | other (name : List UInt8) (stat status : File) (hname : isDigit (name.headD 0) = false)

namespace Dirent

def entry : Dirent → Entry
  | task t => ⟨decimalInt t.line.pid, some (t.line.text t.tail), t.status.map fileText⟩
  | ended pid => ⟨decimalInt pid, none, none⟩
  | other name stat status _ => ⟨name, stat, status⟩

def task? : Dirent → Option Task
  | task t => some t
  | _ => none

/-- The name is that of a process. -/
def IsProcess : Dirent → Prop
  | other .. => False
  | _ => True

theorem headD_decimalInt (n : Nat) : isDigit ((decimalInt n).headD 0) = true := by
  have hdecimal : decimalInt n = decimal n := by
    unfold decimalInt
    rw [if_neg (by omega), Int.natAbs_natCast]
  rw [hdecimal]
  cases h : decimal n with
  | nil => exact absurd h (decimal_ne_nil n)
  | cons d ds => exact isDigit_of_mem_decimal (h ▸ List.mem_cons_self ..)

theorem isDigit_name (e : Dirent) : isDigit (e.entry.name.headD 0) = true ↔ e.IsProcess := by
  cases e with
  | task t =>
    obtain ⟨n, hn⟩ := Int.eq_ofNat_of_zero_le t.pid.1
    show isDigit ((decimalInt t.line.pid).headD 0) = true ↔ True
    rw [hn, iff_true]
    exact headD_decimalInt n
  | ended pid => exact iff_true_intro (headD_decimalInt pid)
  | other name stat status hname =>
    show isDigit (name.headD 0) = true ↔ False
    rw [hname]
    simp

/-- `atoi` reads the name of a process back. -/
theorem atoi_name (t : Task) : atoi (decimalInt t.line.pid) = t.line.pid := by
  obtain ⟨h0, h1⟩ := t.pid
  have hscan := scanInt_decimalInt [] (by simp) t.line.pid noDigit_nil
  rw [List.nil_append, List.append_nil] at hscan
  unfold atoi strtol
  rw [hscan]
  unfold longMax longMin
  simp only
  rw [if_neg (by omega), if_neg (by omega)]
  show Int.bmod t.line.pid (2 ^ 32) = t.line.pid
  exact Int.bmod_eq_of_le (by omega) (by omega)

/-- The processes of a directory. -/
def tasks (dir : List Dirent) : List Task := dir.filterMap task?

theorem readProcess_entry {e : Dirent} (he : e.IsProcess) :
    Parser.readProcess (atoi e.entry.name) e.entry.stat e.entry.status = e.task?.map Task.info := by
  cases e with
  | task t =>
    show Parser.readProcess (atoi (decimalInt t.line.pid)) _ _ = some t.info
    rw [atoi_name]
    exact t.readProcess_eq
  | ended pid => rfl
  | other name stat status hname => exact he.elim

end Dirent

/-! ## The loop over the directory -/

namespace Parser
variable {g : Parser}

/-- A process with the shares that the loop adds. -/
def withShares (g : Parser) (mem : MemMetrics) (p : ProcessInfo) : ProcessInfo :=
  { p with
    cpuUsagePct := g.cpuUsagePct p
    memUsagePct := if 0 < mem.memTotalKb then ⟨p.vmRssKb, mem.memTotalKb, 1⟩ else p.memUsagePct }

/-- What the loop does with a process that it can read. -/
def Scan.push (s : Scan) (p : ProcessInfo) : Scan :=
  { s with
    procs := s.procs ++ [p]
    current := if s.current.length < maxProcs then s.current ++ [onRecord p] else s.current }

theorem readdirLoop_other (mem : MemMetrics) {e : Dirent} (he : ¬ e.IsProcess) (es : List Entry)
    (s : Scan) : g.readdirLoop mem (e.entry :: es) s = g.readdirLoop mem es s := by
  rw [readdirLoop, if_pos]
  rw [← e.isDigit_name, Bool.not_eq_true] at he
  exact he

theorem readdirLoop_full (mem : MemMetrics) {e : Dirent} (he : e.IsProcess) (es : List Entry)
    {s : Scan} (hs : maxProcs ≤ s.procs.length) :
    g.readdirLoop mem (e.entry :: es) s = { s with truncated := true } := by
  rw [← e.isDigit_name] at he
  rw [readdirLoop, if_neg (by simp only [he]; decide), if_pos hs]

theorem readdirLoop_process (mem : MemMetrics) {e : Dirent} (he : e.IsProcess) (es : List Entry)
    {s : Scan} (hs : ¬ maxProcs ≤ s.procs.length) :
    g.readdirLoop mem (e.entry :: es) s =
      match e.task? with
      | none => g.readdirLoop mem es s
      | some t => g.readdirLoop mem es (s.push (g.withShares mem t.info)) := by
  have hread := e.readProcess_entry he
  rw [← e.isDigit_name] at he
  rw [readdirLoop, if_neg (by simp only [he]; decide), if_neg hs, hread]
  cases e.task? with
  | none => rfl
  | some t =>
    simp only [Option.map_some]
    congr 1
    unfold Scan.push withShares
    split
    · rfl
    · rfl

/-- A process after the array was full. -/
def Cut (room : Nat) (dir : List Dirent) : Prop :=
  ∃ a e b, dir = a ++ e :: b ∧ e.IsProcess ∧ room ≤ (Dirent.tasks a).length

theorem cut_cons {room : Nat} {e : Dirent} {dir : List Dirent} :
    Cut room (e :: dir) ↔
      e.IsProcess ∧ room = 0 ∨ Cut (room - (Dirent.tasks [e]).length) dir := by
  have htasks : ∀ a, (Dirent.tasks (e :: a)).length =
      (Dirent.tasks [e]).length + (Dirent.tasks a).length := by
    intro a
    rw [← List.length_append, Dirent.tasks, Dirent.tasks, Dirent.tasks, ← List.filterMap_append,
      List.singleton_append]
  constructor
  · rintro ⟨a, f, b, hdir, hf, hroom⟩
    cases a with
    | nil =>
      obtain ⟨rfl, rfl⟩ := List.cons.inj hdir
      exact Or.inl ⟨hf, Nat.le_zero.mp hroom⟩
    | cons e' a =>
      obtain ⟨rfl, rfl⟩ := List.cons.inj hdir
      rw [htasks] at hroom
      exact Or.inr ⟨a, f, b, rfl, hf, by omega⟩
  · rintro (⟨he, rfl⟩ | ⟨a, f, b, rfl, hf, hroom⟩)
    · exact ⟨[], e, dir, rfl, he, Nat.zero_le _⟩
    · refine ⟨e :: a, f, b, rfl, hf, ?_⟩
      rw [htasks]
      omega

/-- **The loop** shows the processes in order as long as there is room, and notices the
first name of a process for which there is none. -/
theorem readdirLoop_spec (mem : MemMetrics) (dir : List Dirent) {s : Scan}
    (hs : s.procs.length ≤ maxProcs) :
    (g.readdirLoop mem (dir.map Dirent.entry) s).procs =
      s.procs ++ ((Dirent.tasks dir).take (maxProcs - s.procs.length)).map
        (fun t => g.withShares mem t.info) ∧
    ((g.readdirLoop mem (dir.map Dirent.entry) s).truncated = true ↔
      s.truncated = true ∨ Cut (maxProcs - s.procs.length) dir) := by
  induction dir generalizing s with
  | nil =>
    have hnone : ¬ Cut (maxProcs - s.procs.length) [] := by
      rintro ⟨a, e, b, hdir, -⟩
      simp at hdir
    simp [readdirLoop, Dirent.tasks, hnone]
  | cons e dir ih =>
    rw [List.map_cons, cut_cons]
    by_cases he : e.IsProcess
    · by_cases hfull : maxProcs ≤ s.procs.length
      · rw [readdirLoop_full mem he _ hfull, Nat.sub_eq_zero_of_le hfull]
        simp [he]
      · rw [readdirLoop_process mem he _ hfull]
        cases htask : e.task? with
        | none =>
          have hcons : Dirent.tasks (e :: dir) = Dirent.tasks dir := by
            simp [Dirent.tasks, htask]
          have hone : (Dirent.tasks [e]).length = 0 := by simp [Dirent.tasks, htask]
          obtain ⟨hprocs, htrunc⟩ := ih hs
          refine ⟨by rw [hprocs, hcons], htrunc.trans ?_⟩
          rw [hone, Nat.sub_zero]
          have hroom : ¬ maxProcs - s.procs.length = 0 := by omega
          simp [hroom]
        | some t =>
          have hcons : Dirent.tasks (e :: dir) = t :: Dirent.tasks dir := by
            simp [Dirent.tasks, htask]
          have hone : (Dirent.tasks [e]).length = 1 := by simp [Dirent.tasks, htask]
          have hlen : (s.push (g.withShares mem t.info)).procs.length = s.procs.length + 1 := by
            simp [Scan.push]
          obtain ⟨hprocs, htrunc⟩ := ih (s := s.push (g.withShares mem t.info)) (by omega)
          have hroom : maxProcs - s.procs.length = maxProcs - (s.procs.length + 1) + 1 := by omega
          constructor
          · rw [hprocs, hcons, hlen, hroom, List.take_succ_cons, List.map_cons]
            simp [Scan.push]
          · rw [hlen] at htrunc
            refine htrunc.trans ?_
            rw [hone, hroom]
            simp [Scan.push]
    · have hcons : Dirent.tasks (e :: dir) = Dirent.tasks dir ∧ (Dirent.tasks [e]).length = 0 := by
        cases e with
        | task t => exact absurd trivial he
        | ended pid => exact absurd trivial he
        | other name stat status hname => exact ⟨rfl, rfl⟩
      rw [readdirLoop_other mem he, hcons.1, hcons.2, Nat.sub_zero]
      simpa [he] using ih hs

end Parser

/-! ## Worlds -/

/-- The system at one moment, with a `/proc/meminfo` that fits its buffer. -/
structure World where
  time : Int
  jiffies : CpuRawJiffies
  /-- What follows the eight counters in `/proc/stat`. -/
  statTail : List UInt8
  meminfo : List KeyLine
  dir : List Dirent
  jiffies_summed : jiffies.Summed
  jiffies_lt : ∀ n ∈ jiffies.counters, n < 2 ^ 64
  statTail_noDigit : NoDigit statTail
  meminfo_ne : meminfo ≠ []
  meminfo_plain : ∀ l ∈ meminfo, l.Plain
  meminfo_length : (fileText meminfo).length < 8192

namespace World

/-- The files that the kernel prints. -/
def fs (w : World) : ProcFs where
  time := w.time
  stat := some (jiffiesText w.jiffies w.statTail)
  meminfo := some (fileText w.meminfo)
  entries := some (w.dir.map Dirent.entry)

/-- The processes that fit the array. -/
def reported (w : World) : List Task := (Dirent.tasks w.dir).take maxProcs

/-- The share of a process between two worlds: what its time grew by, over what the
system's did, for a process that the first snapshot shows. -/
def share (cores : Int) (w w' : World) (t : Task) : Percent :=
  if w.jiffies.total < w'.jiffies.total then
    match w.reported.find? fun t₀ => t₀.line.pid = t.line.pid with
    | some t₀ =>
      ⟨t.info.totalTime - t₀.info.totalTime, w'.jiffies.total - w.jiffies.total, cores⟩
    | none => {}
  else {}

/-- A process, as the snapshot of the second world shows it. -/
def process (cores : Int) (w w' : World) (t : Task) : ProcessInfo :=
  let total := lookup (bytes "MemTotal") w'.meminfo
  { t.info with
    cpuUsagePct := share cores w w' t
    memUsagePct := if 0 < total then ⟨t.info.vmRssKb, total, 1⟩ else {} }

/-- The shares of the CPU between two worlds. -/
def cpu (cores : Int) (w w' : World) : CpuMetrics :=
  let growth := w'.jiffies.total - w.jiffies.total
  let grew := fun counter : CpuRawJiffies → Nat => counter w'.jiffies - counter w.jiffies
  if w.jiffies.total < w'.jiffies.total then
    { totalUsagePct := ⟨growth - grew CpuRawJiffies.idle, growth, 1⟩
      userPct := ⟨grew CpuRawJiffies.user, growth, 1⟩
      systemPct := ⟨grew CpuRawJiffies.system, growth, 1⟩
      idlePct := ⟨grew CpuRawJiffies.idle, growth, 1⟩
      coreCount := cores }
  else { idlePct := ⟨1, 1, 1⟩, coreCount := cores }

/-- **What a snapshot shows** of a world, after a snapshot of the one before. -/
structure Shows (cores : Int) (w w' : World) (s : SystemSnapshot) : Prop where
  procs : s.procs = w'.reported.map (process cores w w')
  truncated : s.truncated = true ↔ Parser.Cut maxProcs w'.dir
  cpu : s.cpu = World.cpu cores w w'
  mem : s.mem = memShown w'.meminfo
  timestamp : s.timestamp = w'.time

/-- What the sampler keeps of a world. -/
structure Remembers (cores : Int) (w : World) (g : Parser) : Prop where
  jiffies : g.prevCpuJiffies = w.jiffies
  processes : g.prevProcesses = w.reported.map fun t => Parser.onRecord t.info
  cores : g.sysCoreCount = cores

end World

theorem Parser.delta_eq (curr prev : Nat) : Parser.delta curr prev = curr - prev := by
  unfold Parser.delta
  split <;> omega

namespace World
variable {cores : Int} {w w' : World} {g : Parser}

theorem Remembers.readCpu (h : w.Remembers cores g) (w' : World) :
    g.readCpu w'.fs.stat = some (cpu cores w w', g.counted w'.jiffies) := by
  unfold Parser.readCpu
  rw [show Parser.parseCpu w'.fs.stat = some w'.jiffies from
    parseCpu_text w'.jiffies_summed w'.jiffies_lt w'.statTail_noDigit]
  rw [Option.bind_eq_bind, Option.bind_some]
  simp only [h.jiffies, h.cores, Parser.delta_eq]
  unfold cpu Parser.counted
  rw [h.jiffies, Parser.delta_eq]
  have hpos : 0 < w'.jiffies.total - w.jiffies.total ↔ w.jiffies.total < w'.jiffies.total := by omega
  have hbusy : (if w'.jiffies.idle - w.jiffies.idle < w'.jiffies.total - w.jiffies.total then
      w'.jiffies.total - w.jiffies.total - (w'.jiffies.idle - w.jiffies.idle) else 0) =
      w'.jiffies.total - w.jiffies.total - (w'.jiffies.idle - w.jiffies.idle) := by
    split <;> omega
  simp only [hpos, hbusy, h.cores]

/-- The share that the loop computes is that of the two worlds. -/
theorem Remembers.share (h : w.Remembers cores g) (w' : World) (t : Task) :
    (g.counted w'.jiffies).cpuUsagePct t.info = share cores w w' t := by
  have hfind : (g.counted w'.jiffies).findPreviousProcessTime t.info.pid =
      (w.reported.find? fun t₀ => t₀.line.pid = t.line.pid).map fun t₀ => t₀.info.totalTime := by
    unfold Parser.findPreviousProcessTime
    rw [show (g.counted w'.jiffies).prevProcesses = _ from h.processes, List.find?_map, Option.map_map]
    rfl
  have hdelta : (g.counted w'.jiffies).lastSystemJiffiesDelta =
      w'.jiffies.total - w.jiffies.total := by
    rw [← h.jiffies, ← Parser.delta_eq]
    rfl
  unfold Parser.cpuUsagePct World.share
  rw [hfind, hdelta, show (g.counted w'.jiffies).sysCoreCount = cores from h.cores]
  have hpos : 0 < w'.jiffies.total - w.jiffies.total ↔ w.jiffies.total < w'.jiffies.total := by omega
  simp only [hpos, Parser.delta_eq]
  split
  · cases w.reported.find? fun t₀ => t₀.line.pid = t.line.pid with
    | none => rfl
    | some t₀ => rfl
  · rfl

/-- **One snapshot.** -/
theorem Remembers.takeSnapshot (h : w.Remembers cores g) (w' : World) :
    ∃ s g', g.takeSnapshot w'.fs = (some s, g') ∧ Shows cores w w' s ∧ w'.Remembers cores g' := by
  let g₁ := g.counted w'.jiffies
  let s' := g₁.readdirLoop (memShown w'.meminfo) (w'.dir.map Dirent.entry) {}
  obtain ⟨hprocs, htrunc⟩ := g₁.readdirLoop_spec (memShown w'.meminfo) w'.dir (s := {})
    (Nat.zero_le _)
  obtain ⟨hcurrent, -⟩ := g₁.readdirLoop_ok (memShown w'.meminfo) (w'.dir.map Dirent.entry)
    (s := {}) ⟨rfl, by simp⟩
  have hprocs : s'.procs = w'.reported.map (process cores w w') := by
    refine hprocs.trans ?_
    refine List.map_congr_left fun t _ => ?_
    unfold Parser.withShares process
    rw [h.share w' t]
    rfl
  refine ⟨⟨s'.procs, s'.truncated, cpu cores w w', memShown w'.meminfo, w'.time⟩,
    { g₁ with prevProcesses := s'.current }, ?_, ⟨hprocs, ?_, rfl, rfl, rfl⟩, rfl, ?_, h.cores⟩
  · unfold Parser.takeSnapshot
    rw [h.readCpu w']
    simp only
    rw [show Parser.readMem w'.fs.meminfo = _ from
      readMem_fileText w'.meminfo_ne w'.meminfo_plain w'.meminfo_length]
    rfl
  · simpa using htrunc
  · show s'.current = _
    rw [hcurrent, show (g₁.readdirLoop _ _ {}).procs = _ from hprocs, List.map_map]
    rfl

end World

/-! ## Runs -/

/-- The snapshots of calls one after the other. -/
def Parser.snapshots (g : Parser) : List ProcFs → List (Option SystemSnapshot)
  | [] => []
  | fs :: rest => (g.takeSnapshot fs).1 :: (g.takeSnapshot fs).2.snapshots rest

namespace World

/-- Each snapshot shows its world, compared with the world before it. -/
def ShowsAll (cores : Int) : World → List World → List (Option SystemSnapshot) → Prop
  | _, [], ss => ss = []
  | w, w' :: ws, ss => ∃ s rest, ss = some s :: rest ∧ Shows cores w w' s ∧ ShowsAll cores w' ws rest

theorem Remembers.snapshots {cores : Int} {w : World} {g : Parser} (h : w.Remembers cores g)
    (ws : List World) : ShowsAll cores w ws (g.snapshots (ws.map fs)) := by
  induction ws generalizing w g with
  | nil => rfl
  | cons w' ws ih =>
    obtain ⟨s, g', htake, hshows, hrem⟩ := h.takeSnapshot w'
    refine ⟨s, g'.snapshots (ws.map fs), ?_, hshows, ih hrem⟩
    rw [List.map_cons, Parser.snapshots, htake]

/-- **The sampler shows the system.**  From any state of its variables,
`proc_parser_init` succeeds on the files that the kernel prints, and every snapshot after
it shows the world it is taken of: the first 2048 processes in the order of the
directory, each with what its files say and with the growth of its time since the
snapshot before.  Nothing in a file can imitate another field of it.  The files fit the
buffers: of a status file of 4096 bytes or more, such as one with a long `Groups` line, the
end is cut off, and `VmRSS` with it. -/
theorem sampler_shows_worlds (g₀ : Parser) (sysCores : Int) (boot : World) :
    ∃ g, g₀.init sysCores boot.fs.stat = some g ∧ ∀ ws : List World,
      ShowsAll (if 0 < sysCores ∧ sysCores ≤ 2 ^ 31 - 1 then sysCores else g₀.sysCoreCount)
        { boot with dir := [] } ws (g.snapshots (ws.map fs)) := by
  let g₁ := if 0 < sysCores ∧ sysCores ≤ 2 ^ 31 - 1 then { g₀ with sysCoreCount := sysCores } else g₀
  have hparse : Parser.parseCpu boot.fs.stat = some boot.jiffies :=
    parseCpu_text boot.jiffies_summed boot.jiffies_lt boot.statTail_noDigit
  obtain ⟨cpu, hread⟩ : ∃ cpu, g₁.readCpu boot.fs.stat = some (cpu, g₁.counted boot.jiffies) := by
    unfold Parser.readCpu
    rw [hparse]
    exact ⟨_, rfl⟩
  refine ⟨{ g₁.counted boot.jiffies with prevProcesses := [] }, ?_, fun ws => ?_⟩
  · unfold Parser.init
    simp only
    rw [show g₁.readCpu boot.fs.stat = _ from hread]
    rfl
  · refine Remembers.snapshots ⟨rfl, rfl, ?_⟩ ws
    show g₁.sysCoreCount = _
    unfold g₁
    split
    · rfl
    · rfl

/-- The status file of a process. -/
def hostileStatus : List KeyLine :=
  [⟨bytes "Name", bytes "\ta) R 1 ("⟩, .ofNumber (bytes "VmRSS") [9] 250 (bytes " kB")]

theorem hostileStatus_plain : ∀ l ∈ hostileStatus, l.Plain := by
  unfold hostileStatus
  simp only [List.forall_mem_cons, List.not_mem_nil, false_imp_iff, implies_true, and_true]
  exact ⟨⟨by decide, by decide, by decide⟩, ⟨by decide, by decide +kernel, by decide +kernel⟩⟩

/-- A process whose name imitates the end of itself. -/
theorem exists_hostile : ∃ t : Task, t.line = StatLine.hostile ∧ t.status = some hostileStatus :=
  ⟨{ line := StatLine.hostile
     tail := [10]
     status := some hostileStatus
     pid := by decide
     typed := ⟨by decide, by decide, by decide, by decide, by decide, by decide, by decide⟩
     name := by decide +kernel
     state := by decide
     tail_noDigit := noDigit_cons (by decide) _
     paren := by decide +kernel
     line_length := by decide +kernel
     status_plain := hostileStatus_plain
     status_length := by decide +kernel }, rfl, rfl⟩

/-- A system with such a process, one that has ended, and the link `self`. -/
example : ∃ w : World, w.fs.meminfo = some (bytes "MemTotal:   1000 kB\n") ∧
    (w.reported.map fun t => (t.info.pid, t.info.comm, t.info.vmRssKb)) =
      [(4321, bytes "a) R 1 (", 250)] := by
  obtain ⟨t, hline, hstatus⟩ := exists_hostile
  let w : World :=
    { time := 0
      jiffies := { user := 100, idle := 300, total := 400 }
      statTail := bytes " 0 0\ncpu0 100 0 0 300 0 0 0 0 0 0\n"
      meminfo := [.ofNumber (bytes "MemTotal") (bytes "   ") 1000 (bytes " kB")]
      dir := [.other (bytes "self") none none (by decide), .ended 4320, .task t]
      jiffies_summed := rfl
      jiffies_lt := by decide
      statTail_noDigit := noDigit_cons (by decide) _
      meminfo_ne := by decide
      meminfo_plain := by
        simp only [List.forall_mem_cons, List.not_mem_nil, false_imp_iff, implies_true, and_true]
        exact ⟨by decide, by decide +kernel, by decide +kernel⟩
      meminfo_length := by decide +kernel }
  have hreported : w.reported = [t] := rfl
  have hinfo : t.info = withStatus StatLine.hostile.info hostileStatus := by
    unfold Task.info
    rw [hline, hstatus, Option.getD_some]
  have hmeminfo : fileText [.ofNumber (bytes "MemTotal") (bytes "   ") 1000 (bytes " kB")] =
      bytes "MemTotal:   1000 kB\n" := by
    decide +kernel
  refine ⟨w, congrArg some hmeminfo, ?_⟩
  rw [hreported, List.map_singleton, hinfo]
  decide +kernel

end World

end MemoryMonitor
