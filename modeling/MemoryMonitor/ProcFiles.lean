import MemoryMonitor.CpuShares
import MemoryMonitor.KeyedFile
import MemoryMonitor.SnapshotRuns
import MemoryMonitor.StatFormat

/-! # The files of `/proc`, read back

What `proc_parser_read_cpu`, `proc_parser_read_mem` and `proc_parser_read_process` make
of the files that the kernel prints.
-/
namespace MemoryMonitor

open CString

/-! ## `/proc/meminfo` -/

/-- The keys that the sampler looks for. -/
inductive MemKey where
  | memTotal
  | memFree
  | memAvailable
  | buffers
  | cached
  | swapTotal
  | swapFree
deriving DecidableEq

def memSlots : Slots MemKey MemMetrics where
  name
    | .memTotal => bytes "MemTotal"
    | .memFree => bytes "MemFree"
    | .memAvailable => bytes "MemAvailable"
    | .buffers => bytes "Buffers"
    | .cached => bytes "Cached"
    | .swapTotal => bytes "SwapTotal"
    | .swapFree => bytes "SwapFree"
  get
    | .memTotal => MemMetrics.memTotalKb
    | .memFree => MemMetrics.memFreeKb
    | .memAvailable => MemMetrics.memAvailableKb
    | .buffers => MemMetrics.buffersKb
    | .cached => MemMetrics.cachedKb
    | .swapTotal => MemMetrics.swapTotalKb
    | .swapFree => MemMetrics.swapFreeKb
  set
    | .memTotal => fun v m => { m with memTotalKb := v }
    | .memFree => fun v m => { m with memFreeKb := v }
    | .memAvailable => fun v m => { m with memAvailableKb := v }
    | .buffers => fun v m => { m with buffersKb := v }
    | .cached => fun v m => { m with cachedKb := v }
    | .swapTotal => fun v m => { m with swapTotalKb := v }
    | .swapFree => fun v m => { m with swapFreeKb := v }
  get_set k k' v m := by
    cases k <;> cases k' <;> rfl
  name_injective k k' h := by
    cases k <;> cases k' <;> first | rfl | exact absurd h (by decide)

/-- What comes behind the number in a format. -/
def kB : List Directive := [.blank, .literal 107, .literal 66]

/-- The formats of `proc_parser_read_mem`, in the order of the source. -/
def memFormats : List (MemKey × String) :=
  [(.memTotal, "MemTotal: %lu kB"), (.memFree, "MemFree: %lu kB"),
    (.memAvailable, "MemAvailable: %lu kB"), (.buffers, "Buffers: %lu kB"),
    (.cached, "Cached: %lu kB"), (.swapTotal, "SwapTotal: %lu kB"), (.swapFree, "SwapFree: %lu kB")]

theorem readMemLine_eq : Parser.readMemLine = memSlots.scanLine memFormats := by
  rfl

theorem memFormats_fit : memSlots.Fits memFormats := by
  unfold Slots.Fits memFormats
  simp only [List.forall_mem_cons, List.not_mem_nil, false_imp_iff, implies_true, and_true]
  refine ⟨⟨?_, kB, rfl⟩, ⟨?_, kB, rfl⟩, ⟨?_, kB, rfl⟩, ⟨?_, kB, rfl⟩, ⟨?_, kB, rfl⟩, ⟨?_, kB, rfl⟩,
    ?_, kB, rfl⟩ <;> decide

theorem mem_memFormats (k : MemKey) : k ∈ memFormats.map Prod.fst := by
  cases k <;> decide

/-- What `/proc/meminfo` says. -/
def memShown (lines : List KeyLine) : MemMetrics :=
  let val := fun k => lookup (memSlots.name k) lines
  { memTotalKb := val .memTotal
    memFreeKb := val .memFree
    memAvailableKb := val .memAvailable
    buffersKb := val .buffers
    cachedKb := val .cached
    swapTotalKb := val .swapTotal
    swapFreeKb := val .swapFree
    memUsagePct :=
      if 0 < val .memTotal then ⟨val .memTotal - val .memAvailable, val .memTotal, 1⟩ else {}
    swapUsagePct :=
      if 0 < val .swapTotal then ⟨val .swapTotal - val .swapFree, val .swapTotal, 1⟩ else {} }

/-- **The memory**: every field is the number of the last line with its key, whatever
other lines there are and however they are ordered. -/
theorem readMem_fileText {lines : List KeyLine} (hne : lines ≠ []) (hl : ∀ l ∈ lines, l.Plain)
    (hlen : (fileText lines).length < 8192) :
    Parser.readMem (some (fileText lines)) = some (memShown lines) := by
  have htext : fileText lines ≠ [] := by
    cases lines with
    | nil => exact absurd rfl hne
    | cons l ls => simp [fileText]
  have hval : ∀ k, memSlots.get k ((lines.map KeyLine.text).foldl Parser.readMemLine {}) =
      lookup (memSlots.name k) lines := by
    intro k
    rw [readMemLine_eq, memFormats_fit.get_foldl mem_memFormats k hl, lookup]
    cases k <;> rfl
  unfold Parser.readMem
  rw [read_some htext (by omega), Option.bind_eq_bind, Option.bind_some, strtokLines_fileText hl]
  simp only [memShown, ← hval]
  rfl

/-! ## `/proc/<pid>/status` -/

inductive StatusKey where
  | vmSize
  | vmRss
  | voluntary
  | nonvoluntary
deriving DecidableEq

def statusSlots : Slots StatusKey ProcessInfo where
  name
    | .vmSize => bytes "VmSize"
    | .vmRss => bytes "VmRSS"
    | .voluntary => bytes "voluntary_ctxt_switches"
    | .nonvoluntary => bytes "nonvoluntary_ctxt_switches"
  get
    | .vmSize => ProcessInfo.vmSizeKb
    | .vmRss => ProcessInfo.vmRssKb
    | .voluntary => ProcessInfo.voluntaryCtxtSwitches
    | .nonvoluntary => ProcessInfo.nonvoluntaryCtxtSwitches
  set
    | .vmSize => fun v p => { p with vmSizeKb := v }
    | .vmRss => fun v p => { p with vmRssKb := v }
    | .voluntary => fun v p => { p with voluntaryCtxtSwitches := v }
    | .nonvoluntary => fun v p => { p with nonvoluntaryCtxtSwitches := v }
  get_set k k' v p := by
    cases k <;> cases k' <;> rfl
  name_injective k k' h := by
    cases k <;> cases k' <;> first | rfl | exact absurd h (by decide)

/-- The formats of `proc_parser_read_process`, in the order of the source. -/
def statusFormats : List (StatusKey × String) :=
  [(.vmSize, "VmSize: %lu kB"), (.vmRss, "VmRSS: %lu kB"),
    (.voluntary, "voluntary_ctxt_switches: %lu"), (.nonvoluntary, "nonvoluntary_ctxt_switches: %lu")]

theorem readStatusLine_eq : Parser.readStatusLine = statusSlots.scanLine statusFormats := by
  rfl

theorem statusFormats_fit : statusSlots.Fits statusFormats := by
  unfold Slots.Fits statusFormats
  simp only [List.forall_mem_cons, List.not_mem_nil, false_imp_iff, implies_true, and_true]
  refine ⟨⟨?_, kB, rfl⟩, ⟨?_, kB, rfl⟩, ⟨?_, [], rfl⟩, ?_, [], rfl⟩ <;> decide

theorem mem_statusFormats (k : StatusKey) : k ∈ statusFormats.map Prod.fst := by
  cases k <;> decide

/-- A process, with what its status file says. -/
def withStatus (p : ProcessInfo) (lines : List KeyLine) : ProcessInfo :=
  let val := fun k => lookup (statusSlots.name k) lines
  { p with
    vmSizeKb := val .vmSize
    vmRssKb := val .vmRss
    voluntaryCtxtSwitches := val .voluntary
    nonvoluntaryCtxtSwitches := val .nonvoluntary }

/-- A process is what its line says and what its status file says. -/
theorem eq_of_statPart {p q : ProcessInfo} (h : statPart p = statPart q)
    (hget : ∀ k, statusSlots.get k p = statusSlots.get k q) : p = q := by
  have h1 := hget .vmSize
  have h2 := hget .vmRss
  have h3 := hget .voluntary
  have h4 := hget .nonvoluntary
  cases p
  cases q
  simp only [statPart, ProcessInfo.mk.injEq] at h
  simp only [statusSlots] at h1 h2 h3 h4
  simp_all

/-- **The status file**, or nothing where it cannot be read. -/
theorem readStatus_fileText {lines : List KeyLine} (hl : ∀ l ∈ lines, l.Plain)
    (hlen : (fileText lines).length < 4096) {p : ProcessInfo} (hp : p = statPart p) :
    Parser.readStatus p (some (fileText lines)) = withStatus p lines := by
  have hget : ∀ k, statusSlots.get k p = 0 := by
    intro k
    rw [hp]
    cases k <;> rfl
  by_cases hne : fileText lines = []
  · have hlines : lines = [] := by
      cases lines with
      | nil => rfl
      | cons l ls => simp [fileText] at hne
    subst hlines
    exact hp
  · apply eq_of_statPart
    · rw [statPart_readStatus]
      rfl
    · intro k
      unfold Parser.readStatus
      rw [read_some hne (by omega)]
      simp only
      rw [strtokLines_fileText hl, readStatusLine_eq,
        statusFormats_fit.get_foldl mem_statusFormats k hl, hget k]
      cases k <;> rfl

/-! ## `/proc/stat` -/

/-- The fields of the first line. -/
def jiffiesFields (c : CpuRawJiffies) : List (Option Conv × Int) :=
  c.counters.map fun n : Nat => (some .lu, (n : Int))

/-- The first line, and what comes behind it. -/
def jiffiesText (c : CpuRawJiffies) (tail : List UInt8) : List UInt8 :=
  bytes "cpu " ++ (StatLine.numbers (jiffiesFields c) ++ tail)

theorem numbers_length {fs : List (Option Conv × Int)} (h : ∀ f ∈ fs, f.2.natAbs < 10 ^ 20) :
    (StatLine.numbers fs).length ≤ 22 * fs.length := by
  induction fs with
  | nil => simp [StatLine.numbers]
  | cons f fs ih =>
    obtain ⟨hf, hfs⟩ := List.forall_mem_cons.mp h
    have hdigits := decimalInt_length (by decide : 0 < 20) hf
    have hcons : StatLine.numbers (f :: fs) = 32 :: decimalInt f.2 ++ StatLine.numbers fs := rfl
    rw [hcons, List.length_append, List.length_cons, List.length_cons]
    have := ih hfs
    omega

theorem store_counters {c : CpuRawJiffies} (hc : ∀ n ∈ c.counters, n < 2 ^ 64) :
    ((jiffiesFields c).flatMap fun f => (f.1.map fun k => k.store f.2).toList) =
      c.counters.map fun n : Nat => (n : Int) := by
  unfold jiffiesFields
  generalize c.counters = ns at hc
  induction ns with
  | nil => rfl
  | cons n ns ih =>
    obtain ⟨hn, hns⟩ := List.forall_mem_cons.mp hc
    rw [List.map_cons, List.map_cons, List.flatMap_cons, ih hns]
    show [Conv.store .lu (n : Int)] ++ _ = _
    rw [store_ulong hn]
    rfl

/-- What `sscanf` stores of the line. -/
theorem sscanf_jiffies {c : CpuRawJiffies} (hc : ∀ n ∈ c.counters, n < 2 ^ 64) {tail : List UInt8}
    (ht : NoDigit tail) :
    sscanf (jiffiesText c tail) "cpu %llu %llu %llu %llu %llu %llu %llu %llu" =
      c.counters.map fun n : Nat => (n : Int) := by
  have hformat : format "cpu %llu %llu %llu %llu %llu %llu %llu %llu".toList =
      (bytes "cpu").map .literal ++ (jiffiesFields c).flatMap fun f => [.blank, directive f.1] := by
    rfl
  have hprefix : bytes "cpu" <+: jiffiesText c tail := ⟨_, rfl⟩
  unfold sscanf
  rw [hformat, scan_literals, if_pos hprefix, ← store_counters hc, ← scan_numbers _ ht]
  -- the kernel prints one blank more, which the first blank of the format takes as well
  rfl

theorem read_jiffies {c : CpuRawJiffies} (hc : ∀ n ∈ c.counters, n < 2 ^ 64) (tail : List UInt8) :
    ∃ k, File.read (some (jiffiesText c tail)) 4095 = some (jiffiesText c (tail.take k)) := by
  have hlen : (StatLine.numbers (jiffiesFields c)).length ≤ 22 * 8 := by
    have hfields : ∀ f ∈ jiffiesFields c, f.2.natAbs < 10 ^ 20 := by
      intro f hf
      obtain ⟨n, hn, rfl⟩ := List.mem_map.mp hf
      have := hc n hn
      show (n : Int).natAbs < 10 ^ 20
      omega
    exact numbers_length hfields
  refine ⟨4095 - (bytes "cpu ").length - (StatLine.numbers (jiffiesFields c)).length, ?_⟩
  show some ((jiffiesText c tail).take 4095) = _
  have hcpu : (bytes "cpu ").length = 4 := rfl
  unfold jiffiesText
  rw [List.take_append, List.take_of_length_le (by omega), List.take_append,
    List.take_of_length_le (by omega)]

theorem noDigit_take {t : List UInt8} (h : NoDigit t) (k : Nat) : NoDigit (t.take k) := by
  cases t with
  | nil => simpa using noDigit_nil
  | cons b t =>
    cases k with
    | zero => exact noDigit_nil
    | succ k => exact noDigit_cons (h b t rfl) _

/-- **The counters**, also from a file that is longer than the buffer. -/
theorem parseCpu_text {c : CpuRawJiffies} (hsum : c.Summed) (hc : ∀ n ∈ c.counters, n < 2 ^ 64)
    {tail : List UInt8} (ht : NoDigit tail) :
    Parser.parseCpu (some (jiffiesText c tail)) = some c := by
  obtain ⟨k, hread⟩ := read_jiffies hc tail
  have hcstr : cstr (jiffiesText c (tail.take k)) = jiffiesText c (cstr (tail.take k)) := by
    have hnul : 0 ∉ bytes "cpu " ++ StatLine.numbers (jiffiesFields c) := by
      rw [List.mem_append, not_or]
      exact ⟨by decide, zero_not_mem_numbers _⟩
    unfold jiffiesText
    rw [← List.append_assoc, ← List.append_assoc]
    exact cstr_append hnul
  unfold Parser.parseCpu
  rw [hread, Option.bind_eq_bind, Option.bind_some, hcstr,
    sscanf_jiffies hc (noDigit_cstr (noDigit_take ht k))]
  obtain ⟨user, nice, system, idle, iowait, irq, softirq, steal, total⟩ := c
  have htotal : [nice, system, idle, iowait, irq, softirq, steal].foldl addULL user = total := by
    have hsum : total = (user + nice + system + idle + iowait + irq + softirq + steal) % 2 ^ 64 := hsum
    simp only [List.foldl_cons, List.foldl_nil, addULL]
    omega
  simp [CpuRawJiffies.counters, ← htotal]

end MemoryMonitor
