import MemoryMonitor.MetricsDocument
import MemoryMonitor.ProcFiles

/-! # What any snapshot holds

`/proc` may hold anything: the sampler reads bytes.  Whatever they are, what it stores are
values of their C types, names without a NUL that fit their arrays, and quotients whose
denominators are not 0.  So every snapshot can be printed, and the answer to a request
for the metrics is a JSON text that says what the snapshot says.
-/
namespace MemoryMonitor

open CString JsonText

/-! ## Conversions -/

/-- The values that a directive stores. -/
def Directive.Stores : Directive → Int → Prop
  | .int .d, v => -2 ^ 31 ≤ v ∧ v < 2 ^ 31
  | .int .ld, v => -2 ^ 63 ≤ v ∧ v < 2 ^ 63
  | .int .lu, v => 0 ≤ v ∧ v < 2 ^ 64
  | .char, v => 0 ≤ v ∧ v < 256
  | _, _ => False

/-- The directives that store something. -/
def storing (f : List Directive) : List Directive :=
  f.filter fun
    | .int _ => true
    | .char => true
    | _ => false

theorem toInt_range (n : Int) : -2 ^ 31 ≤ toInt n ∧ toInt n < 2 ^ 31 := by
  unfold toInt
  have h1 := Int.le_bmod (x := n) (m := 2 ^ 32) (by decide)
  have h2 := Int.bmod_lt (x := n) (m := 2 ^ 32) (by decide)
  omega

theorem store_range (c : Conv) (n : Int) : Directive.Stores (.int c) (c.store n) := by
  cases c with
  | d => exact toInt_range _
  | ld =>
    show -2 ^ 63 ≤ max longMin (min longMax n) ∧ max longMin (min longMax n) < 2 ^ 63
    unfold longMin longMax
    omega
  | lu =>
    show 0 ≤ (if n.natAbs < 2 ^ 64 then n % 2 ^ 64 else 2 ^ 64 - 1) ∧
      (if n.natAbs < 2 ^ 64 then n % 2 ^ 64 else 2 ^ 64 - 1) < 2 ^ 64
    split <;> omega

/-- **Each value is one of its directive.** -/
theorem scan_stores (f : List Directive) (s : List UInt8) :
    List.Forall₂ Directive.Stores ((storing f).take (scan f s).length) (scan f s) := by
  induction f generalizing s with
  | nil => exact .nil
  | cons d f ih =>
    cases d with
    | blank => exact ih _
    | literal b =>
      cases s with
      | nil => exact .nil
      | cons c t =>
        rw [scan]
        split
        · exact ih t
        · exact .nil
    | char =>
      cases s with
      | nil => exact .nil
      | cons c t =>
        refine .cons ⟨Int.natCast_nonneg _, ?_⟩ (ih t)
        have := UInt8.toNat_lt c
        omega
    | skip =>
      rw [scan]
      cases scanInt s with
      | none => exact .nil
      | some r => exact ih r.2
    | int c =>
      rw [scan]
      cases scanInt s with
      | none => exact .nil
      | some r => exact .cons (store_range c r.1) (ih r.2)

/-! ## Files of keyed lines -/

/-- The first thing a format stores is an unsigned number. -/
def ReadsUnsigned (fmt : String) : Prop := (storing (format fmt.toList)).head? = some (.int .lu)

theorem field_lt {fmt : String} (hfmt : ReadsUnsigned fmt) {line : List UInt8} {v : Nat}
    (h : Parser.field line fmt = some v) : v < 2 ^ 64 := by
  unfold ReadsUnsigned at hfmt
  unfold Parser.field sscanf at h
  have hstores := scan_stores (format fmt.toList) line
  cases hscan : scan (format fmt.toList) line with
  | nil =>
    rw [hscan] at h
    cases h
  | cons n ns =>
    rw [hscan] at h hstores
    cases hstoring : storing (format fmt.toList) with
    | nil =>
      rw [hstoring] at hfmt
      cases hfmt
    | cons d ds =>
      rw [hstoring] at hfmt hstores
      obtain rfl : d = .int .lu := Option.some.inj hfmt
      obtain rfl : n.toNat = v := Option.some.inj h
      cases hstores with
      | cons hn _ =>
        have hn : 0 ≤ n ∧ n < 2 ^ 64 := hn
        omega

namespace Slots
variable {K S : Type} [DecidableEq K]

/-- Every variable is an unsigned number. -/
def Bounded (slots : Slots K S) (s : S) : Prop := ∀ k, slots.get k s < 2 ^ 64

theorem Bounded.scanLine {slots : Slots K S} {formats : List (K × String)}
    (hf : ∀ f ∈ formats, ReadsUnsigned f.2) {s : S} (hs : slots.Bounded s) (line : List UInt8) :
    slots.Bounded (slots.scanLine formats s line) := by
  induction formats with
  | nil => exact hs
  | cons f formats ih =>
    unfold Slots.scanLine
    split
    · rename_i v hv
      intro k
      rw [slots.get_set]
      split
      · exact field_lt (hf f (List.mem_cons_self ..)) hv
      · exact hs k
    · exact ih fun g hg => hf g (List.mem_cons_of_mem _ hg)

theorem Bounded.foldl {slots : Slots K S} {formats : List (K × String)}
    (hf : ∀ f ∈ formats, ReadsUnsigned f.2) (lines : List (List UInt8)) {s : S}
    (hs : slots.Bounded s) : slots.Bounded (lines.foldl (slots.scanLine formats) s) := by
  induction lines generalizing s with
  | nil => exact hs
  | cons line lines ih => exact ih (hs.scanLine hf line)

end Slots

theorem memFormats_unsigned : ∀ f ∈ memFormats, ReadsUnsigned f.2 := by
  unfold memFormats
  simp only [List.forall_mem_cons, List.not_mem_nil, false_imp_iff, implies_true, and_true]
  exact ⟨rfl, rfl, rfl, rfl, rfl, rfl, rfl⟩

theorem statusFormats_unsigned : ∀ f ∈ statusFormats, ReadsUnsigned f.2 := by
  unfold statusFormats
  simp only [List.forall_mem_cons, List.not_mem_nil, false_imp_iff, implies_true, and_true]
  exact ⟨rfl, rfl, rfl, rfl⟩

theorem readMem_range {f : File} {m : MemMetrics} (h : Parser.readMem f = some m) :
    memSlots.Bounded m ∧ 0 < m.memUsagePct.den ∧ 0 < m.swapUsagePct.den := by
  unfold Parser.readMem at h
  obtain ⟨buf, -, h⟩ := Option.bind_eq_some_iff.mp h
  obtain rfl := Option.some.inj h
  have hb : memSlots.Bounded ((strtokLines (cstr buf)).foldl Parser.readMemLine {}) := by
    refine Slots.Bounded.foldl memFormats_unsigned _ fun k => ?_
    cases k <;> exact Nat.two_pow_pos 64
  refine ⟨fun k => ?_, ?_, ?_⟩
  · have := hb k
    cases k <;> exact this
  · simp only
    split
    · assumption
    · exact Nat.one_pos
  · simp only
    split
    · assumption
    · exact Nat.one_pos

theorem readStatus_range {p : ProcessInfo} (hp : statusSlots.Bounded p) (status : File) :
    statusSlots.Bounded (Parser.readStatus p status) := by
  unfold Parser.readStatus
  split
  · exact hp
  · exact Slots.Bounded.foldl statusFormats_unsigned _ hp

/-! ## Processes -/

theorem strrchr_lt {s : List UInt8} {c : UInt8} {i : Nat} (h : strrchr s c = some i) :
    i < s.length := by
  unfold strrchr at h
  obtain ⟨j, hj, rfl⟩ := Option.map_eq_some_iff.mp h
  have hlt := (List.findIdx?_eq_some_iff_findIdx_eq.mp hj).1
  rw [List.length_reverse] at hlt
  omega

/-- A part of the C string in a buffer has no NUL. -/
theorem zero_not_mem_part {buf : List UInt8} {start n : Nat} (h : start + n ≤ (cstr buf).length) :
    0 ∉ (buf.drop start).take n := by
  obtain ⟨rest, hrest⟩ : cstr buf <+: buf := List.takeWhile_prefix _
  have hpart : (buf.drop start).take n = ((cstr buf).drop start).take n := by
    rw [← hrest, List.drop_append_of_le_length (by omega), List.take_append_of_le_length]
    · rw [hrest]
    · rw [List.length_drop]
      omega
  rw [hpart]
  intro h0
  have hmem : 0 ∈ cstr buf := List.mem_of_mem_drop (List.mem_of_mem_take h0)
  simpa using List.mem_takeWhile_imp hmem

/-- The values of a line, if all eight are there. -/
theorem sscanf_stat {rest : List UInt8} {state ppid utime stime priority nice numThreads starttime : Int}
    (h : sscanf (cstr rest) ("%c %d %*d %*d %*d %*d %*u %*u %*u %*u %*u %llu %llu " ++
      "%*d %*d %ld %ld %ld %*d %llu") =
      [state, ppid, utime, stime, priority, nice, numThreads, starttime]) :
    (∃ c : UInt8, c ≠ 0 ∧ state = c.toNat) ∧ -2 ^ 63 ≤ numThreads ∧ numThreads < 2 ^ 63 := by
  unfold sscanf at h
  have hformat := stat_format StatLine.hostile
  have hstores := scan_stores (format ("%c %d %*d %*d %*d %*d %*u %*u %*u %*u %*u %llu %llu " ++
    "%*d %*d %ld %ld %ld %*d %llu").toList) (cstr rest)
  rw [h] at hstores
  constructor
  · rw [hformat] at h
    cases hrest : cstr rest with
    | nil =>
      rw [hrest] at h
      cases h
    | cons c t =>
      rw [hrest] at h
      refine ⟨c, ?_, (List.cons.inj h).1.symm⟩
      rintro rfl
      have hmem : 0 ∈ cstr rest := by
        rw [hrest]
        exact List.mem_cons_self ..
      simpa using List.mem_takeWhile_imp hmem
  · have hstoring : storing (format ("%c %d %*d %*d %*d %*d %*u %*u %*u %*u %*u %llu %llu " ++
        "%*d %*d %ld %ld %ld %*d %llu").toList) =
        [.char, .int .d, .int .lu, .int .lu, .int .ld, .int .ld, .int .ld, .int .lu] := by
      rfl
    rw [hstoring] at hstores
    simp only [List.length_cons, List.length_nil, List.take_succ_cons, List.take_nil,
      List.forall₂_cons] at hstores
    exact hstores.2.2.2.2.2.2.1

/-- A process that can be printed, but for its state. -/
def ProcessInfo.Sound (p : ProcessInfo) : Prop := p.Typed ∧ 0 < p.cpuUsagePct.den

/-- The status file adds numbers of their type. -/
theorem ProcessInfo.Sound.readStatus {p : ProcessInfo} (hp : p.Sound) (hb : statusSlots.Bounded p)
    (status : File) : (Parser.readStatus p status).Sound := by
  have hline := statPart_readStatus p status
  have hstatus := readStatus_range hb status
  generalize Parser.readStatus p status = q at *
  have hfields : q.pid = p.pid ∧ q.comm = p.comm ∧ q.state = p.state ∧
      q.numThreads = p.numThreads ∧ q.cpuUsagePct = p.cpuUsagePct := by
    simp only [statPart, ProcessInfo.mk.injEq] at hline
    tauto
  obtain ⟨hpid, hcomm, hstate, hthreads, hpct⟩ := hfields
  obtain ⟨T, hden⟩ := hp
  refine ⟨⟨?_, ?_, ?_, ?_, hstatus .vmRss, ?_⟩, ?_⟩
  · rw [hpid]
    exact T.pid
  · rw [hcomm]
    exact T.comm
  · rw [hcomm]
    exact T.comm_text
  · rw [hstate]
    exact T.state
  · rw [hthreads]
    exact T.numThreads
  · rw [hpct]
    exact hden

/-- **A process is sound**, whatever its files hold. -/
theorem readProcess_sound {pid : Int} (hpid : -2 ^ 31 ≤ pid ∧ pid < 2 ^ 31) {stat status : File}
    {p : ProcessInfo} (h : Parser.readProcess pid stat status = some p) : p.Sound := by
  unfold Parser.readProcess at h
  obtain ⟨buf, -, h⟩ := Option.bind_eq_some_iff.mp h
  obtain ⟨commStart, -, h⟩ := Option.bind_eq_some_iff.mp h
  obtain ⟨commEnd, hend, h⟩ := Option.bind_eq_some_iff.mp h
  have hcommEnd := strrchr_lt hend
  split at h
  · cases h
  simp only at h
  split at h
  · cases h
  split at h
  · rename_i hscan
    obtain ⟨⟨c, hc, rfl⟩, hthreads⟩ := sscanf_stat hscan
    obtain rfl := Option.some.inj h
    refine ProcessInfo.Sound.readStatus ⟨⟨hpid, ?_, ?_, ?_, Nat.two_pow_pos 64, hthreads⟩, Nat.one_pos⟩
      (fun k => by cases k <;> exact Nat.two_pow_pos 64) status
    · have := List.length_take_le (min (commEnd - (commStart + 1)) (maxCommLen - 1))
        (buf.drop (commStart + 1))
      refine Nat.lt_of_le_of_lt this ?_
      unfold maxCommLen
      omega
    · exact zero_not_mem_part (by omega)
    · show ((c.toNat : Int).toNat).toUInt8 ≠ 0
      rw [Int.toNat_natCast]
      simpa using hc
  · cases h

/-! ## Snapshots -/

/-- The state letters in the stat files are plain text.  Those of the kernel are. -/
def ProcFs.PlainStates (fs : ProcFs) : Prop :=
  ∀ es, fs.entries = some es → ∀ e ∈ es, ∀ p,
    Parser.readProcess (atoi e.name) e.stat e.status = some p → PlainByte p.state

namespace Parser
variable {g g' : Parser}

theorem cpuUsagePct_den (g : Parser) (p : ProcessInfo) : 0 < (g.cpuUsagePct p).den := by
  unfold cpuUsagePct
  split
  · rename_i hpos
    split
    · exact hpos
    · exact Nat.one_pos
  · exact Nat.one_pos

/-- Every process that the loop collects was read from an entry; the loop adds its shares. -/
theorem readdirLoop_mem (mem : MemMetrics) (es : List Entry) {s : Scan} {q : ProcessInfo}
    (hq : q ∈ (g.readdirLoop mem es s).procs) : q ∈ s.procs ∨ ∃ e ∈ es, ∃ p,
      readProcess (atoi e.name) e.stat e.status = some p ∧
      q = { p with cpuUsagePct := g.cpuUsagePct p, memUsagePct := q.memUsagePct } := by
  induction es generalizing s with
  | nil => exact Or.inl hq
  | cons e es ih =>
    have hlater : ∀ {s : Scan}, q ∈ (g.readdirLoop mem es s).procs → q ∈ s.procs ∨
        ∃ e' ∈ e :: es, ∃ p, readProcess (atoi e'.name) e'.stat e'.status = some p ∧
          q = { p with cpuUsagePct := g.cpuUsagePct p, memUsagePct := q.memUsagePct } := by
      intro s hq
      refine (ih hq).imp_right ?_
      rintro ⟨e', he', hp⟩
      exact ⟨e', List.mem_cons_of_mem _ he', hp⟩
    unfold readdirLoop at hq
    split at hq
    · exact hlater hq
    · split at hq
      · exact Or.inl hq
      · split at hq
        · exact hlater hq
        · rename_i p hp
          rcases hlater hq with hq | hread
          · rcases List.mem_append.mp hq with hq | hq
            · exact Or.inl hq
            · refine Or.inr ⟨e, List.mem_cons_self .., p, hp, ?_⟩
              rw [List.mem_singleton.mp hq]
              split
              · rfl
              · rfl
          · exact Or.inr hread

/-- What the loop collects is sound. -/
theorem readdirLoop_sound (mem : MemMetrics) (es : List Entry) {q : ProcessInfo}
    (hq : q ∈ (g.readdirLoop mem es {}).procs) : q.Sound := by
  rcases readdirLoop_mem mem es hq with hq | ⟨e, -, p, hp, hshares⟩
  · cases hq
  · obtain ⟨T, -⟩ := readProcess_sound (toInt_range _) hp
    rw [hshares]
    exact ⟨⟨T.pid, T.comm, T.comm_text, T.state, T.vmRssKb, T.numThreads⟩, g.cpuUsagePct_den p⟩

theorem readCpu_sound {stat : File} {cpu : CpuMetrics} (h : g.readCpu stat = some (cpu, g')) :
    cpu.coreCount = g.sysCoreCount ∧ 0 < cpu.totalUsagePct.den ∧ 0 < cpu.userPct.den ∧
      0 < cpu.systemPct.den ∧ 0 < cpu.idlePct.den := by
  unfold readCpu at h
  obtain ⟨c, -, h⟩ := Option.bind_eq_some_iff.mp h
  obtain ⟨rfl, -⟩ := Prod.mk.inj (Option.some.inj h)
  split
  · rename_i hpos
    exact ⟨rfl, hpos, hpos, hpos, hpos⟩
  · exact ⟨rfl, Nat.one_pos, Nat.one_pos, Nat.one_pos, Nat.one_pos⟩

/-- **Every snapshot is well formed**, and prints when the states of its processes do. -/
theorem takeSnapshot_sound {fs : ProcFs} {snap : SystemSnapshot}
    (h : g.takeSnapshot fs = (some snap, g'))
    (hcores : -2 ^ 31 ≤ g.sysCoreCount ∧ g.sysCoreCount < 2 ^ 31)
    (htime : -2 ^ 63 ≤ fs.time ∧ fs.time < 2 ^ 63) :
    snap.Typed ∧ ((∀ p ∈ snap.procs, PlainByte p.state) → snap.Printable) := by
  obtain ⟨cpu, g₁, mem, entries, hcpu, hmem, -, rfl⟩ := takeSnapshot_some h
  obtain ⟨hcore, h1, h2, h3, h4⟩ := readCpu_sound hcpu
  obtain ⟨hbounded, h5, h6⟩ := readMem_range hmem
  have hcount := g₁.readdirLoop_length mem entries (s := {}) (Nat.zero_le _)
  have hprocs : ∀ p ∈ (g₁.readdirLoop mem entries {}).procs, p.Sound := fun p hp =>
    readdirLoop_sound mem entries hp
  refine ⟨⟨hcount, fun p hp => (hprocs p hp).1, htime, ?_, hbounded .memTotal, hbounded .memAvailable,
    hbounded .memFree, hbounded .buffers, hbounded .cached, hbounded .swapTotal,
    hbounded .swapFree⟩, fun hstate => ⟨fun p hp => ⟨hstate p hp, (hprocs p hp).2⟩, h1, h2, h3, h4,
    h5, h6⟩⟩
  show -2 ^ 31 ≤ cpu.coreCount ∧ cpu.coreCount < 2 ^ 31
  rw [hcore]
  exact hcores

/-- **The states that a snapshot prints** are plain text if those of `/proc` are. -/
theorem takeSnapshot_states {fs : ProcFs} {snap : SystemSnapshot} (hfs : fs.PlainStates)
    (h : g.takeSnapshot fs = (some snap, g')) : ∀ p ∈ snap.procs, PlainByte p.state := by
  intro q hq
  obtain ⟨cpu, g₁, mem, entries, -, -, hentries, rfl⟩ := takeSnapshot_some h
  rcases readdirLoop_mem mem entries hq with hq | ⟨e, he, p, hp, hshares⟩
  · cases hq
  · rw [hshares]
    exact hfs entries hentries e he p hp

end Parser

/-! ## The answer -/

/-- The loop has printed every process, if it gets to the end. -/
theorem metricsLoop_some {h : Host} {ps : List ProcessInfo} {json json' : List UInt8} {cap cap' : Nat}
    (hloop : metricsLoop h ps (json, cap) = some (json', cap')) :
    json' = json ++ (entryTexts h (escapeJsonString · 1024) ps).flatten := by
  induction ps generalizing json cap with
  | nil =>
    obtain ⟨rfl, -⟩ := Prod.mk.inj (Option.some.inj hloop)
    simp [entryTexts]
  | cons p ps ih =>
    rw [metricsLoop] at hloop
    obtain ⟨cap₁, hnext⟩ : ∃ cap₁, (if cap₁ - json.length ≤ (metricsEntry h p ps.isEmpty).length then
        none else metricsLoop h ps (json ++ metricsEntry h p ps.isEmpty, cap₁)) =
        some (json', cap') := by
      split at hloop
      · split at hloop
        · exact ⟨_, hloop⟩
        · cases hloop
      · exact ⟨_, hloop⟩
    split at hnext
    · cases hnext
    · rw [ih hnext, metricsEntry_eq, entryTexts, List.flatten_cons, ← List.append_assoc]

/-- A snapshot that `%.2f` prints on a machine with memory. -/
def Host.roomy (h : Host) : Host := { h with alloc := fun _ => true }

theorem Host.Prints.roomy {h : Host} (P : h.Prints) : h.roomy.Roomy :=
  ⟨fun _ => rfl, P.fixed_length, P.fixed_text⟩

theorem entryTexts_roomy (h : Host) (spell : List UInt8 → List UInt8) (ps : List ProcessInfo) :
    entryTexts h.roomy spell ps = entryTexts h spell ps := by
  induction ps with
  | nil => rfl
  | cons p ps ih =>
    rw [entryTexts, entryTexts, ih]
    unfold entryAround
    rw [show h.roomy.fixed = h.fixed from rfl]

theorem printedBody_roomy (h : Host) (snap : SystemSnapshot) :
    printedBody h.roomy snap = printedBody h snap := by
  unfold printedBody printedTexts metricsHead
  rw [entryTexts_roomy, show h.roomy.fixed = h.fixed from rfl]

theorem printedBody_length {h : Host} (P : h.Prints) {snap : SystemSnapshot} (T : snap.Typed) :
    (printedBody h snap).length < 10 ^ 20 := by
  have hwhole := wholeBody_length P.roomy T
  rw [← printedBody_roomy]
  unfold wholeBody at hwhole
  unfold printedBody
  rw [List.length_append, List.length_append] at hwhole ⊢
  rcases entryTexts_length h.roomy snap.procs with hu | hlt
  · rw [printedTexts_eq hu]
    exact hwhole
  · unfold printedTexts
    omega

/-- The answers of `serve_metrics_json`: an error, or the printed body. -/
theorem serveMetricsJson_answers {s : GuiServer} {h : Host} {snap : SystemSnapshot} (P : h.Prints)
    (T : snap.Typed) (hs : s.latestSnapshot = some snap) :
    (∃ text, serveMetricsJson s h = sendResponse "500 Internal Server Error" "text/plain" text) ∨
      serveMetricsJson s h = answer200 (printedBody h snap) := by
  unfold serveMetricsJson
  rw [hs]
  dsimp only [Option.map_some, Option.getD_some]
  split
  · exact Or.inl ⟨_, rfl⟩
  split
  · exact Or.inl ⟨_, rfl⟩
  split
  · exact Or.inl ⟨_, rfl⟩
  · rename_i json cap hloop
    split
    · exact Or.inl ⟨_, rfl⟩
    · have hbody : json ++ bytes "  ]\n\x7d\n" = printedBody h snap := by
        rw [metricsLoop_some hloop]
        rfl
      have hnul := zero_not_mem_printedBody P.roomy T
      rw [printedBody_roomy] at hnul
      have hcstr := @cstr_append (printedBody h snap) [] hnul
      have hdigits := decimal_length (k := 20) (by decide) (printedBody_length P T)
      rw [List.append_nil, show cstr [] = [] from rfl, List.append_nil] at hcstr
      rw [hbody, hcstr, sendResponse_ok, if_neg (by omega)]
      exact Or.inr rfl

/-- **The metrics are a JSON document, and say what the snapshot says.**  Whatever bytes
`/proc` holds and whatever memory the server gets: the answer for a snapshot of the
sampler is an error, or the text of a JSON document that means the snapshot, and nothing
else.  Only the state letters are printed as they are read, with `%c`, and so must be plain
text: no control byte, quote or backslash.  The letters that the kernel prints are
(`takeSnapshot_states`). -/
theorem metrics_answer_means {s : GuiServer} {h : Host} (P : h.Prints) {g g' : Parser} {fs : ProcFs}
    {snap : SystemSnapshot} (htake : g.takeSnapshot fs = (some snap, g'))
    (hcores : -2 ^ 31 ≤ g.sysCoreCount ∧ g.sysCoreCount < 2 ^ 31)
    (htime : -2 ^ 63 ≤ fs.time ∧ fs.time < 2 ^ 63) (hstate : ∀ p ∈ snap.procs, PlainByte p.state)
    (hs : s.latestSnapshot = some snap) :
    (∃ text, serveMetricsJson s h = sendResponse "500 Internal Server Error" "text/plain" text) ∨
    ∃ body, serveMetricsJson s h = answer200 body ∧
      ∀ v, Means body v ↔ v = metricsValue h snap := by
  obtain ⟨T, hprint⟩ := Parser.takeSnapshot_sound htake hcores htime
  rcases serveMetricsJson_answers P T hs with herror | hok
  · exact Or.inl herror
  · have hmeans := printedBody_means P (hprint hstate)
    refine Or.inr ⟨_, hok, fun v => ⟨fun hv => hv.unique hmeans, ?_⟩⟩
    rintro rfl
    exact hmeans

theorem quietHost_prints : quietHost.Prints := by
  have hzero : (⟨false, .zero, some (0, [0]), none⟩ : Number).text = bytes "0.00" := by
    decide
  exact ⟨fun _ _ => ⟨_, hzero⟩, quietHost_roomy.fixed_length, quietHost_roomy.fixed_text⟩

/-- The only process of `found` sleeps. -/
theorem found_plainStates : (found "200" "50" meminfoText).PlainStates := by
  intro es hes e he p hp
  obtain rfl := Option.some.inj hes
  obtain rfl := List.mem_singleton.mp he
  have hstate : (Parser.readProcess (atoi (bytes "7")) (some (bytes "7 (sh) S 1 7 7 0 -1 0 0 0 0 0 " ++
      bytes "50" ++ bytes " 0 0 0 20 0 1 0 5")) none).map ProcessInfo.state = some 83 := by
    decide +kernel
  rw [hp] at hstate
  rw [Option.some.inj hstate]
  exact ⟨by decide, by decide, by decide⟩

theorem metrics_answer_means_first :
    ∃ snap g', firstMonitor.parser.takeSnapshot (found "200" "50" meminfoText) = (some snap, g') ∧
      snap.procs.map ProcessInfo.state = [83] ∧
      ((∃ text, serveMetricsJson ⟨[], some snap⟩ quietHost =
          sendResponse "500 Internal Server Error" "text/plain" text) ∨
        ∃ body, serveMetricsJson ⟨[], some snap⟩ quietHost = answer200 body ∧
          ∀ v, Means body v ↔ v = metricsValue quietHost snap) := by
  have hstates : (firstMonitor.parser.takeSnapshot (found "200" "50" meminfoText)).1.map
      (fun s => s.procs.map ProcessInfo.state) = some [83] := by
    decide +kernel
  obtain ⟨snap, hsnap, hprocs⟩ := Option.map_eq_some_iff.mp hstates
  have htake : firstMonitor.parser.takeSnapshot (found "200" "50" meminfoText) =
      (some snap, (firstMonitor.parser.takeSnapshot (found "200" "50" meminfoText)).2) := by
    rw [← hsnap]
  exact ⟨snap, _, htake, hprocs, metrics_answer_means quietHost_prints htake (by decide) (by decide)
    (Parser.takeSnapshot_states found_plainStates htake) rfl⟩

end MemoryMonitor
