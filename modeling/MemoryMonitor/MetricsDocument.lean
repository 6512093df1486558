import MemoryMonitor.JsonReader
import MemoryMonitor.MetricsJson

/-! # The metrics as a JSON document

`serve_metrics_json` prints its document with `snprintf`, piece by piece.  Whatever the
snapshot holds, the pieces are the text of one JSON value, and the value is the snapshot:
every number as it is, the processes in their order, and each name as far as it was
spelled.
-/
namespace MemoryMonitor

open CString JsonText

/-! ## Writing values -/

/-- A text of a value, of elements or of members. -/
def TextOf (k : Kind) (text : List UInt8) (m : Meaning k) : Prop :=
  ∃ t : Syn k, t.text = text ∧ t.meaning = some m

theorem bytes?_spelling (s : List UInt8) : bytes? (s.map spelling) = some s := by
  unfold bytes?
  rw [← unescape_inner, ← escaped_eq_inner, unescape_escaped]

theorem textOf_string (s : List UInt8) : TextOf .value (34 :: escaped s ++ [34]) (.string s) := by
  refine ⟨.string (s.map spelling), ?_, ?_⟩
  · rw [Syn.text, quoted, escaped_eq_inner]
  · rw [Syn.meaning, bytes?_spelling]
    rfl

theorem digitByte_mod (n : Nat) : digitByte ⟨n % 10, Nat.mod_lt n (by decide)⟩ = (48 + n % 10).toUInt8 := by
  rfl

/-- A number that is not 0 does not begin with `0`. -/
theorem decimal_digits {n : Nat} (h : 0 < n) :
    ∃ d ds, d ≠ 0 ∧ decimal n = digits (d :: ds) := by
  induction n using Nat.strongRecOn with
  | ind n ih =>
    rw [decimal_eq, ← digitByte_mod]
    split
    · rename_i hlt
      refine ⟨⟨n % 10, Nat.mod_lt n (by decide)⟩, [], ?_, rfl⟩
      intro h0
      have := congrArg Fin.val h0
      simp only at this
      omega
    · obtain ⟨d, ds, hd, heq⟩ := ih (n / 10) (by omega) (by omega)
      refine ⟨d, ds ++ [⟨n % 10, Nat.mod_lt n (by decide)⟩], hd, ?_⟩
      rw [heq]
      simp [digits]

theorem exists_whole (n : Nat) : ∃ w : Whole, w.text = decimal n := by
  rcases Nat.eq_zero_or_pos n with rfl | hn
  · exact ⟨.zero, by decide⟩
  · obtain ⟨d, ds, hd, heq⟩ := decimal_digits hn
    exact ⟨.pos d hd ds, heq.symm⟩

theorem exists_number (n : Int) : ∃ m : Number, m.text = decimalInt n := by
  obtain ⟨w, hw⟩ := exists_whole n.natAbs
  refine ⟨⟨decide (n < 0), w, none, none⟩, ?_⟩
  unfold Number.text Number.rest decimalInt
  rw [hw]
  by_cases hn : n < 0
  · simp [hn]
  · simp [hn]

theorem textOf_decimalInt (n : Int) : TextOf .value (decimalInt n) (.number (decimalInt n)) := by
  obtain ⟨m, hm⟩ := exists_number n
  exact ⟨.number m, hm, by rw [Syn.meaning, hm]⟩

theorem textOf_decimal (n : Nat) : TextOf .value (decimal n) (.number (decimal n)) := by
  have h := textOf_decimalInt n
  rwa [show decimalInt n = decimal n by simp [decimalInt]] at h

/-- A member: its key, the text of its value, and the value. -/
structure Field where
  key : List UInt8
  text : List UInt8
  value : Json

namespace Field

def Ok (f : Field) : Prop := TextOf .value f.text f.value

/-- The text of members, with the blanks before the first, before the others, and after
the last. -/
def membersText (last : List Blank) (sep : List Blank) : List Blank → Field → List Field → List UInt8
  | w, f, [] => blanks w ++ (34 :: escaped f.key ++ [34, 58, 32]) ++ f.text ++ blanks last
  | w, f, f' :: fs =>
    blanks w ++ (34 :: escaped f.key ++ [34, 58, 32]) ++ f.text ++
      44 :: membersText last sep sep f' fs

def entry (f : Field) : List UInt8 × Json := (f.key, f.value)

theorem textOf_members {last sep : List Blank} (w : List Blank) {f : Field} {fs : List Field}
    (h : ∀ g ∈ f :: fs, g.Ok) :
    TextOf .members (membersText last sep w f fs) ((f :: fs).map entry) := by
  induction fs generalizing w f with
  | nil =>
    obtain ⟨t, htext, hmeaning⟩ := h f (List.mem_cons_self ..)
    refine ⟨.member w (f.key.map spelling) [] [.space] t last, ?_, ?_⟩
    · rw [Syn.text, htext, quoted, ← escaped_eq_inner, membersText]
      simp [blanks, Blank.byte]
    · rw [Syn.meaning, bytes?_spelling, hmeaning]
      rfl
  | cons f' fs ih =>
    obtain ⟨t, htext, hmeaning⟩ := h f (List.mem_cons_self ..)
    obtain ⟨ts, htexts, hmeanings⟩ := ih sep fun g hg => h g (List.mem_cons_of_mem _ hg)
    refine ⟨.members w (f.key.map spelling) [] [.space] t [] ts, ?_, ?_⟩
    · rw [Syn.text, htext, htexts, quoted, ← escaped_eq_inner, membersText]
      simp [blanks, Blank.byte]
    · rw [Syn.meaning, bytes?_spelling, hmeaning, hmeanings]
      rfl

/-- The text of an object with members. -/
def objectText (first sep last : List Blank) (f : Field) (fs : List Field) : List UInt8 :=
  123 :: membersText last sep first f fs ++ [125]

theorem textOf_object {first sep last : List Blank} {f : Field} {fs : List Field}
    (h : ∀ g ∈ f :: fs, g.Ok) :
    TextOf .value (objectText first sep last f fs) (.object ((f :: fs).map entry)) := by
  obtain ⟨t, htext, hmeaning⟩ := textOf_members first h
  refine ⟨.object t, ?_, ?_⟩
  · rw [Syn.text, htext, objectText]
  · rw [Syn.meaning, hmeaning]
    rfl

end Field

/-! ## A process -/

/-- What `%.2f` prints for a quotient is a JSON number, and short. -/
structure Host.Prints (h : Host) : Prop where
  number : ∀ p : Percent, 0 < p.den → ∃ n : Number, n.text = h.fixed p
  fixed_length : ∀ p, (h.fixed p).length ≤ 42
  fixed_text : ∀ p, 0 ∉ h.fixed p

theorem Host.Prints.textOf {h : Host} (P : h.Prints) {p : Percent} (hp : 0 < p.den) :
    TextOf .value (h.fixed p) (.number (h.fixed p)) := by
  obtain ⟨n, hn⟩ := P.number p hp
  exact ⟨.number n, hn, by rw [Syn.meaning, hn]⟩

/-- The bytes that stand for themselves in a string. -/
def PlainByte (b : UInt8) : Prop := 32 ≤ b ∧ b ≠ 34 ∧ b ≠ 92

theorem escapeByte_plain {b : UInt8} (h : PlainByte b) : escapeByte b = [b] := by
  have hall : ∀ b : UInt8, (32 ≤ b ∧ b ≠ 34 ∧ b ≠ 92) → escapeByte b = [b] := by
    refine forall_byte ?_
    decide +kernel
  exact hall b h

/-- The part of a name that is spelled. -/
def shownComm (comm : List UInt8) : List UInt8 := comm.take (spelledCount 1024 0 comm)

theorem escapeJsonString_shown (comm : List UInt8) :
    escapeJsonString comm 1024 = escaped (shownComm comm) := escapeLoop_eq 1024 0 comm

/-- The members of a process. -/
def entryFields (h : Host) (p : ProcessInfo) : List Field :=
  [⟨bytes "comm", 34 :: escaped (shownComm p.comm) ++ [34], .string (shownComm p.comm)⟩,
    ⟨bytes "state", [34, p.state, 34], .string [p.state]⟩,
    ⟨bytes "cpu_pct", h.fixed p.cpuUsagePct, .number (h.fixed p.cpuUsagePct)⟩,
    ⟨bytes "mem_rss_kb", decimal p.vmRssKb, .number (decimal p.vmRssKb)⟩,
    ⟨bytes "threads", decimalInt p.numThreads, .number (decimalInt p.numThreads)⟩]

def pidField (p : ProcessInfo) : Field := ⟨bytes "pid", decimalInt p.pid, .number (decimalInt p.pid)⟩

/-- The object of a process. -/
def entryObject (h : Host) (p : ProcessInfo) : List UInt8 :=
  Field.objectText [] [.space] [] (pidField p) (entryFields h p)

/-- The value of a process. -/
def entryValue (h : Host) (p : ProcessInfo) : Json :=
  .object ((pidField p :: entryFields h p).map Field.entry)

theorem entryAround_eq (h : Host) (p : ProcessInfo) (last : Bool) :
    entryAround h p last (escapeJsonString p.comm 1024) =
      blanks [.space, .space, .space, .space] ++ entryObject h p ++
        (if last then [] else [44]) ++ [10] := by
  rw [escapeJsonString_shown]
  unfold entryAround entryObject Field.objectText entryFields pidField
  simp only [Field.membersText, List.append_assoc, List.cons_append, List.nil_append]
  rfl

theorem textOf_entry {h : Host} (P : h.Prints) {p : ProcessInfo} (hstate : PlainByte p.state)
    (hpct : 0 < p.cpuUsagePct.den) : TextOf .value (entryObject h p) (entryValue h p) := by
  refine Field.textOf_object ?_
  unfold entryFields pidField
  simp only [List.forall_mem_cons, List.not_mem_nil, false_imp_iff, implies_true, and_true]
  refine ⟨textOf_decimalInt _, textOf_string _, ?_, P.textOf hpct, textOf_decimal _, textOf_decimalInt _⟩
  have hs := textOf_string [p.state]
  rwa [show escaped [p.state] = [p.state] by simp [escaped, escapeByte_plain hstate]] at hs

/-! ## The processes -/

/-- The blanks before a process, and before the closing bracket. -/
def entryGap : List Blank := [.lf, .space, .space, .space, .space]
def lineGap : List Blank := [.lf, .space, .space]

/-- The text of processes between the brackets. -/
def elementsText (h : Host) : ProcessInfo → List ProcessInfo → List UInt8
  | p, [] => blanks entryGap ++ entryObject h p ++ blanks lineGap
  | p, q :: qs => blanks entryGap ++ entryObject h p ++ 44 :: elementsText h q qs

/-- The loop prints a line break behind each process; it belongs to the next one. -/
theorem elementsText_eq (h : Host) (p : ProcessInfo) (ps : List ProcessInfo) :
    10 :: (entryTexts h (escapeJsonString · 1024) (p :: ps)).flatten ++ [32, 32] =
      elementsText h p ps := by
  induction ps generalizing p with
  | nil =>
    rw [entryTexts, entryTexts, entryAround_eq, elementsText]
    simp [entryGap, lineGap, blanks, Blank.byte]
  | cons q qs ih =>
    rw [entryTexts, entryAround_eq, elementsText, ← ih q]
    simp [entryGap, blanks, Blank.byte]

/-- The processes of a snapshot print as they should: a state is a letter, and a
percentage a quotient. -/
structure ProcessInfo.Printable (p : ProcessInfo) : Prop where
  state : PlainByte p.state
  cpu : 0 < p.cpuUsagePct.den

theorem textOf_elements {h : Host} (P : h.Prints) {p : ProcessInfo} {ps : List ProcessInfo}
    (hp : ∀ q ∈ p :: ps, q.Printable) :
    TextOf .elements (elementsText h p ps) ((p :: ps).map (entryValue h)) := by
  induction ps generalizing p with
  | nil =>
    obtain ⟨t, htext, hmeaning⟩ := textOf_entry P (hp p (List.mem_cons_self ..)).state
      (hp p (List.mem_cons_self ..)).cpu
    refine ⟨.element entryGap t lineGap, ?_, ?_⟩
    · rw [Syn.text, htext, elementsText]
    · rw [Syn.meaning, hmeaning]
      rfl
  | cons q qs ih =>
    obtain ⟨t, htext, hmeaning⟩ := textOf_entry P (hp p (List.mem_cons_self ..)).state
      (hp p (List.mem_cons_self ..)).cpu
    obtain ⟨ts, htexts, hmeanings⟩ := ih fun r hr => hp r (List.mem_cons_of_mem _ hr)
    refine ⟨.elements entryGap t [] ts, ?_, ?_⟩
    · rw [Syn.text, htext, htexts, elementsText]
      simp [blanks]
    · rw [Syn.meaning, hmeaning, hmeanings]
      rfl

/-- The array of the processes. -/
def processesText (h : Host) (ps : List ProcessInfo) : List UInt8 :=
  91 :: (10 :: (entryTexts h (escapeJsonString · 1024) ps).flatten ++ [32, 32]) ++ [93]

theorem textOf_processes {h : Host} (P : h.Prints) {ps : List ProcessInfo}
    (hp : ∀ p ∈ ps, p.Printable) :
    TextOf .value (processesText h ps) (.array (ps.map (entryValue h))) := by
  cases ps with
  | nil => exact ⟨.emptyArray lineGap, rfl, rfl⟩
  | cons p ps =>
    obtain ⟨t, htext, hmeaning⟩ := textOf_elements P hp
    refine ⟨.array t, ?_, ?_⟩
    · rw [Syn.text, htext, processesText, elementsText_eq]
    · rw [Syn.meaning, hmeaning]
      rfl

/-! ## The document -/

/-- The percentages of a snapshot are quotients, and its processes print. -/
structure SystemSnapshot.Printable (snap : SystemSnapshot) : Prop where
  procs : ∀ p ∈ snap.procs, p.Printable
  totalUsagePct : 0 < snap.cpu.totalUsagePct.den
  userPct : 0 < snap.cpu.userPct.den
  systemPct : 0 < snap.cpu.systemPct.den
  idlePct : 0 < snap.cpu.idlePct.den
  memUsagePct : 0 < snap.mem.memUsagePct.den
  swapUsagePct : 0 < snap.mem.swapUsagePct.den

/-- A member that is a number of `%d` or `%ld`. -/
def intField (key : String) (n : Int) : Field := ⟨bytes key, decimalInt n, .number (decimalInt n)⟩

/-- A member that is a number of `%lu`. -/
def natField (key : String) (n : Nat) : Field := ⟨bytes key, decimal n, .number (decimal n)⟩

/-- A member that is a percentage. -/
def pctField (h : Host) (key : String) (p : Percent) : Field :=
  ⟨bytes key, h.fixed p, .number (h.fixed p)⟩

def cpuFields (h : Host) (cpu : CpuMetrics) : List Field :=
  [pctField h "total_usage_pct" cpu.totalUsagePct, pctField h "user_pct" cpu.userPct,
    pctField h "system_pct" cpu.systemPct, pctField h "idle_pct" cpu.idlePct,
    intField "core_count" cpu.coreCount]

def memFields (h : Host) (mem : MemMetrics) : List Field :=
  [natField "mem_total_kb" mem.memTotalKb, natField "mem_available_kb" mem.memAvailableKb,
    natField "mem_free_kb" mem.memFreeKb, natField "buffers_kb" mem.buffersKb,
    natField "cached_kb" mem.cachedKb, pctField h "mem_usage_pct" mem.memUsagePct,
    natField "swap_total_kb" mem.swapTotalKb, natField "swap_free_kb" mem.swapFreeKb,
    pctField h "swap_usage_pct" mem.swapUsagePct]

/-- An object on one line. -/
def lineObject (key : String) (fields : List Field) : Field :=
  match fields with
  | [] => ⟨bytes key, bytes "\x7b\x7d", .object []⟩
  | f :: fs => ⟨bytes key, Field.objectText [] [.space] [] f fs, .object ((f :: fs).map Field.entry)⟩

def boolField (key : String) (b : Bool) : Field :=
  ⟨bytes key, if b then bytes "true" else bytes "false", .bool b⟩

/-- The members of the document. -/
def documentFields (h : Host) (snap : SystemSnapshot) : List Field :=
  [boolField "truncated" snap.truncated, lineObject "cpu" (cpuFields h snap.cpu),
    lineObject "mem" (memFields h snap.mem),
    ⟨bytes "processes", processesText h snap.procs, .array (snap.procs.map (entryValue h))⟩]

/-- **What the metrics say**: the snapshot. -/
def metricsValue (h : Host) (snap : SystemSnapshot) : Json :=
  .object ((intField "timestamp" snap.timestamp :: documentFields h snap).map Field.entry)

set_option maxRecDepth 4000 in
-- one step for each byte of the head
theorem printedBody_eq (h : Host) (snap : SystemSnapshot) :
    printedBody h snap = Field.objectText lineGap lineGap [.lf]
      (intField "timestamp" snap.timestamp) (documentFields h snap) ++ [10] := by
  unfold printedBody printedTexts metricsHead metricsTail Field.objectText documentFields
    processesText lineObject cpuFields memFields intField natField pctField boolField
  dsimp only [Option.map_some, Option.getD_some]
  simp only [Field.membersText, Field.objectText, List.append_assoc, List.cons_append,
    List.nil_append]
  rfl

theorem intField_ok (key : String) (n : Int) : (intField key n).Ok := textOf_decimalInt n

theorem natField_ok (key : String) (n : Nat) : (natField key n).Ok := textOf_decimal n

theorem boolField_ok (key : String) (b : Bool) : (boolField key b).Ok := by
  cases b with
  | true => exact ⟨.literal .true, rfl, rfl⟩
  | false => exact ⟨.literal .false, rfl, rfl⟩

theorem lineObject_ok (key : String) {fields : List Field} (h : ∀ f ∈ fields, f.Ok) :
    (lineObject key fields).Ok := by
  cases fields with
  | nil => exact ⟨.emptyObject [], rfl, rfl⟩
  | cons f fs => exact Field.textOf_object h

theorem documentFields_ok {h : Host} (P : h.Prints) {snap : SystemSnapshot} (S : snap.Printable) :
    ∀ f ∈ documentFields h snap, f.Ok := by
  have hpct : ∀ {key : String} {p : Percent}, 0 < p.den → (pctField h key p).Ok := fun hp => P.textOf hp
  have hcpu : ∀ f ∈ cpuFields h snap.cpu, f.Ok := by
    unfold cpuFields
    simp only [List.forall_mem_cons, List.not_mem_nil, false_imp_iff, implies_true, and_true]
    exact ⟨hpct S.totalUsagePct, hpct S.userPct, hpct S.systemPct, hpct S.idlePct, intField_ok _ _⟩
  have hmem : ∀ f ∈ memFields h snap.mem, f.Ok := by
    unfold memFields
    simp only [List.forall_mem_cons, List.not_mem_nil, false_imp_iff, implies_true, and_true,
      natField_ok, true_and]
    exact ⟨hpct S.memUsagePct, hpct S.swapUsagePct⟩
  unfold documentFields
  simp only [List.forall_mem_cons, List.not_mem_nil, false_imp_iff, implies_true, and_true]
  exact ⟨boolField_ok _ _, lineObject_ok _ hcpu, lineObject_ok _ hmem, textOf_processes P S.procs⟩

/-- **The printed body is a JSON text**, and means the snapshot. -/
theorem printedBody_means {h : Host} (P : h.Prints) {snap : SystemSnapshot} (S : snap.Printable) :
    Means (printedBody h snap) (metricsValue h snap) := by
  have hfields : ∀ f ∈ intField "timestamp" snap.timestamp :: documentFields h snap, f.Ok :=
    List.forall_mem_cons.mpr ⟨intField_ok _ _, documentFields_ok P S⟩
  obtain ⟨t, htext, hmeaning⟩ := @Field.textOf_object lineGap lineGap [.lf] _ _ hfields
  refine ⟨[], t, [.lf], ?_, hmeaning⟩
  rw [htext, printedBody_eq]
  rfl

end MemoryMonitor
