import MemoryMonitor.Printing

/-! # The line of `/proc/<pid>/stat`

`do_task_stat` of the kernel prints the pid, the name in parentheses, the state letter
and then numbers, one blank before each.  The name is printed as it is.  It may hold
anything but a NUL, and only its outermost parentheses say where it begins and ends:
nothing before it is a parenthesis, and nothing after it is a closing one.
-/
namespace MemoryMonitor

open CString

/-- The line, up to the last field that `proc_parser_read_process` reads. -/
structure StatLine where
  pid : Int
  name : List UInt8
  state : UInt8
  ppid : Int
  pgrp : Int
  session : Int
  ttyNr : Int
  tpgid : Int
  flags : Nat
  minflt : Nat
  cminflt : Nat
  majflt : Nat
  cmajflt : Nat
  utime : Nat
  stime : Nat
  cutime : Int
  cstime : Int
  priority : Int
  nice : Int
  numThreads : Int
  itrealvalue : Int
  starttime : Nat

namespace StatLine

/-- The fields from the fourth on, each with the conversion that reads it, if one stores
it. -/
def fields (l : StatLine) : List (Option Conv × Int) :=
  [(some .d, l.ppid), (none, l.pgrp), (none, l.session), (none, l.ttyNr), (none, l.tpgid),
    (none, l.flags), (none, l.minflt), (none, l.cminflt), (none, l.majflt), (none, l.cmajflt),
    (some .lu, l.utime), (some .lu, l.stime), (none, l.cutime), (none, l.cstime),
    (some .ld, l.priority), (some .ld, l.nice), (some .ld, l.numThreads), (none, l.itrealvalue),
    (some .lu, l.starttime)]

/-- The numbers, a blank before each. -/
def numbers (fs : List (Option Conv × Int)) : List UInt8 := fs.flatMap fun f => 32 :: decimalInt f.2

/-- The line after the name, and what comes behind it. -/
def rest (l : StatLine) (tail : List UInt8) : List UInt8 := l.state :: (numbers l.fields ++ tail)

/-- The text of the file. -/
def text (l : StatLine) (tail : List UInt8) : List UInt8 :=
  (decimalInt l.pid ++ [32]) ++ 40 :: (l.name ++ 41 :: 32 :: l.rest tail)

/-- The fields that are stored are values of their C types. -/
structure Typed (l : StatLine) : Prop where
  ppid : -2 ^ 31 ≤ l.ppid ∧ l.ppid < 2 ^ 31
  utime : l.utime < 2 ^ 64
  stime : l.stime < 2 ^ 64
  priority : -2 ^ 63 ≤ l.priority ∧ l.priority < 2 ^ 63
  nice : -2 ^ 63 ≤ l.nice ∧ l.nice < 2 ^ 63
  numThreads : -2 ^ 63 ≤ l.numThreads ∧ l.numThreads < 2 ^ 63
  starttime : l.starttime < 2 ^ 64

end StatLine

/-! ## The conversions -/

/-- The directive of a field. -/
def directive : Option Conv → Directive
  | some c => .int c
  | none => .skip

theorem scan_field (c : Option Conv) (n : Int) (f : List Directive) {t : List UInt8}
    (ht : NoDigit t) :
    scan (.blank :: directive c :: f) (32 :: decimalInt n ++ t) =
      (c.map fun c => c.store n).toList ++ scan f t := by
  have hread : scanInt ((32 :: decimalInt n ++ t).dropWhile isSpace) = some (n, t) := by
    rw [List.cons_append, List.dropWhile_cons_of_pos (by decide), dropWhile_decimalInt]
    exact scanInt_decimalInt [] (by simp) n ht
  cases c with
  | none =>
    rw [scan, directive, scan, hread]
    rfl
  | some c =>
    rw [scan, directive, scan, hread]
    rfl

/-- **The numbers of a line are read one by one**: those that are skipped leave nothing
behind, and the digits of each end at the blank before the next. -/
theorem scan_numbers (fs : List (Option Conv × Int)) {tail : List UInt8} (ht : NoDigit tail) :
    scan (fs.flatMap fun f => [.blank, directive f.1]) (StatLine.numbers fs ++ tail) =
      fs.flatMap fun f => (f.1.map fun c => c.store f.2).toList := by
  induction fs with
  | nil => rfl
  | cons f fs ih =>
    have hnext : NoDigit (StatLine.numbers fs ++ tail) := by
      cases fs with
      | nil => exact ht
      | cons g gs => exact noDigit_cons (by decide) _
    show scan (.blank :: directive f.1 :: (fs.flatMap fun f => [.blank, directive f.1]))
      ((32 :: decimalInt f.2 ++ StatLine.numbers fs) ++ tail) = _
    rw [List.append_assoc, scan_field _ _ _ hnext, ih]
    rfl

theorem store_int {n : Int} (h : -2 ^ 31 ≤ n ∧ n < 2 ^ 31) : Conv.store .d n = n := by
  show Int.bmod (max (-2 ^ 63) (min (2 ^ 63 - 1) n)) (2 ^ 32) = n
  rw [show max (-2 ^ 63) (min (2 ^ 63 - 1) n) = n by omega]
  exact Int.bmod_eq_of_le (by omega) (by omega)

theorem store_long {n : Int} (h : -2 ^ 63 ≤ n ∧ n < 2 ^ 63) : Conv.store .ld n = n := by
  show max (-2 ^ 63) (min (2 ^ 63 - 1) n) = n
  omega

theorem store_ulong {n : Nat} (h : n < 2 ^ 64) : Conv.store .lu n = n := by
  show (if (n : Int).natAbs < 2 ^ 64 then (n : Int) % 2 ^ 64 else 2 ^ 64 - 1) = (n : Int)
  rw [if_pos (by omega)]
  omega

/-- The format of `proc_parser_read_process`, against the fields of the line. -/
theorem stat_format (l : StatLine) :
    format ("%c %d %*d %*d %*d %*d %*u %*u %*u %*u %*u %llu %llu " ++
      "%*d %*d %ld %ld %ld %*d %llu").toList =
      .char :: l.fields.flatMap fun f => [.blank, directive f.1] := by
  rfl

/-- What `sscanf` stores of a line. -/
theorem sscanf_rest {l : StatLine} (hl : l.Typed) {tail : List UInt8} (ht : NoDigit tail) :
    sscanf (l.rest tail) ("%c %d %*d %*d %*d %*d %*u %*u %*u %*u %*u %llu %llu " ++
      "%*d %*d %ld %ld %ld %*d %llu") =
      [(l.state.toNat : Int), l.ppid, l.utime, l.stime, l.priority, l.nice, l.numThreads,
        l.starttime] := by
  unfold sscanf
  rw [stat_format l]
  show (l.state.toNat : Int) :: scan _ (StatLine.numbers l.fields ++ tail) = _
  rw [scan_numbers l.fields ht]
  show [(l.state.toNat : Int), Conv.store .d l.ppid, Conv.store .lu l.utime, Conv.store .lu l.stime,
    Conv.store .ld l.priority, Conv.store .ld l.nice, Conv.store .ld l.numThreads,
    Conv.store .lu l.starttime] = _
  rw [store_int hl.ppid, store_ulong hl.utime, store_ulong hl.stime, store_long hl.priority,
    store_long hl.nice, store_long hl.numThreads, store_ulong hl.starttime]

/-! ## The parentheses -/

theorem strchr_append {a b : List UInt8} {c : UInt8} (h : c ∉ a) :
    strchr (a ++ c :: b) c = some a.length := by
  unfold strchr
  induction a with
  | nil =>
    rw [List.nil_append, List.findIdx?_cons, if_pos (by simp)]
    rfl
  | cons d a ih =>
    rw [List.mem_cons, not_or] at h
    rw [List.cons_append, List.findIdx?_cons, if_neg (by simpa using Ne.symm h.1), ih h.2]
    rfl

theorem strrchr_append {a b : List UInt8} {c : UInt8} (h : c ∉ b) :
    strrchr (a ++ c :: b) c = some a.length := by
  have hrev := strchr_append (a := b.reverse) (b := a.reverse) (c := c) (by simpa using h)
  unfold strchr at hrev
  unfold strrchr
  rw [List.reverse_append, List.reverse_cons, List.append_assoc, List.singleton_append, hrev]
  simp

theorem noDigit_cstr {t : List UInt8} (h : NoDigit t) : NoDigit (cstr t) := by
  cases t with
  | nil => exact noDigit_nil
  | cons c s =>
    unfold cstr
    rw [List.takeWhile_cons]
    split
    · exact noDigit_cons (h c s rfl) _
    · exact noDigit_nil

/-- The bytes of the numbers of a line. -/
theorem mem_numbers {fs : List (Option Conv × Int)} {b : UInt8} (h : b ∈ StatLine.numbers fs) :
    b = 32 ∨ b = 45 ∨ isDigit b = true := by
  obtain ⟨f, -, hb⟩ := List.mem_flatMap.mp h
  rcases List.mem_cons.mp hb with rfl | hb
  · exact Or.inl rfl
  · exact Or.inr (mem_decimalInt hb)

theorem zero_not_mem_numbers (fs : List (Option Conv × Int)) : 0 ∉ StatLine.numbers fs := by
  intro h
  rcases mem_numbers h with h | h | h
  · cases h
  · cases h
  · exact (isDigit_plain h).2.2.2.1 rfl

theorem not_mem_pid (n : Int) {b : UInt8} (h : b = 0 ∨ b = 40) : b ∉ decimalInt n ++ [32] := by
  intro hb
  rcases List.mem_append.mp hb with hb | hb
  · rcases mem_decimalInt hb with rfl | hd
    · rcases h with h | h <;> cases h
    · have hp := isDigit_plain hd
      rcases h with h | h
      · exact hp.2.2.2.1 h
      · exact hp.2.2.2.2.1 h
  · rcases h with rfl | rfl <;> cases hb with
    | tail _ hb => cases hb

/-! ## The status file -/

/-- What comes from the line, without what `/proc/<pid>/status` adds. -/
def statPart (p : ProcessInfo) : ProcessInfo :=
  { p with vmSizeKb := 0, vmRssKb := 0, voluntaryCtxtSwitches := 0, nonvoluntaryCtxtSwitches := 0 }

theorem statPart_readStatusLine (p : ProcessInfo) (line : List UInt8) :
    statPart (Parser.readStatusLine p line) = statPart p := by
  unfold Parser.readStatusLine
  repeat' split
  all_goals rfl

theorem statPart_readStatus (p : ProcessInfo) (status : File) :
    statPart (Parser.readStatus p status) = statPart p := by
  unfold Parser.readStatus
  cases status.read 4095 with
  | none => rfl
  | some buf =>
    show statPart ((strtokLines (cstr buf)).foldl Parser.readStatusLine p) = statPart p
    induction strtokLines (cstr buf) generalizing p with
    | nil => rfl
    | cons line ls ih => rw [List.foldl_cons, ih, statPart_readStatusLine]

/-! ## The round trip -/

namespace StatLine

/-- What `proc_parser_read_process` makes of a line. -/
def info (l : StatLine) : ProcessInfo where
  pid := l.pid
  ppid := l.ppid
  comm := l.name.take 255
  state := l.state
  utime := l.utime
  stime := l.stime
  totalTime := (l.utime + l.stime) % 2 ^ 64
  priority := l.priority
  nice := l.nice
  numThreads := l.numThreads
  starttimeTicks := l.starttime

/-- Where the parentheses are, in a text with no closing one after the name. -/
theorem parens {l : StatLine} {tail : List UInt8} (hname : 0 ∉ l.name) (hstate : l.state ≠ 0)
    (hparen : 41 ∉ l.rest tail) :
    strchr (cstr (l.text tail)) 40 = some ((decimalInt l.pid).length + 1) ∧
    strrchr (cstr (l.text tail)) 41 = some ((decimalInt l.pid).length + 2 + l.name.length) := by
  have hline : cstr (l.text tail) =
      (decimalInt l.pid ++ [32]) ++ 40 :: (l.name ++ 41 :: 32 :: l.rest (cstr tail)) := by
    have hnul : 0 ∉ (decimalInt l.pid ++ [32]) ++ 40 :: (l.name ++ 41 :: 32 :: l.state ::
        numbers l.fields) := by
      simp only [List.mem_append, List.mem_cons, not_or]
      refine ⟨?_, by decide, hname, by decide, by decide, Ne.symm hstate, zero_not_mem_numbers _⟩
      simpa using not_mem_pid l.pid (Or.inl rfl)
    have hsplit : l.text tail = ((decimalInt l.pid ++ [32]) ++ 40 :: (l.name ++ 41 :: 32 :: l.state ::
        numbers l.fields)) ++ tail := by
      simp [text, rest]
    rw [hsplit, cstr_append hnul]
    simp [rest]
  have hparen' : 41 ∉ 32 :: l.rest (cstr tail) := by
    intro h
    rcases List.mem_cons.mp h with h | h
    · cases h
    · rcases List.mem_cons.mp h with h | h
      · exact hparen (h ▸ List.mem_cons_self ..)
      · refine hparen (List.mem_cons_of_mem _ ?_)
        rcases List.mem_append.mp h with h | h
        · exact List.mem_append_left _ h
        · exact List.mem_append_right _ ((List.takeWhile_prefix _).subset h)
  rw [hline]
  constructor
  · rw [strchr_append (not_mem_pid l.pid (Or.inr rfl))]
    simp
  · have hsplit : (decimalInt l.pid ++ [32]) ++ 40 :: (l.name ++ 41 :: 32 :: l.rest (cstr tail)) =
        ((decimalInt l.pid ++ [32]) ++ 40 :: l.name) ++ 41 :: (32 :: l.rest (cstr tail)) := by
      simp
    rw [hsplit, strrchr_append hparen']
    simp
    omega

theorem text_ne_nil (l : StatLine) (tail : List UInt8) : l.text tail ≠ [] := by
  simp [text]

theorem drop_name (l : StatLine) (tail : List UInt8) :
    (l.text tail).drop ((decimalInt l.pid).length + 1 + 1) = l.name ++ 41 :: 32 :: l.rest tail := by
  have hsplit : l.text tail = (decimalInt l.pid ++ [32, 40]) ++ (l.name ++ 41 :: 32 :: l.rest tail) := by
    simp [text]
  rw [hsplit, List.drop_left' (by simp)]

theorem drop_rest (l : StatLine) (tail : List UInt8) :
    (l.text tail).drop ((decimalInt l.pid).length + 2 + l.name.length + 2) = l.rest tail := by
  have hsplit : l.text tail = (decimalInt l.pid ++ [32, 40] ++ l.name ++ [41, 32]) ++ l.rest tail := by
    simp [text]
  rw [hsplit, List.drop_left' (by simp; omega)]

theorem cstr_rest {l : StatLine} (hstate : l.state ≠ 0) (tail : List UInt8) :
    cstr (l.rest tail) = l.rest (cstr tail) := by
  have hnul : 0 ∉ l.state :: numbers l.fields := by
    rw [List.mem_cons, not_or]
    exact ⟨Ne.symm hstate, zero_not_mem_numbers _⟩
  exact cstr_append (a := l.state :: numbers l.fields) (b := tail) hnul

/-- The name is cut to the array. -/
theorem take_name (l : StatLine) (tail : List UInt8) :
    (l.name ++ 41 :: 32 :: l.rest tail).take
      (min ((decimalInt l.pid).length + 2 + l.name.length - ((decimalInt l.pid).length + 1 + 1))
        (maxCommLen - 1)) = l.name.take 255 := by
  have hmin : min ((decimalInt l.pid).length + 2 + l.name.length -
      ((decimalInt l.pid).length + 1 + 1)) (maxCommLen - 1) = min 255 l.name.length := by
    unfold maxCommLen
    omega
  rw [hmin, List.take_append_of_le_length (by omega)]
  exact List.take_eq_take_min.symm

/-- The line makes the process, and the status file adds to it. -/
theorem readProcess_line {l : StatLine} (hl : l.Typed) {tail : List UInt8} (hname : 0 ∉ l.name)
    (hstate : l.state ≠ 0) (ht : NoDigit tail) (hparen : 41 ∉ l.rest tail)
    (hlen : (l.text tail).length < 4096) (status : File) :
    Parser.readProcess l.pid (some (l.text tail)) status = some (Parser.readStatus l.info status) := by
  obtain ⟨hstart, hend⟩ := parens hname hstate hparen
  have hlong : ¬ (l.text tail).length ≤ (decimalInt l.pid).length + 2 + l.name.length + 2 := by
    simp [text, rest]
    omega
  unfold Parser.readProcess
  rw [read_some (l.text_ne_nil tail) (by omega)]
  simp only [Option.bind_eq_bind, Option.bind_some, hstart, hend]
  rw [if_neg (by omega), drop_name, if_neg hlong, drop_rest, cstr_rest hstate,
    sscanf_rest hl (noDigit_cstr ht), take_name]
  simp [info, addULL]

/-- **Parsing `/proc/<pid>/stat` undoes its format**, for every name. -/
theorem readProcess_text {l : StatLine} (hl : l.Typed) {tail : List UInt8} (hname : 0 ∉ l.name)
    (hstate : l.state ≠ 0) (ht : NoDigit tail) (hparen : 41 ∉ l.rest tail)
    (hlen : (l.text tail).length < 4096) (status : File) :
    ∃ p, Parser.readProcess l.pid (some (l.text tail)) status = some p ∧ statPart p = l.info := by
  refine ⟨_, readProcess_line hl hname hstate ht hparen hlen status, ?_⟩
  rw [statPart_readStatus]
  rfl

/-- A process named `a) R 1 (`, which imitates the end of its name. -/
def hostile : StatLine where
  pid := 4321
  name := bytes "a) R 1 ("
  state := 83
  ppid := 7
  pgrp := 4321
  session := 4321
  ttyNr := 0
  tpgid := -1
  flags := 4194560
  minflt := 100
  cminflt := 0
  majflt := 3
  cmajflt := 0
  utime := 12
  stime := 2 ^ 64 - 2
  cutime := 0
  cstime := 0
  priority := 20
  nice := -5
  numThreads := 1
  itrealvalue := 0
  starttime := 8912

theorem readProcess_text_hostile :
    hostile.text [10] = bytes
      "4321 (a) R 1 () S 7 4321 4321 0 -1 4194560 100 0 3 0 12 18446744073709551614 0 0 20 -5 1 0 8912\n" ∧
    ∃ p, Parser.readProcess 4321 (some (hostile.text [10])) none = some p ∧
      statPart p = hostile.info := by
  refine ⟨by decide +kernel, readProcess_text (l := hostile) ?_ ?_ ?_ ?_ ?_ ?_ none⟩
  · exact ⟨by decide, by decide, by decide, by decide, by decide, by decide, by decide⟩
  · decide +kernel
  · decide
  · exact noDigit_cons (by decide) _
  · decide +kernel
  · decide +kernel

end StatLine

end MemoryMonitor
