import MemoryMonitor.Escaping

/-! # The metrics, serialized

`serve_metrics_json` prints the snapshot into a buffer that it doubles whenever fewer than
1024 bytes are left, and prints each name through an escape buffer of 1024 bytes.  Neither
is enough for every name: 255 bytes can escape to 1530.  A name is cut when its spelling
reaches 1018 bytes before its last byte, and an entry of more than 1023 bytes can find the
capacity in the middle of it, which is answered with 500.  On every other snapshot the
body is what a serializer without bounds would write (`metrics_complete_iff`).
-/
namespace MemoryMonitor

open CString

/-! ## Texts -/

/-- The text of a process around its escaped name. -/
def entryAround (h : Host) (p : ProcessInfo) (last : Bool) (comm : List UInt8) : List UInt8 :=
  bytes "    \x7b\"pid\": " ++ decimalInt p.pid ++
  bytes ", \"comm\": \"" ++ comm ++
  bytes "\", \"state\": \"" ++ [p.state] ++
  bytes "\", \"cpu_pct\": " ++ h.fixed p.cpuUsagePct ++
  bytes ", \"mem_rss_kb\": " ++ decimal p.vmRssKb ++
  bytes ", \"threads\": " ++ decimalInt p.numThreads ++
  bytes "\x7d" ++ (if last then [] else bytes ",") ++ bytes "\n"

theorem metricsEntry_eq (h : Host) (p : ProcessInfo) (last : Bool) :
    metricsEntry h p last = entryAround h p last (escapeJsonString p.comm 1024) := rfl

/-- The texts of processes whose names are spelled by `spell`. -/
def entryTexts (h : Host) (spell : List UInt8 → List UInt8) : List ProcessInfo → List (List UInt8)
  | [] => []
  | p :: ps => entryAround h p ps.isEmpty (spell p.comm) :: entryTexts h spell ps

/-- The text after the list of processes. -/
def metricsTail : List UInt8 := bytes "  ]\n\x7d\n"

/-- **What a serializer without bounds writes.** -/
def wholeBody (h : Host) (snap : SystemSnapshot) : List UInt8 :=
  metricsHead h (some snap) ++ (entryTexts h escaped snap.procs).flatten ++ metricsTail

/-- The answer with status 200 that carries a body. -/
def answer200 (body : List UInt8) : List UInt8 :=
  bytes "HTTP/1.1 200 OK\r\nContent-Type: application/json\r\nContent-Length: " ++
  decimal body.length ++ bytes "\r\nConnection: close\r\nCache-Control: no-store\r\n\r\n" ++ body

/-! ## What the environment guarantees -/

/-- Memory does not run out, and a percentage prints as a string of at most 42 characters. -/
structure Host.Roomy (h : Host) : Prop where
  alloc : ∀ n, h.alloc n = true
  fixed_length : ∀ p, (h.fixed p).length ≤ 42
  fixed_text : ∀ p, 0 ∉ h.fixed p

/-- The numbers of a process are values of their C types; its name is a C string in its
array, and its state a letter. -/
structure ProcessInfo.Typed (p : ProcessInfo) : Prop where
  pid : -2 ^ 31 ≤ p.pid ∧ p.pid < 2 ^ 31
  comm : p.comm.length < maxCommLen
  comm_text : 0 ∉ p.comm
  state : p.state ≠ 0
  vmRssKb : p.vmRssKb < 2 ^ 64
  numThreads : -2 ^ 63 ≤ p.numThreads ∧ p.numThreads < 2 ^ 63

/-- The numbers of a snapshot are values of their C types. -/
structure SystemSnapshot.Typed (snap : SystemSnapshot) : Prop where
  count : snap.procs.length ≤ maxProcs
  procs : ∀ p ∈ snap.procs, p.Typed
  timestamp : -2 ^ 63 ≤ snap.timestamp ∧ snap.timestamp < 2 ^ 63
  coreCount : -2 ^ 31 ≤ snap.cpu.coreCount ∧ snap.cpu.coreCount < 2 ^ 31
  memTotalKb : snap.mem.memTotalKb < 2 ^ 64
  memAvailableKb : snap.mem.memAvailableKb < 2 ^ 64
  memFreeKb : snap.mem.memFreeKb < 2 ^ 64
  buffersKb : snap.mem.buffersKb < 2 ^ 64
  cachedKb : snap.mem.cachedKb < 2 ^ 64
  swapTotalKb : snap.mem.swapTotalKb < 2 ^ 64
  swapFreeKb : snap.mem.swapFreeKb < 2 ^ 64

/-! ## The buffer -/

/-- The loop of `serve_metrics_json` over the texts, where memory does not run out. -/
def appendAll : List (List UInt8) → List UInt8 × Nat → Option (List UInt8 × Nat)
  | [], r => some r
  | e :: es, (json, cap) =>
    let cap := if cap < json.length + 1024 then cap * 2 else cap
    if cap - json.length ≤ e.length then none else appendAll es (json ++ e, cap)

theorem metricsLoop_eq {h : Host} (ha : ∀ n, h.alloc n = true) (ps : List ProcessInfo)
    (r : List UInt8 × Nat) :
    metricsLoop h ps r = appendAll (entryTexts h (escapeJsonString · 1024) ps) r := by
  induction ps generalizing r with
  | nil => rfl
  | cons p ps ih =>
    obtain ⟨json, cap⟩ := r
    rw [metricsLoop, entryTexts, appendAll, metricsEntry_eq]
    by_cases hcap : cap < json.length + 1024
    · simp only [if_pos hcap, ha, if_true, Option.bind_eq_bind, Option.bind_some, ih]
    · simp only [if_neg hcap, Option.bind_eq_bind, Option.bind_some, ih]

/-- An entry of `n` bytes at `len` fits: no capacity that leaves 1024 bytes ends in it. -/
def Fits (len n : Nat) : Prop :=
  ∀ i, len + 1024 ≤ initialJsonCap * 2 ^ i → len + n < initialJsonCap * 2 ^ i

/-- The entries fit, one after the other. -/
def AllFit (len : Nat) : List (List UInt8) → Prop
  | [] => True
  | e :: es => Fits len e.length ∧ AllFit (len + e.length) es

/-- The reserve is enough for entries of less than 1024 bytes. -/
theorem AllFit.of_short {es : List (List UInt8)} (h : ∀ e ∈ es, e.length < 1024) (len : Nat) :
    AllFit len es := by
  induction es generalizing len with
  | nil => trivial
  | cons e es ih =>
    have he := h e (List.mem_cons_self ..)
    exact ⟨fun i hi => by omega, ih (fun e' he' => h e' (List.mem_cons_of_mem _ he')) _⟩

/-- **The capacity** is the smallest one that could leave 1024 bytes. -/
structure Capacity (len cap : Nat) : Prop where
  pow : ∃ j, cap = initialJsonCap * 2 ^ j
  lt : len < cap
  least : ∀ i, len + 1024 ≤ initialJsonCap * 2 ^ i → cap ≤ initialJsonCap * 2 ^ i

/-- After the check the capacity leaves 1024 bytes, and is still the smallest. -/
theorem Capacity.grown {len cap : Nat} (C : Capacity len cap) :
    len + 1024 ≤ (if cap < len + 1024 then cap * 2 else cap) ∧
      Capacity len (if cap < len + 1024 then cap * 2 else cap) := by
  have hlt := C.lt
  obtain ⟨j, hj⟩ := C.pow
  split
  · rename_i hsmall
    have hcap : initialJsonCap ≤ cap := by
      rw [hj]
      exact Nat.le_mul_of_pos_right _ (Nat.two_pow_pos j)
    unfold initialJsonCap at hcap
    refine ⟨by omega, ⟨j + 1, by rw [hj, Nat.pow_succ, Nat.mul_assoc]⟩, by omega, fun i hi => ?_⟩
    have hij : j < i := by
      by_contra hle
      have : initialJsonCap * 2 ^ i ≤ initialJsonCap * 2 ^ j :=
        Nat.mul_le_mul_left _ (Nat.pow_le_pow_right (by decide) (by omega))
      omega
    rw [hj, Nat.mul_assoc, ← Nat.pow_succ]
    exact Nat.mul_le_mul_left _ (Nat.pow_le_pow_right (by decide) hij)
  · rename_i hroom
    exact ⟨by omega, C⟩

theorem Capacity.fits_iff {len cap n : Nat} (C : Capacity len cap) (hroom : len + 1024 ≤ cap) :
    len + n < cap ↔ Fits len n := by
  constructor
  · intro h i hi
    have := C.least i hi
    omega
  · intro h
    obtain ⟨j, hj⟩ := C.pow
    have := h j (by omega)
    omega

/-- **The loop over the entries**: it goes through exactly when they fit, and then the text
is complete and inside its buffer. -/
theorem appendAll_spec {es : List (List UInt8)} {json : List UInt8} {cap : Nat}
    (C : Capacity json.length cap) :
    (AllFit json.length es → ∃ cap', appendAll es (json, cap) = some (json ++ es.flatten, cap') ∧
      (json ++ es.flatten).length < cap') ∧
    ∀ r, appendAll es (json, cap) = some r → AllFit json.length es := by
  induction es generalizing json cap with
  | nil =>
    refine ⟨fun _ => ⟨cap, by simp [appendAll], by simpa using C.lt⟩, fun _ _ => trivial⟩
  | cons e es ih =>
    obtain ⟨hroom, C'⟩ := C.grown
    have hfit := C'.fits_iff (n := e.length) hroom
    rw [appendAll]
    generalize (if cap < json.length + 1024 then cap * 2 else cap) = cap' at *
    by_cases hlt : json.length + e.length < cap'
    · have C'' : Capacity (json ++ e).length cap' := by
        refine ⟨C'.pow, by rw [List.length_append]; exact hlt, fun i hi => C'.least i ?_⟩
        rw [List.length_append] at hi
        omega
      obtain ⟨h1, h2⟩ := ih C''
      rw [if_neg (by omega), List.flatten_cons, ← List.append_assoc]
      rw [List.length_append] at h1 h2
      exact ⟨fun hall => h1 hall.2, fun r hr => ⟨hfit.mp hlt, h2 r hr⟩⟩
    · rw [if_pos (by omega)]
      exact ⟨fun hall => absurd (hfit.mpr hall.1) hlt, fun r hr => by cases hr⟩

/-- What the loop leaves, when it goes through. -/
theorem appendAll_some {es : List (List UInt8)} {json json' : List UInt8} {cap cap' : Nat}
    (C : Capacity json.length cap) (h : appendAll es (json, cap) = some (json', cap')) :
    json' = json ++ es.flatten ∧ json'.length < cap' := by
  obtain ⟨hfit, hnot⟩ := @appendAll_spec es _ _ C
  obtain ⟨cap'', hrun, hlt⟩ := hfit (hnot _ h)
  rw [h] at hrun
  obtain ⟨rfl, rfl⟩ := Prod.mk.inj (Option.some.inj hrun)
  exact ⟨rfl, hlt⟩

/-! ## Names -/

/-- The spelling of all but the last byte leaves room for a longest one. -/
def Uncut (comm : List UInt8) : Prop := (escaped comm.dropLast).length < 1018

theorem escaped_cons (c : UInt8) (s : List UInt8) : escaped (c :: s) = escapeByte c ++ escaped s := rfl

theorem spelledCount_le (maxOut idx : Nat) (s : List UInt8) : spelledCount maxOut idx s ≤ s.length := by
  induction s generalizing idx with
  | nil => exact Nat.le_refl 0
  | cons c s ih =>
    have := ih (idx + (escapeByte c).length)
    rw [spelledCount, List.length_cons]
    split <;> omega

/-- The loop gets to the end exactly when there is room before the last byte. -/
theorem spelledCount_eq_length {maxOut idx : Nat} {s : List UInt8} (hs : s ≠ []) :
    spelledCount maxOut idx s = s.length ↔ idx + (escaped s.dropLast).length + 6 < maxOut := by
  induction s generalizing idx with
  | nil => exact absurd rfl hs
  | cons c s ih =>
    rw [spelledCount, List.length_cons]
    cases s with
    | nil =>
      simp only [List.dropLast_singleton, escaped, List.flatMap_nil, List.length_nil]
      split <;> simp_all [spelledCount]
    | cons d s =>
      rw [List.dropLast_cons_cons, escaped_cons, List.length_append]
      have hih := @ih (idx + (escapeByte c).length) (by simp)
      split
      · rw [Nat.add_right_cancel_iff, hih]
        omega
      · simp
        omega

/-- Spelling fewer bytes takes fewer bytes. -/
theorem escaped_take_length {s : List UInt8} {k : Nat} (h : k < s.length) :
    (escaped (s.take k)).length < (escaped s).length := by
  induction s generalizing k with
  | nil => cases h
  | cons c s ih =>
    have hc := (escapeByte_length c).1
    rw [escaped_cons, List.length_append]
    cases k with
    | zero =>
      rw [List.take_zero]
      show 0 < _
      omega
    | succ k =>
      have := ih (k := k) (by simpa using h)
      rw [List.take_succ_cons, escaped_cons, List.length_append]
      omega

/-- A name is spelled whole, or it is cut and its spelling shorter. -/
theorem escapeJsonString_cases (comm : List UInt8) :
    (Uncut comm ∧ escapeJsonString comm 1024 = escaped comm) ∨
    (¬ Uncut comm ∧ (escapeJsonString comm 1024).length < (escaped comm).length) := by
  unfold escapeJsonString Uncut
  rw [escapeLoop_eq]
  by_cases hnil : comm = []
  · subst hnil
    exact Or.inl ⟨by decide, rfl⟩
  have hiff := @spelledCount_eq_length 1024 0 _ hnil
  have hle := spelledCount_le 1024 0 comm
  by_cases hcut : (escaped comm.dropLast).length < 1018
  · left
    rw [hiff.mpr (by omega), List.take_length]
    exact ⟨hcut, rfl⟩
  · right
    refine ⟨hcut, escaped_take_length ?_⟩
    have hne : spelledCount 1024 0 comm ≠ comm.length := by
      rw [ne_eq, hiff]
      omega
    omega

theorem escaped_length_le (s : List UInt8) : (escaped s).length ≤ 6 * s.length := by
  induction s with
  | nil => exact Nat.le_refl 0
  | cons c s ih =>
    have := (escapeByte_length c).2
    rw [escaped_cons, List.length_append, List.length_cons]
    omega

theorem zero_not_mem_escaped (s : List UInt8) : 0 ∉ escaped s := by
  have hbyte : ∀ c : UInt8, 0 ∉ escapeByte c := by
    refine forall_byte ?_
    decide +kernel
  intro h
  obtain ⟨c, -, hc⟩ := List.mem_flatMap.mp h
  exact hbyte c hc

/-! ## Entries -/

section
variable {h : Host} {p : ProcessInfo} {ps : List ProcessInfo} {snap : SystemSnapshot}

theorem zero_not_mem_decimalInt (n : Int) : 0 ∉ decimalInt n := by
  intro h0
  rcases mem_decimalInt h0 with h | h
  · cases h
  · exact (isDigit_plain h).2.2.2.1 rfl

theorem zero_not_mem_decimal (n : Nat) : 0 ∉ decimal n := fun h0 =>
  (isDigit_plain (isDigit_of_mem_decimal h0)).2.2.2.1 rfl

theorem entryAround_length (h : Host) (p : ProcessInfo) (last : Bool) (comm : List UInt8) :
    (entryAround h p last comm).length = (entryAround h p last []).length + comm.length := by
  simp only [entryAround, List.length_append, List.length_nil]
  omega

theorem zero_not_mem_entryAround (R : h.Roomy) (hp : p.state ≠ 0) (last : Bool) {comm : List UInt8}
    (hc : 0 ∉ comm) : 0 ∉ entryAround h p last comm := by
  have hlast : 0 ∉ (if last then [] else bytes ",") := by
    cases last <;> decide
  simp only [entryAround, List.mem_append, List.mem_singleton, not_or]
  simp only [zero_not_mem_decimalInt, zero_not_mem_decimal, hc, hlast, R.fixed_text, Ne.symm hp,
    not_false_eq_true, and_true]
  decide +kernel

theorem entryAround_length_le (R : h.Roomy) (T : p.Typed) (last : Bool) :
    (entryAround h p last (escaped p.comm)).length ≤ 2000 := by
  have hpid := decimalInt_length (n := p.pid) (k := 10) (by decide) (by have := T.pid; omega)
  have hthreads := decimalInt_length (n := p.numThreads) (k := 20) (by decide)
    (by have := T.numThreads; omega)
  have hrss := decimal_length (n := p.vmRssKb) (k := 20) (by decide) (by have := T.vmRssKb; omega)
  have hfixed := R.fixed_length p.cpuUsagePct
  have hcomm := escaped_length_le p.comm
  have hlen := T.comm
  unfold maxCommLen at hlen
  cases last
  all_goals
    simp [entryAround, bytes]
    omega

/-- The texts do not depend on how the names are spelled, except for the names. -/
theorem entryTexts_congr {spell spell' : List UInt8 → List UInt8}
    (heq : ∀ p ∈ ps, spell p.comm = spell' p.comm) : entryTexts h spell ps = entryTexts h spell' ps := by
  induction ps with
  | nil => rfl
  | cons p ps ih =>
    rw [entryTexts, entryTexts, heq p (List.mem_cons_self ..),
      ih fun q hq => heq q (List.mem_cons_of_mem _ hq)]

/-- **Cut names show in the length**: the texts with the names as they are written are as
long as the whole ones only when no name is cut. -/
theorem entryTexts_length (h : Host) (ps : List ProcessInfo) :
    (∀ p ∈ ps, Uncut p.comm) ∨
    (entryTexts h (escapeJsonString · 1024) ps).flatten.length <
      (entryTexts h escaped ps).flatten.length := by
  have hle : ∀ ps, (entryTexts h (escapeJsonString · 1024) ps).flatten.length ≤
      (entryTexts h escaped ps).flatten.length := by
    intro ps
    induction ps with
    | nil => exact Nat.le_refl 0
    | cons p ps ih =>
      have hlen : (escapeJsonString p.comm 1024).length ≤ (escaped p.comm).length := by
        rcases escapeJsonString_cases p.comm with ⟨-, heq⟩ | ⟨-, hlt⟩
        · rw [heq]
        · exact le_of_lt hlt
      simp only [entryTexts, List.flatten_cons, List.length_append]
      rw [entryAround_length, entryAround_length h p _ (escaped p.comm)]
      omega
  induction ps with
  | nil => exact Or.inl (by simp)
  | cons p ps ih =>
    have hps := hle ps
    simp only [entryTexts, List.flatten_cons, List.length_append]
    rw [entryAround_length, entryAround_length h p _ (escaped p.comm)]
    rcases escapeJsonString_cases p.comm with ⟨hu, heq⟩ | ⟨-, hlt⟩
    · rcases ih with hall | hlt
      · exact Or.inl (by simpa using ⟨hu, hall⟩)
      · right
        rw [heq]
        omega
    · right
      omega

theorem zero_not_mem_entryTexts (R : h.Roomy) (T : ∀ p ∈ ps, p.Typed)
    {spell : List UInt8 → List UInt8} (hs : ∀ s, 0 ∉ spell s) :
    0 ∉ (entryTexts h spell ps).flatten := by
  induction ps with
  | nil => simp [entryTexts]
  | cons p ps ih =>
    rw [entryTexts, List.flatten_cons, List.mem_append, not_or]
    exact ⟨zero_not_mem_entryAround R (T p (List.mem_cons_self ..)).state _ (hs _),
      ih fun q hq => T q (List.mem_cons_of_mem _ hq)⟩

theorem entryTexts_length_le (R : h.Roomy) (T : ∀ p ∈ ps, p.Typed) :
    (entryTexts h escaped ps).flatten.length ≤ 2000 * ps.length := by
  induction ps with
  | nil => exact Nat.le_refl 0
  | cons p ps ih =>
    have h1 := entryAround_length_le R (T p (List.mem_cons_self ..)) ps.isEmpty
    have h2 := ih fun q hq => T q (List.mem_cons_of_mem _ hq)
    rw [entryTexts, List.flatten_cons, List.length_append, List.length_cons]
    omega

/-! ## The head -/

theorem zero_not_mem_metricsHead (R : h.Roomy) (snap : SystemSnapshot) :
    0 ∉ metricsHead h (some snap) := by
  have htruncated : 0 ∉ (if snap.truncated then bytes "true" else bytes "false") := by
    cases snap.truncated <;> decide
  unfold metricsHead
  dsimp only [Option.map_some, Option.getD_some]
  generalize (if snap.truncated then bytes "true" else bytes "false") = b at *
  simp only [List.mem_append, not_or, zero_not_mem_decimalInt, zero_not_mem_decimal, htruncated,
    R.fixed_text, not_false_eq_true, and_true]
  decide +kernel

theorem metricsHead_length (R : h.Roomy) (T : snap.Typed) :
    (metricsHead h (some snap)).length < 1000 := by
  have hint : ∀ {n : Int}, -2 ^ 63 ≤ n ∧ n < 2 ^ 63 → (decimalInt n).length ≤ 21 := fun hn =>
    decimalInt_length (by decide) (by omega)
  have hnat : ∀ {n : Nat}, n < 2 ^ 64 → (decimal n).length ≤ 20 := fun hn =>
    decimal_length (by decide) (by omega)
  have h1 := hint T.timestamp
  have h2 := hint (n := snap.cpu.coreCount) (by have := T.coreCount; omega)
  have h3 := hnat T.memTotalKb
  have h4 := hnat T.memAvailableKb
  have h5 := hnat T.memFreeKb
  have h6 := hnat T.buffersKb
  have h7 := hnat T.cachedKb
  have h8 := hnat T.swapTotalKb
  have h9 := hnat T.swapFreeKb
  have f1 := R.fixed_length snap.cpu.totalUsagePct
  have f2 := R.fixed_length snap.cpu.userPct
  have f3 := R.fixed_length snap.cpu.systemPct
  have f4 := R.fixed_length snap.cpu.idlePct
  have f5 := R.fixed_length snap.mem.memUsagePct
  have f6 := R.fixed_length snap.mem.swapUsagePct
  have hb : (if snap.truncated then bytes "true" else bytes "false").length ≤ 5 := by
    cases snap.truncated <;> decide
  unfold metricsHead
  dsimp only [Option.map_some, Option.getD_some]
  generalize (if snap.truncated then bytes "true" else bytes "false") = b at *
  simp only [List.length_append]
  simp [bytes]
  omega

end

/-! ## The answer -/

/-- The text before and after the length of the body is not part of it. -/
theorem answer200_injective {b b' : List UInt8} (heq : answer200 b = answer200 b') : b = b' := by
  unfold answer200 at heq
  simp only [List.append_assoc, List.append_cancel_left_eq] at heq
  have hnext : ∀ body, NoDigit (bytes "\r\nConnection: close\r\nCache-Control: no-store\r\n\r\n" ++
      body) := fun body => noDigit_cons (c := 13) (by decide) _
  have hdigits : ∀ n, ∀ c ∈ decimal n, isDigit c = true := fun n c hc => isDigit_of_mem_decimal hc
  have hlen : decimal b.length = decimal b'.length := by
    rw [← (takeWhile_digits (hdigits b.length) (hnext b)).1, heq,
      (takeWhile_digits (hdigits b'.length) (hnext b')).1]
  rw [hlen, List.append_cancel_left_eq, List.append_cancel_left_eq] at heq
  exact heq

/-- What `send_response` sends with status 200: the answer, when its header fits. -/
theorem sendResponse_ok (body : List UInt8) :
    sendResponse "200 OK" "application/json" body "Cache-Control: no-store\r\n" =
      if 1024 ≤ 113 + (decimal body.length).length then [] else answer200 body := by
  have hpre : bytes "HTTP/1.1 " ++ bytes "200 OK" ++ bytes "\r\nContent-Type: " ++
      bytes "application/json" ++ bytes "\r\nContent-Length: " =
      bytes "HTTP/1.1 200 OK\r\nContent-Type: application/json\r\nContent-Length: " := by
    decide +kernel
  have hsuf : bytes "\r\nConnection: close\r\n" ++ (bytes "Cache-Control: no-store\r\n" ++
      bytes "\r\n") = bytes "\r\nConnection: close\r\nCache-Control: no-store\r\n\r\n" := by
    decide +kernel
  unfold sendResponse answer200
  dsimp only
  rw [hpre, List.append_assoc _ (bytes "\r\nConnection: close\r\n"), List.append_assoc _
    (bytes "\r\nConnection: close\r\n" ++ bytes "Cache-Control: no-store\r\n"), List.append_assoc
    (bytes "\r\nConnection: close\r\n"), hsuf]
  have hA : (bytes "HTTP/1.1 200 OK\r\nContent-Type: application/json\r\nContent-Length: ").length =
      65 := by
    decide +kernel
  have hB : (bytes "\r\nConnection: close\r\nCache-Control: no-store\r\n\r\n").length = 48 := by
    decide +kernel
  rw [List.length_append, List.length_append, hA, hB,
    show 65 + (decimal body.length).length + 48 = 113 + (decimal body.length).length by omega]

/-- The answer to a snapshot that cannot be serialized. -/
def unable : List UInt8 :=
  sendResponse "500 Internal Server Error" "text/plain" (bytes "Unable to serialize metrics")

theorem answer200_ne_unable (body : List UInt8) : answer200 body ≠ unable := by
  intro h
  have h500 : unable.take 12 = bytes "HTTP/1.1 500" := by
    decide +kernel
  have h200 : (answer200 body).take 12 = bytes "HTTP/1.1 200" := by
    unfold answer200
    rw [List.append_assoc, List.append_assoc, List.take_append_of_le_length (by decide +kernel)]
    decide +kernel
  rw [h, h500] at h200
  exact absurd h200 (by decide)

section
variable {s : GuiServer} {h : Host} {snap : SystemSnapshot}

/-- The entries as the loop prints them. -/
def printedTexts (h : Host) (snap : SystemSnapshot) : List (List UInt8) :=
  entryTexts h (escapeJsonString · 1024) snap.procs

/-- The buffer before the first entry. -/
theorem capacity_head (R : h.Roomy) (T : snap.Typed) :
    Capacity (metricsHead h (some snap)).length initialJsonCap := by
  have hhead := metricsHead_length R T
  refine ⟨⟨0, by simp⟩, ?_, fun i _ => Nat.le_mul_of_pos_right _ (Nat.two_pow_pos i)⟩
  unfold initialJsonCap
  omega

/-- **`serve_metrics_json`, from its loop.** -/
theorem serveMetricsJson_run (hs : s.latestSnapshot = some snap) (ha : ∀ n, h.alloc n = true)
    (hhead : (metricsHead h (some snap)).length < initialJsonCap) :
    serveMetricsJson s h =
      match appendAll (printedTexts h snap) (metricsHead h (some snap), initialJsonCap) with
      | none => unable
      | some (json, _) => sendResponse "200 OK" "application/json" (cstr (json ++ metricsTail))
          "Cache-Control: no-store\r\n" := by
  have hloop := metricsLoop_eq ha snap.procs (metricsHead h (some snap), initialJsonCap)
  unfold printedTexts
  rw [← hloop]
  unfold serveMetricsJson
  rw [hs, ha, if_neg (by decide)]
  dsimp only [Option.map_some, Option.getD_some]
  generalize metricsHead h (some snap) = head at *
  rw [if_neg (Nat.not_le.mpr hhead)]
  cases metricsLoop h snap.procs (head, initialJsonCap) with
  | none => rfl
  | some r =>
    obtain ⟨json, cap⟩ := r
    dsimp only
    rw [ha, if_neg (by simp)]
    rfl

/-- The body as it is printed. -/
def printedBody (h : Host) (snap : SystemSnapshot) : List UInt8 :=
  metricsHead h (some snap) ++ (printedTexts h snap).flatten ++ metricsTail

theorem zero_not_mem_printedBody (R : h.Roomy) (T : snap.Typed) : 0 ∉ printedBody h snap := by
  have hspell : ∀ c, 0 ∉ escapeJsonString c 1024 := by
    intro c
    unfold escapeJsonString
    rw [escapeLoop_eq]
    exact zero_not_mem_escaped _
  have htail : 0 ∉ metricsTail := by
    decide +kernel
  unfold printedBody printedTexts
  rw [List.mem_append, List.mem_append, not_or, not_or]
  exact ⟨⟨zero_not_mem_metricsHead R snap, zero_not_mem_entryTexts R T.procs hspell⟩, htail⟩

/-- The two outcomes. -/
theorem serveMetricsJson_cases (hs : s.latestSnapshot = some snap) (R : h.Roomy) (T : snap.Typed) :
    (AllFit (metricsHead h (some snap)).length (printedTexts h snap) ∧ serveMetricsJson s h =
      sendResponse "200 OK" "application/json" (printedBody h snap)
        "Cache-Control: no-store\r\n") ∨
    (¬ AllFit (metricsHead h (some snap)).length (printedTexts h snap) ∧
      serveMetricsJson s h = unable) := by
  have C := capacity_head R T
  have hnul := zero_not_mem_printedBody R T
  rw [serveMetricsJson_run hs R.alloc C.lt]
  unfold printedBody at hnul ⊢
  generalize metricsHead h (some snap) = head at *
  generalize printedTexts h snap = es at *
  obtain ⟨hfit, hnot⟩ := @appendAll_spec es _ _ C
  by_cases hall : AllFit head.length es
  · obtain ⟨cap, hrun, -⟩ := hfit hall
    have hbody := cstr_append (b := []) hnul
    rw [List.append_nil] at hbody
    refine Or.inl ⟨hall, ?_⟩
    rw [hrun]
    dsimp only
    rw [hbody]
    simp only [cstr, List.takeWhile_nil, List.append_nil]
  · refine Or.inr ⟨hall, ?_⟩
    cases hrun : appendAll es (head, initialJsonCap) with
    | none => rfl
    | some r => exact absurd (hnot r hrun) hall

/-- Where no name is cut, the body is the whole one. -/
theorem printedTexts_eq (hu : ∀ p ∈ snap.procs, Uncut p.comm) :
    printedTexts h snap = entryTexts h escaped snap.procs := by
  refine entryTexts_congr fun p hp => ?_
  rcases escapeJsonString_cases p.comm with ⟨-, heq⟩ | ⟨hcut, -⟩
  · exact heq
  · exact absurd (hu p hp) hcut

theorem wholeBody_length (R : h.Roomy) (T : snap.Typed) : (wholeBody h snap).length < 10 ^ 20 := by
  have h1 := metricsHead_length R T
  have h2 := entryTexts_length_le R T.procs
  have h3 := T.count
  have h4 : metricsTail.length = 6 := by
    decide +kernel
  unfold maxProcs at h3
  unfold wholeBody
  rw [List.length_append, List.length_append]
  omega

/-- Every write of the loop ends inside its buffer: the escape buffer, the text after any
number of entries, and the text after the last one together with its end. -/
structure InBounds (h : Host) (snap : SystemSnapshot) : Prop where
  names : ∀ p ∈ snap.procs, (escapeJsonString p.comm 1024).length < 1024
  entries : ∀ k json cap, appendAll ((printedTexts h snap).take k)
    (metricsHead h (some snap), initialJsonCap) = some (json, cap) → json.length < cap
  tail : ∀ json cap, metricsLoop h snap.procs (metricsHead h (some snap), initialJsonCap) =
    some (json, cap) → json.length + metricsTail.length <
      if cap < json.length + 32 then cap + 1024 else cap

theorem inBounds (R : h.Roomy) (T : snap.Typed) : InBounds h snap := by
  have C := capacity_head R T
  refine ⟨fun p _ => ?_, fun k json cap hrun => (appendAll_some C hrun).2, fun json cap hrun => ?_⟩
  · have := escapeJsonString_length p.comm (show 1 ≤ 1024 by decide)
    omega
  · rw [metricsLoop_eq R.alloc] at hrun
    have := (appendAll_some C hrun).2
    have h6 : metricsTail.length = 6 := by
      decide +kernel
    split <;> omega

/-- A complete answer has no cut name and no entry that does not fit. -/
theorem of_complete (hs : s.latestSnapshot = some snap) (R : h.Roomy) (T : snap.Typed)
    (heq : serveMetricsJson s h = answer200 (wholeBody h snap)) :
    (∀ p ∈ snap.procs, Uncut p.comm) ∧
      AllFit (metricsHead h (some snap)).length (entryTexts h escaped snap.procs) := by
  rcases serveMetricsJson_cases hs R T with ⟨hall, hrun⟩ | ⟨-, hrun⟩
  · rw [hrun, sendResponse_ok] at heq
    split at heq
    · exact absurd (congrArg List.length heq) (by simp [answer200, bytes])
    · have hlen := congrArg List.length (answer200_injective heq)
      have hu : ∀ p ∈ snap.procs, Uncut p.comm := by
        refine (entryTexts_length h snap.procs).resolve_right fun hlt => ?_
        unfold printedBody printedTexts wholeBody at hlen
        simp only [List.length_append] at hlen
        omega
      rw [printedTexts_eq hu] at hall
      exact ⟨hu, hall⟩
  · exact absurd (heq.symm.trans hrun) (answer200_ne_unable _)

/-- **When the metrics are serialized completely.**  For every snapshot, when memory does
not run out: the answer is 200 with the body that a serializer without bounds would write
if and only if no name is cut and every entry fits.  The buffers are never overrun. -/
theorem metrics_complete_iff (hs : s.latestSnapshot = some snap) (R : h.Roomy) (T : snap.Typed) :
    (serveMetricsJson s h = answer200 (wholeBody h snap) ↔
      (∀ p ∈ snap.procs, Uncut p.comm) ∧
      AllFit (metricsHead h (some snap)).length (entryTexts h escaped snap.procs)) ∧
    InBounds h snap := by
  refine ⟨⟨of_complete hs R T, fun ⟨hu, hall⟩ => ?_⟩, inBounds R T⟩
  rw [← printedTexts_eq hu] at hall
  have hbody : printedBody h snap = wholeBody h snap := by
    unfold printedBody wholeBody
    rw [printedTexts_eq hu]
  have hdigits := decimal_length (k := 20) (by decide) (wholeBody_length R T)
  rcases serveMetricsJson_cases hs R T with ⟨-, hrun⟩ | ⟨hno, -⟩
  · rw [hrun, sendResponse_ok, hbody, if_neg (by omega)]
  · exact absurd hall hno

end

/-- A machine that has memory, and an idle CPU. -/
def quietHost : Host := ⟨fun _ => .missing, fun _ _ => false, fun _ => true, fun _ => bytes "0.00"⟩

theorem quietHost_roomy : quietHost.Roomy := by
  have htext : (bytes "0.00").length ≤ 42 ∧ 0 ∉ bytes "0.00" := by
    decide
  exact ⟨fun _ => rfl, fun _ => htext.1, fun _ => htext.2⟩

/-- A process whose name is 255 control bytes. -/
def controlBytes : SystemSnapshot where
  procs := [{ pid := 42, comm := List.replicate 255 1, state := 83 }]
  truncated := false
  cpu := {}
  mem := {}
  timestamp := 0

/-- Of the 255 bytes the answer holds 170. -/
theorem metrics_cut :
    serveMetricsJson ⟨[], some controlBytes⟩ quietHost ≠ answer200 (wholeBody quietHost controlBytes) ∧
    JsonText.unescape (escapeJsonString (List.replicate 255 1) 1024) =
      some (List.replicate 170 1) := by
  have T : controlBytes.Typed := by
    refine ⟨by decide, ?_, by decide, by decide, by decide, by decide, by decide, by decide,
      by decide, by decide, by decide⟩
    intro p hp
    obtain rfl := List.mem_singleton.mp hp
    exact ⟨by decide, by decide +kernel, by decide +kernel, by decide, by decide, by decide⟩
  refine ⟨fun heq => ?_, by decide +kernel⟩
  have hu := (of_complete rfl quietHost_roomy T heq).1 _ (List.mem_singleton_self _)
  unfold Uncut at hu
  exact absurd hu (by decide +kernel)

/-- Two processes, one of them with quotes in its name. -/
def twoProcesses : SystemSnapshot where
  procs := [{ pid := 1, comm := bytes "init", state := 83, vmRssKb := 2048, numThreads := 1 },
    { pid := 77, comm := bytes "a \"b\" c", state := 82 }]
  truncated := false
  cpu := {}
  mem := {}
  timestamp := 1700000000

theorem metrics_complete_iff_two :
    serveMetricsJson ⟨[], some twoProcesses⟩ quietHost = answer200 (wholeBody quietHost twoProcesses) := by
  have T : twoProcesses.Typed := by
    refine ⟨by decide, ?_, by decide, by decide, by decide, by decide, by decide, by decide,
      by decide, by decide, by decide⟩
    intro p hp
    simp only [twoProcesses, List.mem_cons, List.not_mem_nil, or_false] at hp
    rcases hp with rfl | rfl
    all_goals exact ⟨by decide, by decide +kernel, by decide +kernel, by decide, by decide, by decide⟩
  refine ((metrics_complete_iff rfl quietHost_roomy T).1).mpr ⟨?_, AllFit.of_short ?_ _⟩
  · unfold Uncut
    decide +kernel
  · decide +kernel

end MemoryMonitor
