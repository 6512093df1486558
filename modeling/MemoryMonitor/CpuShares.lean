import MemoryMonitor.ProcParser
import Mathlib.Data.List.Chain

/-! # The shares of the CPU

`proc_parser_read_cpu` reports four shares of the growth of the total.  It clamps the
growth of each counter at 0 one by one, but takes the growth of the total from its sum,
in which a counter that went back counts negative.  A share is then proper exactly when
the other counters together did not go back (`Steady`).
-/
namespace MemoryMonitor

open CString

/-- The sum of the eight counters, in the integers. -/
def CpuRawJiffies.sum (c : CpuRawJiffies) : Nat :=
  c.user + c.nice + c.system + c.idle + c.iowait + c.irq + c.softirq + c.steal

/-- `total` is the sum, on 64 bits. -/
def CpuRawJiffies.Summed (c : CpuRawJiffies) : Prop := c.total = c.sum % 2 ^ 64

/-- How often the sum went around. -/
def CpuRawJiffies.wraps (c : CpuRawJiffies) : Nat := c.sum / 2 ^ 64

/-- A share is a fraction between 0 and 1. -/
def Percent.Proper (p : Percent) : Prop := p.num ≤ p.den

/-- The shares of a report are fractions between 0 and 1. -/
structure CpuMetrics.Proper (m : CpuMetrics) : Prop where
  busy : m.totalUsagePct.Proper
  user : m.userPct.Proper
  system : m.systemPct.Proper
  idle : m.idlePct.Proper

/-- Where the total grew and this counter did, the seven others together did not go back,
nor did the total lose a wrap of the sum. -/
def Covered (prev curr : CpuRawJiffies) (counter : CpuRawJiffies → Nat) : Prop :=
  prev.total < curr.total → counter prev < counter curr →
    prev.sum - counter prev + 2 ^ 64 * curr.wraps ≤ curr.sum - counter curr + 2 ^ 64 * prev.wraps

/-- **Two readings whose shares are proper.** -/
structure Steady (prev curr : CpuRawJiffies) : Prop where
  user : Covered prev curr CpuRawJiffies.user
  system : Covered prev curr CpuRawJiffies.system
  idle : Covered prev curr CpuRawJiffies.idle

/-- The eight counters. -/
def CpuRawJiffies.counters (c : CpuRawJiffies) : List Nat :=
  [c.user, c.nice, c.system, c.idle, c.iowait, c.irq, c.softirq, c.steal]

/-- Counters that only grow, in a sum that fits its word. -/
theorem Steady.of_grown {prev curr : CpuRawJiffies}
    (h : List.Forall₂ (· ≤ ·) prev.counters curr.counters) (hlt : curr.sum < 2 ^ 64) :
    Steady prev curr := by
  simp only [CpuRawJiffies.counters, List.forall₂_cons, List.forall₂_nil_left_iff] at h
  unfold CpuRawJiffies.sum at hlt
  constructor
  all_goals
    intro _ _
    unfold CpuRawJiffies.wraps CpuRawJiffies.sum
    omega

namespace Parser

/-- The sum of `parseCpu` is taken modulo the word size at each step. -/
theorem parseCpu_summed {f : File} {c : CpuRawJiffies} (h : parseCpu f = some c) : c.Summed := by
  unfold parseCpu at h
  obtain ⟨buf, -, h⟩ := Option.bind_eq_some_iff.mp h
  simp only at h
  split at h
  · cases h
  · obtain rfl := Option.some.inj h
    simp only [CpuRawJiffies.Summed, CpuRawJiffies.sum, List.foldl_cons, List.foldl_nil, addULL]
    omega

/-- The reports of calls one after the other; `none` when one of them fails. -/
def reports (g : Parser) : List File → Option (List CpuMetrics)
  | [] => some []
  | f :: fs => do
    let (m, g) ← g.readCpu f
    let ms ← reports g fs
    some (m :: ms)

/-- **One share**: the growth of a counter against the growth of the total. -/
theorem delta_le_iff {prev curr : CpuRawJiffies} (hp : prev.Summed) (hc : curr.Summed)
    (hgrew : prev.total < curr.total) {counter : CpuRawJiffies → Nat}
    (hle : ∀ c, counter c ≤ CpuRawJiffies.sum c) :
    delta (counter curr) (counter prev) ≤ delta curr.total prev.total ↔
      Covered prev curr counter := by
  have hp' : prev.sum = 2 ^ 64 * prev.wraps + prev.total := by
    rw [hp]
    exact (Nat.div_add_mod ..).symm
  have hc' : curr.sum = 2 ^ 64 * curr.wraps + curr.total := by
    rw [hc]
    exact (Nat.div_add_mod ..).symm
  have h1 := hle prev
  have h2 := hle curr
  unfold Covered delta
  rw [if_pos (le_of_lt hgrew)]
  simp only [hgrew, true_imp_iff]
  by_cases hcounter : counter prev < counter curr
  · rw [if_pos (le_of_lt hcounter)]
    simp only [hcounter, true_imp_iff]
    omega
  · simp only [hcounter, false_imp_iff, iff_true]
    split <;> omega

/-- The report of a call, and the counters it keeps. -/
theorem readCpu_some {g g' : Parser} {f : File} {m : CpuMetrics} (h : g.readCpu f = some (m, g')) :
    ∃ c, parseCpu f = some c ∧ g'.prevCpuJiffies = c ∧
      (g.prevCpuJiffies.Summed → (m.Proper ↔ Steady g.prevCpuJiffies c)) := by
  unfold readCpu at h
  obtain ⟨c, hc, h⟩ := Option.bind_eq_some_iff.mp h
  obtain ⟨rfl, rfl⟩ := Prod.mk.inj (Option.some.inj h)
  refine ⟨c, hc, rfl, fun hp => ?_⟩
  have hsum := parseCpu_summed hc
  by_cases hgrew : g.prevCpuJiffies.total < c.total
  · have hpos : 0 < delta c.total g.prevCpuJiffies.total := by
      unfold delta
      rw [if_pos (le_of_lt hgrew)]
      omega
    rw [if_pos hpos]
    have hshare : ∀ counter : CpuRawJiffies → Nat, (∀ c, counter c ≤ CpuRawJiffies.sum c) →
        (delta (counter c) (counter g.prevCpuJiffies) ≤ delta c.total g.prevCpuJiffies.total ↔
          Covered g.prevCpuJiffies c counter) := fun _ hle => delta_le_iff hp hsum hgrew hle
    have huser := hshare CpuRawJiffies.user fun c => by
      unfold CpuRawJiffies.sum
      omega
    have hsystem := hshare CpuRawJiffies.system fun c => by
      unfold CpuRawJiffies.sum
      omega
    have hidle := hshare CpuRawJiffies.idle fun c => by
      unfold CpuRawJiffies.sum
      omega
    constructor
    · intro hm
      exact ⟨huser.mp hm.user, hsystem.mp hm.system, hidle.mp hm.idle⟩
    · intro hs
      refine ⟨?_, huser.mpr hs.user, hsystem.mpr hs.system, hidle.mpr hs.idle⟩
      unfold Percent.Proper
      simp only
      split <;> omega
  · -- the total did not grow: no share is computed from it
    have hzero : delta c.total g.prevCpuJiffies.total = 0 := by
      unfold delta
      split <;> omega
    rw [hzero, if_neg (by decide)]
    exact ⟨fun _ => ⟨fun h => absurd h hgrew, fun h => absurd h hgrew, fun h => absurd h hgrew⟩,
      fun _ => ⟨Nat.zero_le _, Nat.zero_le _, Nat.zero_le _, Nat.le_refl _⟩⟩

/-- **The reports of a whole run**, by induction on the calls. -/
theorem reports_proper_iff {g : Parser} (hg : g.prevCpuJiffies.Summed) {fs : List File}
    {ms : List CpuMetrics} (h : g.reports fs = some ms) :
    ∃ cs, fs.map parseCpu = cs.map some ∧
      ((∀ m ∈ ms, m.Proper) ↔ List.IsChain Steady (g.prevCpuJiffies :: cs)) := by
  induction fs generalizing g ms with
  | nil =>
    obtain rfl := Option.some.inj h
    exact ⟨[], rfl, by simp⟩
  | cons f fs ih =>
    rw [reports] at h
    obtain ⟨⟨m, g'⟩, hread, h⟩ := Option.bind_eq_some_iff.mp h
    obtain ⟨ms', hrest, h⟩ := Option.bind_eq_some_iff.mp h
    obtain rfl := Option.some.inj h
    obtain ⟨c, hc, hprev, hproper⟩ := readCpu_some hread
    have hg' : g'.prevCpuJiffies.Summed := by
      rw [hprev]
      exact parseCpu_summed hc
    obtain ⟨cs, hcs, hall⟩ := ih hg' hrest
    refine ⟨c :: cs, by rw [List.map_cons, List.map_cons, hc, hcs], ?_⟩
    rw [List.isChain_cons_cons, ← hproper hg, ← hprev, ← hall]
    simp

/-- **When the shares of the CPU are proper fractions.**  Over every run of successful
calls from the start: all shares of all reports are proper exactly when, from each reading
to the next, wherever the total grew and one of the three counters grew, the seven others
together did not go back. -/
theorem cpu_shares_proper_iff {g : Parser} (hg : g.prevCpuJiffies = {}) {fs : List File}
    {ms : List CpuMetrics} (h : g.reports fs = some ms) :
    ∃ cs, fs.map parseCpu = cs.map some ∧
      ((∀ m ∈ ms, m.Proper) ↔ List.IsChain Steady ({} :: cs)) := by
  have hsummed : g.prevCpuJiffies.Summed := by
    rw [hg]
    rfl
  obtain ⟨cs, hcs, hall⟩ := reports_proper_iff hsummed h
  rw [hg] at hall
  exact ⟨cs, hcs, hall⟩

/-- `iowait` goes back by 90 while `user` grows by 100: user code had 1000 percent of the
CPU. -/
theorem cpu_shares_improper :
    reports {} [some (bytes "cpu  0 0 0 0 100 0 0 0\n"), some (bytes "cpu  100 0 0 0 10 0 0 0\n")] =
      some [⟨⟨100, 100, 1⟩, ⟨0, 100, 1⟩, ⟨0, 100, 1⟩, ⟨0, 100, 1⟩, 1⟩,
        ⟨⟨10, 10, 1⟩, ⟨100, 10, 1⟩, ⟨0, 10, 1⟩, ⟨0, 10, 1⟩, 1⟩] ∧
    ¬ CpuMetrics.Proper ⟨⟨10, 10, 1⟩, ⟨100, 10, 1⟩, ⟨0, 10, 1⟩, ⟨0, 10, 1⟩, 1⟩ := by
  refine ⟨by decide +kernel, fun h => ?_⟩
  exact absurd h.user (by unfold Percent.Proper; decide)

/-- A reading with four counters, and a later one with eight. -/
theorem cpu_shares_proper_iff_growing :
    ∃ ms, reports {} [some (bytes "cpu  10 1 5 40\n"), some (bytes "cpu  12 1 6 70 9 0 0 2\n")] =
      some ms ∧ ∀ m ∈ ms, m.Proper := by
  have hrun : reports {} [some (bytes "cpu  10 1 5 40\n"),
      some (bytes "cpu  12 1 6 70 9 0 0 2\n")] =
      some [⟨⟨16, 56, 1⟩, ⟨10, 56, 1⟩, ⟨5, 56, 1⟩, ⟨40, 56, 1⟩, 1⟩,
        ⟨⟨14, 44, 1⟩, ⟨2, 44, 1⟩, ⟨1, 44, 1⟩, ⟨30, 44, 1⟩, 1⟩] := by
    decide +kernel
  obtain ⟨cs, hcs, hall⟩ := cpu_shares_proper_iff rfl hrun
  have hvals : [some (bytes "cpu  10 1 5 40\n"), some (bytes "cpu  12 1 6 70 9 0 0 2\n")].map
      parseCpu = [⟨10, 1, 5, 40, 0, 0, 0, 0, 56⟩, ⟨12, 1, 6, 70, 9, 0, 0, 2, 100⟩].map some := by
    decide +kernel
  rw [hvals] at hcs
  obtain rfl := (List.map_inj_right fun _ _ h => Option.some.inj h).mp hcs
  refine ⟨_, hrun, hall.mpr ?_⟩
  simp only [List.isChain_cons_cons, List.isChain_singleton, and_true]
  exact ⟨.of_grown (by decide +kernel) (by decide), .of_grown (by decide +kernel) (by decide)⟩

end Parser

end MemoryMonitor
