import MemoryMonitor.PreloadContract

/-! # The bootstrap arena over whole sequences of requests

`bootstrap_alloc` advances its cursor with one atomic add and decides afterwards, from
the value the add returned, whether the chunk fits.  A request's outcome is therefore
settled at its add, and the requests of all threads are one sequence, in the order of
their adds.

The cursor counts every request that passes the size test, granted or not.  So it is the
demand so far, modulo the word size, and the answer to a request is a function of the
demand before it.
-/
namespace MemoryMonitor

open ByteMemory

namespace Shim

/-- The shim after requests of these sizes. -/
def bootstrapAll (s : Shim) (sizes : List Nat) : Shim :=
  sizes.foldl (fun s n => (s.bootstrapAlloc n).2) s

/-- What a request of `n` bytes returns after the requests `pre`. -/
def answer (s : Shim) (pre : List Nat) (n : Nat) : Nat := ((s.bootstrapAll pre).bootstrapAlloc n).1

/-- `chunk_total` of a request; one that fails the size test never gets to it. -/
def chunk (n : Nat) : Nat := if bootstrapBufSize - 16 < n then 0 else addSize 16 (align n)

/-- The chunks of all requests together. -/
def demand (sizes : List Nat) : Nat := (sizes.map chunk).sum

/-- The chunks of the requests that were granted. -/
def granted (s : Shim) : List Nat → Nat
  | [] => 0
  | n :: ns =>
    (if (s.bootstrapAlloc n).1 = 0 then 0 else chunk n) + granted (s.bootstrapAlloc n).2 ns

/-- The arena before its first request: the cursor is at the start, and the buffer is an
object of the program, away from the ends of the address space. -/
structure Unused (s : Shim) : Prop where
  offset : s.bootstrapOffset = 0
  low : bootstrapBufSize ≤ s.bootstrapBuf
  high : s.bootstrapBuf + bootstrapBufSize < 2 ^ 64

/-! ## Demand -/

theorem chunk_eq {n : Nat} (h : n ≤ bootstrapBufSize - 16) : chunk n = 16 + align n := by
  unfold bootstrapBufSize at h
  rw [chunk, bootstrapBufSize, if_neg (by omega), align, addSize, addSize]
  omega

theorem chunk_of_lt {n : Nat} (h : bootstrapBufSize - 16 < n) : chunk n = 0 := if_pos h

/-- A chunk is a header and a multiple of 16 bytes that covers the request, and no larger
than the buffer. -/
theorem chunk_bounds {n : Nat} (h : n ≤ bootstrapBufSize - 16) :
    16 + n ≤ chunk n ∧ chunk n < 16 + n + 16 ∧ chunk n % 16 = 0 ∧ chunk n ≤ bootstrapBufSize := by
  rw [chunk_eq h, align, addSize]
  unfold bootstrapBufSize at *
  omega

theorem chunk_le (n : Nat) : chunk n ≤ bootstrapBufSize := by
  by_cases h : bootstrapBufSize - 16 < n
  · rw [chunk_of_lt h]
    exact Nat.zero_le _
  · exact (chunk_bounds (by omega)).2.2.2

theorem chunk_mod (n : Nat) : chunk n % 16 = 0 := by
  by_cases h : bootstrapBufSize - 16 < n
  · rw [chunk_of_lt h]
  · exact (chunk_bounds (by omega)).2.2.1

@[simp] theorem demand_nil : demand [] = 0 := rfl

@[simp] theorem demand_cons (n : Nat) (ns : List Nat) : demand (n :: ns) = chunk n + demand ns :=
  List.sum_cons

@[simp] theorem demand_append (l r : List Nat) : demand (l ++ r) = demand l + demand r := by
  simp [demand]

theorem demand_mod (sizes : List Nat) : demand sizes % 16 = 0 := by
  induction sizes with
  | nil => rfl
  | cons n ns ih =>
    have := chunk_mod n
    rw [demand_cons]
    omega

/-- The request at which the demand first passes a limit. -/
theorem exists_first_over {limit : Nat} {sizes : List Nat} (h : limit < demand sizes) :
    ∃ pre n suf, sizes = pre ++ n :: suf ∧ demand pre ≤ limit ∧ limit < demand pre + chunk n := by
  induction sizes using List.reverseRecOn with
  | nil => simp at h
  | append_singleton ns n ih =>
    by_cases hns : limit < demand ns
    · obtain ⟨pre, k, suf, rfl, h1, h2⟩ := ih hns
      exact ⟨pre, k, suf ++ [n], by simp, h1, h2⟩
    · refine ⟨ns, n, [], rfl, by omega, ?_⟩
      simpa using h

/-- Every way to split a list at one of its members, by its index. -/
theorem forall_split {α : Type} {l : List α} {P : List α → α → Prop} :
    (∀ pre n suf, l = pre ++ n :: suf → P pre n) ↔
      ∀ i (h : i < l.length), P (l.take i) (l.get ⟨i, h⟩) := by
  constructor
  · intro h i hi
    exact h _ _ (l.drop (i + 1)) (by simp)
  · rintro h pre n suf rfl
    simpa using h pre.length (by simp)

/-! ## Answers -/

theorem bootstrapAll_append (s : Shim) (l r : List Nat) :
    s.bootstrapAll (l ++ r) = (s.bootstrapAll l).bootstrapAll r :=
  List.foldl_append

/-- One request: the cursor moves by the chunk, whatever the answer is. -/
theorem bootstrapAlloc_offset (s : Shim) (n : Nat) (h : s.bootstrapOffset < 2 ^ 64) :
    (s.bootstrapAlloc n).2.bootstrapOffset = (s.bootstrapOffset + chunk n) % 2 ^ 64 ∧
    (s.bootstrapAlloc n).2.bootstrapBuf = s.bootstrapBuf := by
  unfold bootstrapAlloc
  by_cases hn : bootstrapBufSize - 16 < n
  · rw [if_pos hn, chunk_of_lt hn]
    exact ⟨(Nat.mod_eq_of_lt h).symm, rfl⟩
  · have hc : chunk n = addSize 16 (align n) := if_neg hn
    rw [if_neg hn, hc]
    simp only
    split
    · exact ⟨rfl, rfl⟩
    · exact ⟨rfl, rfl⟩

/-- **The cursor is the demand so far**, over the whole run. -/
theorem bootstrapAll_offset {s : Shim} (h : s.bootstrapOffset = 0) (sizes : List Nat) :
    (s.bootstrapAll sizes).bootstrapOffset = demand sizes % 2 ^ 64 ∧
    (s.bootstrapAll sizes).bootstrapBuf = s.bootstrapBuf := by
  induction sizes using List.reverseRecOn with
  | nil => exact ⟨h, rfl⟩
  | append_singleton ns n ih =>
    obtain ⟨ho, hb⟩ := ih
    rw [bootstrapAll_append]
    obtain ⟨h1, h2⟩ := bootstrapAlloc_offset (s.bootstrapAll ns) n (by omega)
    refine ⟨h1.trans ?_, h2.trans hb⟩
    rw [ho, demand_append, demand_cons, demand_nil, Nat.add_zero, Nat.mod_add_mod]

/-- **The answer to a request**, from the demand before it. -/
theorem answer_eq {s : Shim} (U : Unused s) (pre : List Nat) (n : Nat) :
    s.answer pre n =
      if bootstrapBufSize - 16 < n then 0
      else if bootstrapBufSize < (demand pre + chunk n) % 2 ^ 64 then 0
      else (s.bootstrapBuf + demand pre + 16) % 2 ^ 64 := by
  obtain ⟨ho, hb⟩ := bootstrapAll_offset U.offset pre
  unfold answer bootstrapAlloc
  by_cases hn : bootstrapBufSize - 16 < n
  · rw [if_pos hn, if_pos hn]
  · have hc : addSize 16 (align n) = chunk n := (if_neg hn).symm
    rw [if_neg hn, if_neg hn]
    simp only
    rw [hc, ho, hb, show addSize (demand pre % 2 ^ 64) (chunk n) = (demand pre + chunk n) % 2 ^ 64
      from Nat.mod_add_mod ..]
    split
    · rfl
    · unfold addSize
      omega

/-- While the cursor has not wrapped, a request is refused exactly when its chunk does not
fit behind the demand so far. -/
theorem answer_eq_zero {s : Shim} (U : Unused s) {pre : List Nat} {n : Nat}
    (hn : n ≤ bootstrapBufSize - 16) (hlt : demand pre + chunk n < 2 ^ 64) :
    s.answer pre n = 0 ↔ bootstrapBufSize < demand pre + chunk n := by
  have hlow := U.low
  have hhigh := U.high
  have hc := (chunk_bounds hn).1
  rw [answer_eq U, if_neg (by omega), Nat.mod_eq_of_lt hlt]
  by_cases hover : bootstrapBufSize < demand pre + chunk n
  · simp [hover]
  · rw [if_neg hover]
    simp only [hover, iff_false]
    unfold bootstrapBufSize at *
    omega

/-! ## Recognition -/

/-- What `is_bootstrap_ptr` says of an answer: the pointer is one header beyond the cursor
before the request. -/
theorem answer_recognised {s : Shim} (U : Unused s) {pre : List Nat} {n : Nat}
    (hn : n ≤ bootstrapBufSize - 16) :
    (s.answer pre n ≠ 0 → s.isBootstrapPtr (s.answer pre n) = true) ↔
      ¬ (n = 0 ∧ demand pre % 2 ^ 64 = bootstrapBufSize - 16) ∧
      ¬ (demand pre % 2 ^ 64 + 16 < 2 ^ 64 ∧ 2 ^ 64 ≤ demand pre % 2 ^ 64 + chunk n) := by
  have hlow := U.low
  have hhigh := U.high
  have hmod := demand_mod pre
  obtain ⟨hc1, hc2, hc3, hc4⟩ := chunk_bounds hn
  have hsum : (demand pre + chunk n) % 2 ^ 64 = (demand pre % 2 ^ 64 + chunk n) % 2 ^ 64 :=
    (Nat.mod_add_mod ..).symm
  have hptr : (s.bootstrapBuf + demand pre + 16) % 2 ^ 64 =
      (s.bootstrapBuf + demand pre % 2 ^ 64 + 16) % 2 ^ 64 := by omega
  have hoff : demand pre % 2 ^ 64 % 16 = 0 := by omega
  have hlt : demand pre % 2 ^ 64 < 2 ^ 64 := Nat.mod_lt _ (by decide)
  rw [answer_eq U, if_neg (by omega), hsum, hptr]
  generalize demand pre % 2 ^ 64 = off at *
  unfold isBootstrapPtr
  unfold bootstrapBufSize at *
  by_cases hwrap : off + chunk n < 2 ^ 64
  · rw [Nat.mod_eq_of_lt hwrap]
    split
    · -- refused: the cursor is beyond the last header
      simp only [ne_eq, not_true_eq_false, false_imp_iff, true_iff]
      omega
    · rw [Nat.mod_eq_of_lt (by omega)]
      simp only [Bool.and_eq_true, decide_eq_true_eq]
      omega
  · -- the cursor wraps, and the request is granted
    rw [Nat.mod_eq_sub_mod (by omega), Nat.mod_eq_of_lt (by omega), if_neg (by omega)]
    simp only [Bool.and_eq_true, decide_eq_true_eq]
    omega

/-- **An arena pointer is recognised unless it is the end of the buffer.**  Over every
sequence of requests, every pointer returned passes `is_bootstrap_ptr` if and only if no
request of size 0 finds exactly its header's 16 bytes left, and none carries the cursor
around the word size. -/
theorem bootstrap_recognised_iff {s : Shim} (U : Unused s) (sizes : List Nat) :
    (∀ pre n suf, sizes = pre ++ n :: suf → s.answer pre n ≠ 0 →
        s.isBootstrapPtr (s.answer pre n) = true) ↔
      ∀ pre n suf, sizes = pre ++ n :: suf → n ≤ bootstrapBufSize - 16 →
        ¬ (n = 0 ∧ demand pre % 2 ^ 64 = bootstrapBufSize - 16) ∧
        ¬ (demand pre % 2 ^ 64 + 16 < 2 ^ 64 ∧ 2 ^ 64 ≤ demand pre % 2 ^ 64 + chunk n) := by
  constructor
  · intro h pre n suf hs hn
    exact (answer_recognised U hn).mp (h pre n suf hs)
  · intro h pre n suf hs hne
    by_cases hn : bootstrapBufSize - 16 < n
    · rw [answer_eq U, if_pos hn] at hne
      exact absurd rfl hne
    · exact (answer_recognised U (by omega)).mpr (h pre n suf hs (by omega)) hne

/-- The static buffer of `preloadedProcess`. -/
theorem preloaded_unused : Unused preloadedProcess.shim :=
  ⟨rfl, by decide, by decide⟩

/-- The largest request that leaves room for one more header, and then `malloc(0)`: the
second pointer is the end of the buffer, and `free` of it stops the program. -/
theorem bootstrap_recognised_fails :
    ¬ (∀ pre n suf, [131040, 0] = pre ++ n :: suf → preloadedProcess.shim.answer pre n ≠ 0 →
        preloadedProcess.shim.isBootstrapPtr (preloadedProcess.shim.answer pre n) = true) ∧
    Runs.faultOf (((preloadedProcess.shim.bootstrapAll [131040, 0]).free {}
        (preloadedProcess.shim.answer [131040] 0)).map fun t => (t, ())) =
      some (.abort "[FATAL] Heap corruption: Invalid magic header canary in my_free\n") := by
  have hans : preloadedProcess.shim.answer [131040] 0 = 1179648 := by decide +kernel
  refine ⟨fun h => ?_, by decide +kernel⟩
  have hrec := h [131040] 0 [] rfl (by rw [hans]; decide)
  rw [hans] at hrec
  exact absurd hrec (by decide +kernel)

theorem bootstrap_recognised_iff_mixed :
    preloadedProcess.shim.answer [0] 100000 = 1048608 ∧
      preloadedProcess.shim.isBootstrapPtr (preloadedProcess.shim.answer [0] 100000) = true := by
  have hans : preloadedProcess.shim.answer [0] 100000 = 1048608 := by decide +kernel
  have hall := (bootstrap_recognised_iff preloaded_unused [0, 100000, 100000, 0]).mpr (by
    rw [forall_split]
    decide +kernel)
  exact ⟨hans, hall [0] 100000 [100000, 0] rfl (by rw [hans]; decide)⟩

/-! ## Refusals -/

theorem granted_append (s : Shim) (ns : List Nat) (n : Nat) :
    s.granted (ns ++ [n]) = s.granted ns + if s.answer ns n = 0 then 0 else chunk n := by
  induction ns generalizing s with
  | nil =>
    show (if (s.bootstrapAlloc n).1 = 0 then 0 else chunk n) + 0 = 0 + _
    rw [Nat.add_comm]
    rfl
  | cons k ns ih =>
    rw [List.cons_append, granted, granted, ih, Nat.add_assoc]
    rfl

/-- While the requests fit, all of them are granted. -/
theorem granted_of_le {s : Shim} (U : Unused s) {sizes : List Nat}
    (h : demand sizes ≤ bootstrapBufSize) : s.granted sizes = demand sizes := by
  induction sizes using List.reverseRecOn with
  | nil => rfl
  | append_singleton ns n ih =>
    rw [demand_append, demand_cons, demand_nil, Nat.add_zero] at h ⊢
    rw [granted_append, ih (by omega)]
    by_cases hn : bootstrapBufSize - 16 < n
    · rw [chunk_of_lt hn, ite_self]
    · have hne : s.answer ns n ≠ 0 := by
        rw [ne_eq, answer_eq_zero U (by omega) (by unfold bootstrapBufSize at *; omega)]
        omega
      rw [if_neg hne]

/-- After a request that did not fit nothing more is granted, until the cursor wraps. -/
theorem granted_after_refusal {s : Shim} (U : Unused s) {pre mid : List Nat} {n : Nat}
    (hpre : demand pre ≤ bootstrapBufSize) (hover : bootstrapBufSize < demand pre + chunk n)
    (hlt : demand (pre ++ n :: mid) < 2 ^ 64) : s.granted (pre ++ n :: mid) = demand pre := by
  have hrefused : ∀ {l : List Nat} {m : Nat}, demand l + chunk m < 2 ^ 64 →
      bootstrapBufSize < demand l + chunk m → s.answer l m = 0 := by
    intro l m hlt hov
    by_cases hm : bootstrapBufSize - 16 < m
    · rw [answer_eq U, if_pos hm]
    · exact (answer_eq_zero U (by omega) hlt).mpr hov
  induction mid using List.reverseRecOn with
  | nil =>
    simp only [demand_append, demand_cons, demand_nil, Nat.add_zero] at hlt
    rw [granted_append, granted_of_le U hpre, if_pos (hrefused hlt hover), Nat.add_zero]
  | append_singleton mid m ih =>
    rw [show pre ++ n :: (mid ++ [m]) = (pre ++ n :: mid) ++ [m] by simp] at hlt ⊢
    rw [demand_append, demand_cons, demand_nil, Nat.add_zero] at hlt
    have hov : bootstrapBufSize < demand (pre ++ n :: mid) + chunk m := by
      rw [demand_append, demand_cons]
      omega
    rw [granted_append, ih (by omega), if_pos (hrefused hlt hov), Nat.add_zero]

/-- **A refused request costs nothing**: a request that would fit beside the granted ones
is granted, and a refused one does not show in any later answer. -/
structure RefusalsFree (s : Shim) (sizes : List Nat) : Prop where
  full : ∀ pre n suf, sizes = pre ++ n :: suf → n ≤ bootstrapBufSize - 16 → s.answer pre n = 0 →
    bootstrapBufSize < 16 + align n + s.granted pre
  unseen : ∀ pre n mid m suf, sizes = pre ++ n :: (mid ++ m :: suf) → s.answer pre n = 0 →
    s.answer (pre ++ n :: mid) m = s.answer (pre ++ mid) m

/-- Nothing that would have fitted comes after the first request that did not. -/
def NoneAfterFull (sizes : List Nat) : Prop :=
  ∀ pre n mid m suf, sizes = pre ++ n :: (mid ++ m :: suf) → m ≤ bootstrapBufSize - 16 →
    demand pre ≤ bootstrapBufSize → bootstrapBufSize < demand pre + chunk n →
    bootstrapBufSize < demand pre + chunk m

theorem RefusalsFree.of_noneAfterFull {s : Shim} (U : Unused s) {sizes : List Nat}
    (hlt : demand sizes < 2 ^ 64) (hN : NoneAfterFull sizes) : RefusalsFree s sizes := by
  constructor
  · rintro pre n suf rfl hn hzero
    rw [demand_append, demand_cons] at hlt
    rw [answer_eq_zero U hn (by omega)] at hzero
    rw [← chunk_eq hn]
    by_cases hpre : demand pre ≤ bootstrapBufSize
    · rw [granted_of_le U hpre]
      omega
    · obtain ⟨p, k, q, rfl, hp, hk⟩ := exists_first_over (Nat.lt_of_not_le hpre)
      rw [granted_after_refusal U hp hk (by omega)]
      have := hN p k q n suf (by simp) hn hp hk
      omega
  · rintro pre n mid m suf rfl hzero
    have htotal : demand (pre ++ n :: (mid ++ m :: suf)) =
        demand pre + chunk n + demand mid + chunk m + demand suf := by
      simp only [demand_append, demand_cons]
      omega
    by_cases hn : bootstrapBufSize - 16 < n
    · -- the size test failed before the cursor was touched
      rw [answer_eq U, answer_eq U]
      simp only [demand_append, demand_cons, chunk_of_lt hn, Nat.zero_add]
    by_cases hm : bootstrapBufSize - 16 < m
    · rw [answer_eq U, answer_eq U, if_pos hm, if_pos hm]
    rw [answer_eq_zero U (by omega) (by omega)] at hzero
    have h1 : s.answer (pre ++ n :: mid) m = 0 := by
      rw [answer_eq_zero U (by omega) (by simp only [demand_append, demand_cons]; omega)]
      simp only [demand_append, demand_cons]
      omega
    have h2 : s.answer (pre ++ mid) m = 0 := by
      rw [answer_eq_zero U (by omega) (by rw [demand_append]; omega), demand_append]
      by_cases hpre : demand pre ≤ bootstrapBufSize
      · have := hN pre n mid m suf rfl (by omega) hpre hzero
        omega
      · omega
    rw [h1, h2]

/-- The request that carries the cursor around is granted, where it would not have been
had the first refused request not been made. -/
theorem RefusalsFree.demand_lt {s : Shim} (U : Unused s) {sizes : List Nat}
    (h : RefusalsFree s sizes) : demand sizes < 2 ^ 64 := by
  by_contra hover
  obtain ⟨l, w, suf, rfl, hl, hw⟩ := exists_first_over (show 2 ^ 64 - 1 < demand sizes by omega)
  have hcw := chunk_le w
  have hlow := U.low
  have hhigh := U.high
  have hbuf : bootstrapBufSize = 131072 := rfl
  obtain ⟨p, n, q, rfl, hp, hn⟩ := exists_first_over (show bootstrapBufSize < demand l by omega)
  have hacc : ¬ bootstrapBufSize - 16 < n := by
    intro h
    rw [chunk_of_lt h] at hn
    omega
  have hwacc : ¬ bootstrapBufSize - 16 < w := by
    intro h
    rw [chunk_of_lt h] at hw
    omega
  have hcn := chunk_bounds (n := n) (by omega)
  rw [demand_append, demand_cons] at hl hw
  have hzero : s.answer p n = 0 := (answer_eq_zero U (by omega) (by omega)).mpr hn
  have heq := h.unseen p n q w suf (by simp) hzero
  rw [answer_eq U, answer_eq U, if_neg hwacc, if_neg hwacc] at heq
  simp only [demand_append, demand_cons] at heq
  rw [if_neg (by omega)] at heq
  split at heq
  · omega
  · omega

theorem RefusalsFree.noneAfterFull {s : Shim} (U : Unused s) {sizes : List Nat}
    (h : RefusalsFree s sizes) : NoneAfterFull sizes := by
  have hlt := h.demand_lt U
  rintro pre n mid m suf rfl hm hpre hover
  simp only [demand_append, demand_cons] at hlt
  have hzero : s.answer (pre ++ n :: mid) m = 0 := by
    rw [answer_eq_zero U hm (by simp only [demand_append, demand_cons]; omega)]
    simp only [demand_append, demand_cons]
    omega
  have hfull := h.full (pre ++ n :: mid) m suf (by simp) hm hzero
  rw [granted_after_refusal U hpre hover (by simp only [demand_append, demand_cons]; omega),
    ← chunk_eq hm] at hfull
  omega

/-- **When refused requests cost nothing**: exactly while the cursor has not wrapped and no
request that would have fitted comes after the first one that did not. -/
theorem refusals_free_iff {s : Shim} (U : Unused s) (sizes : List Nat) :
    RefusalsFree s sizes ↔ demand sizes < 2 ^ 64 ∧ NoneAfterFull sizes := by
  constructor
  · intro h
    exact ⟨h.demand_lt U, h.noneAfterFull U⟩
  · rintro ⟨hlt, hN⟩
    exact .of_noneAfterFull U hlt hN

/-- 100000 bytes twice, of which the second is refused, and then 16 bytes: less than
100100 bytes of the buffer are in use, and the small request is refused too. -/
theorem refusals_free_fails :
    preloadedProcess.shim.granted [100000, 100000] = 100016 ∧
    preloadedProcess.shim.answer [100000] 16 ≠ 0 ∧
    ¬ RefusalsFree preloadedProcess.shim [100000, 100000, 16] := by
  have hgrant : preloadedProcess.shim.granted [100000, 100000] = 100016 := by decide +kernel
  refine ⟨hgrant, by decide +kernel, fun h => ?_⟩
  have hfull := h.full [100000, 100000] 16 [] rfl (by decide) (by decide +kernel)
  rw [hgrant] at hfull
  exact absurd hfull (by decide)

theorem refusals_free_iff_exhausted : RefusalsFree preloadedProcess.shim [60000, 71040, 5, 7] := by
  have hfull : ∀ pre n suf, [60000, 71040, 5, 7] = pre ++ n :: suf →
      demand pre ≤ bootstrapBufSize → bootstrapBufSize < demand pre + chunk n →
      demand pre = bootstrapBufSize := by
    rw [forall_split]
    decide +kernel
  refine (refusals_free_iff preloaded_unused _).mpr ⟨by decide, ?_⟩
  intro pre n mid m suf h hm hpre hover
  have := hfull pre n _ h hpre hover
  have := (chunk_bounds hm).1
  omega

end Shim

end MemoryMonitor
