import MemoryMonitor.PreloadSpec
import MemoryMonitor.ClientContract

/-! # The shim and its client as one machine

One call of an entry point after the other, none of them from inside the allocator,
with the client's stores in between.  Each step keeps the shim's invariant, and the log
says which pointers went to `my_free` and `my_realloc`.
-/
namespace MemoryMonitor

open ByteMemory

/-- A call of an entry point, or a store of the client into its own bytes. -/
inductive ShimCall where
  | malloc (size : Nat)
  | calloc (nmemb size : Nat)
  | realloc (ptr size : Nat)
  | reallocarray (ptr nmemb size : Nat)
  | posixMemalign (alignment size : Nat)
  | alignedAlloc (alignment size : Nat)
  | memalign (alignment size : Nat)
  | valloc (sysconf : Int) (size : Nat)
  | pvalloc (sysconf : Int) (size : Nat)
  | free (ptr : Nat)
  | store (ptr off : Nat) (b : UInt8)

/-- The pointer a call is about; `NULL` when it takes none. -/
def ShimCall.operand : ShimCall → Nat
  | .realloc ptr _ => ptr
  | .reallocarray ptr _ _ => ptr
  | .free ptr => ptr
  | _ => 0

namespace Process

/-- A call that asked for `n` bytes has returned. -/
def give (P : Process) (n : Nat) (r : Nat × Shim) : Process × Nat :=
  (⟨r.2, if r.1 = 0 then P.live else record r.2.log r.1 n :: P.live⟩, r.1)

/-- `realloc`, and what the client holds after it. -/
def resize (P : Process) (o : Oracle) (ptr size : Nat) : Except Fault (Process × Nat) := do
  let (q, s) ← P.shim.realloc o ptr size
  if ptr = 0 then .ok (P.give size (q, s))
  else .ok (⟨s, resized s.log ptr size q P.live⟩, q)

/-- One step. -/
def step (P : Process) : ShimCall × Oracle → Except Fault (Process × Nat)
  | (.malloc size, o) => do .ok (P.give size (← P.shim.malloc o size))
  | (.calloc nmemb size, o) => do .ok (P.give (nmemb * size) (← P.shim.calloc o nmemb size))
  | (.realloc ptr size, o) => P.resize o ptr size
  | (.reallocarray ptr nmemb size, o) =>
    -- the entry point calls `realloc` unless the product overflows
    if nmemb ≠ 0 ∧ (2 ^ 64 - 1) / nmemb < size then do
      let (q, s) ← P.shim.reallocarray o ptr nmemb size
      .ok (⟨s, P.live⟩, q)
    else P.resize o ptr (nmemb * size % 2 ^ 64)
  | (.posixMemalign alignment size, o) => do
    .ok (P.give size (← P.shim.posixMemalign o alignment size))
  | (.alignedAlloc alignment size, o) => do
    .ok (P.give size (← P.shim.alignedAlloc o alignment size))
  | (.memalign alignment size, o) => do .ok (P.give size (← P.shim.memalign o alignment size))
  | (.valloc sysconf size, o) => do .ok (P.give size (← P.shim.valloc o sysconf size))
  | (.pvalloc sysconf size, o) => do .ok (P.give size (← P.shim.pvalloc o sysconf size))
  | (.free ptr, o) => do .ok (⟨← P.shim.free o ptr, without ptr P.live⟩, 0)
  | (.store ptr off b, _) => .ok (⟨{ P.shim with st := { P.shim.st with
      mem := Function.update P.shim.st.mem (ptr + off) b } }, P.live⟩, 0)

/-- The client passes only pointers it holds and stores only into what it asked for;
arguments are machine words. -/
def Allowed (P : Process) : ShimCall → Prop
  | .realloc ptr _ => ptr = 0 ∨ ∃ e ∈ P.live, e.ptr = ptr
  | .reallocarray ptr _ _ => ptr = 0 ∨ ∃ e ∈ P.live, e.ptr = ptr
  | .free ptr => ptr = 0 ∨ ∃ e ∈ P.live, e.ptr = ptr
  | .store ptr off _ => ∃ e ∈ P.live, e.ptr = ptr ∧ off < e.size
  | .posixMemalign alignment _ => alignment < 2 ^ 64
  | .alignedAlloc alignment _ => alignment < 2 ^ 64
  | .memalign alignment _ => alignment < 2 ^ 64
  | .valloc sysconf _ => sysconf < 2 ^ 63
  | .pvalloc sysconf _ => sysconf < 2 ^ 63
  | _ => True

/-- A process that has not called the allocator yet; its static buffer is mapped. -/
structure Started (P : Process) : Prop where
  boot : Boot P.shim.st
  idle : P.shim.inAllocator = false
  log : P.shim.log = []
  live : P.live = []
  segment : ∃ mp ∈ P.shim.st.maps, mp.addr ≤ P.shim.bootstrapBuf ∧
    P.shim.bootstrapBuf + bootstrapBufSize ≤ mp.addr + mp.len

end Process

/-- The calls of a process through the shim. -/
def preload : Runs.Machine Process (ShimCall × Oracle) Nat Fault :=
  ⟨fun P c => P.Allowed c.1, Process.step⟩

/-- A store of one byte into a range. -/
theorem update_eqOn {m : Mem} {a n off : Nat} (h : off < n) (b : UInt8) :
    Set.EqOn (Function.update m (a + off) b) m (range a n)ᶜ := by
  intro x hx
  rw [Set.mem_compl_iff, mem_range] at hx
  exact Function.update_of_ne (by omega) _ _

namespace ShimInv
variable {P : Process}

theorem started (h : P.Started) : ShimInv P := by
  obtain ⟨mp, hmp, h1, h2⟩ := h.segment
  refine ⟨h.idle, ?_, ?_, ?_, ?_, mp, hmp, h1, h2, ?_⟩
  · rw [h.log]
    exact h.boot.inv
  · rw [h.log]
    exact trivial
  · rw [h.live]
    simp
  · rw [h.live]
    simp
  · rw [h.log]
    simp [outstanding]

/-- What a step ends with: the invariant, and the pointers that were handed over. -/
structure StepOk (P : Process) (c : ShimCall) (r : Process × Nat) : Prop where
  inv : ShimInv r.1
  log : ∃ new, r.1.shim.log = new ++ P.shim.log ∧ (c.operand = 0 → handed new = []) ∧
    ∀ e ∈ P.live, c.operand = e.ptr → handed new = [e.base] ∨
      c ≠ .free e.ptr ∧ r.2 = 0 ∧ handed new = []

theorem ptr_ne_zero (I : ShimInv P) {e : Client} (he : e ∈ P.live) : e.ptr ≠ 0 := by
  obtain ⟨k, hk, hp⟩ := I.placed e he
  have h1 : e.base ≠ 0 := I.inv.ptr_ne_zero hk
  have h2 := hp.base_le
  omega

/-- A call without a pointer. -/
theorem step_give (I : ShimInv P) {c : ShimCall} (hc : c.operand = 0) {n p : Nat} {s' : Shim}
    (hG : Gives P.shim P.live n p s') : StepOk P c (P.give n (p, s')) := by
  obtain ⟨new, hlog, hh⟩ := hG.plain
  refine ⟨hG.inv, new, hlog, fun _ => hh, fun e he heq => ?_⟩
  exact absurd (heq.symm.trans hc) (I.ptr_ne_zero he)

/-- `realloc` as a step. -/
theorem step_resize (I : ShimInv P) (o : Oracle) (size : Nat) {c : ShimCall}
    (hc : c.operand = 0 ∨ ∃ e ∈ P.live, e.ptr = c.operand) (hfree : ∀ ptr, c ≠ .free ptr) :
    ∃ r, P.resize o c.operand size = .ok r ∧ StepOk P c r := by
  unfold Process.resize
  by_cases h0 : c.operand = 0
  · obtain ⟨p, s', hr, hG, -⟩ := I.malloc o (le_refl size)
    have hr' : P.shim.realloc o c.operand size = .ok (p, s') := by
      rw [h0, Shim.realloc, if_pos rfl]
      exact hr
    simp only [hr', ok_bind, if_pos h0]
    exact ⟨_, rfl, I.step_give h0 hG⟩
  · obtain ⟨e, he, hptr⟩ := hc.resolve_left h0
    obtain ⟨q, s', hr, T⟩ := I.realloc o he size
    rw [hptr] at hr
    simp only [hr, ok_bind, if_neg h0]
    obtain ⟨new, hlog, hh⟩ := T.handed
    have hinv := T.inv
    rw [hptr] at hinv
    refine ⟨_, rfl, hinv, new, hlog, fun h => absurd h h0, fun e' he' heq => ?_⟩
    obtain rfl : e' = e := by
      by_contra hne
      exact I.ptr_ne he' he hne (heq.symm.trans hptr.symm)
    rcases hh with hh | ⟨hq, -, hh⟩
    · exact Or.inl hh
    · exact Or.inr ⟨hfree _, hq, hh⟩

/-- **No step faults, and every one keeps the invariant.** -/
theorem step (I : ShimInv P) {c : ShimCall} (hc : P.Allowed c) (o : Oracle) :
    ∃ r, P.step (c, o) = .ok r ∧ StepOk P c r := by
  cases c with
  | malloc size =>
    obtain ⟨p, s', hr, hG, -⟩ := I.malloc o (le_refl size)
    exact ⟨_, by rw [Process.step, hr, ok_bind], I.step_give rfl hG⟩
  | calloc nmemb size =>
    obtain ⟨p, s', hr, hG⟩ := I.calloc o nmemb size
    exact ⟨_, by rw [Process.step, hr, ok_bind], I.step_give rfl hG⟩
  | posixMemalign alignment size =>
    obtain ⟨p, s', hr, hG⟩ := (I.serves o).posixMemalign hc (le_refl size)
    exact ⟨_, by rw [Process.step, hr, ok_bind], I.step_give rfl hG⟩
  | alignedAlloc alignment size =>
    obtain ⟨p, s', hr, hG⟩ := (I.serves o).alignedAlloc size hc
    exact ⟨_, by rw [Process.step, hr, ok_bind], I.step_give rfl hG⟩
  | memalign alignment size =>
    obtain ⟨p, s', hr, hG⟩ := (I.serves o).memalign size hc
    exact ⟨_, by rw [Process.step, hr, ok_bind], I.step_give rfl hG⟩
  | valloc sysconf size =>
    obtain ⟨p, s', hr, hG⟩ := (I.serves o).valloc size hc
    exact ⟨_, by rw [Process.step, hr, ok_bind], I.step_give rfl hG⟩
  | pvalloc sysconf size =>
    obtain ⟨p, s', hr, hG⟩ := (I.serves o).pvalloc size hc
    exact ⟨_, by rw [Process.step, hr, ok_bind], I.step_give rfl hG⟩
  | realloc ptr size => exact I.step_resize o size (c := .realloc ptr size) hc (by simp)
  | reallocarray ptr nmemb size =>
    by_cases hover : nmemb ≠ 0 ∧ (2 ^ 64 - 1) / nmemb < size
    · have hr : P.shim.reallocarray o ptr nmemb size = .ok (0, P.shim) := if_pos hover
      refine ⟨(P, 0), by simp only [Process.step, if_pos hover, hr, ok_bind], I, [], rfl,
        fun _ => rfl, fun e _ _ => Or.inr ⟨by simp, rfl, rfl⟩⟩
    · have hr := I.step_resize o (nmemb * size % 2 ^ 64)
        (c := .reallocarray ptr nmemb size) hc (by simp)
      rw [Process.step, if_neg hover]
      exact hr
  | free ptr =>
    by_cases h0 : ptr = 0
    · have hr : P.shim.free o ptr = .ok P.shim := if_pos h0
      have hl : without ptr P.live = P.live := by
        refine List.filter_eq_self.mpr fun e he => ?_
        rw [decide_eq_true_eq, h0]
        exact I.ptr_ne_zero he
      refine ⟨_, by rw [Process.step, hr, ok_bind, hl], I, [], rfl, fun _ => rfl, fun e he heq => ?_⟩
      exact absurd (heq.symm.trans h0) (I.ptr_ne_zero he)
    · obtain ⟨e, he, rfl⟩ := hc.resolve_left h0
      obtain ⟨s', hr, F⟩ := I.free o he
      refine ⟨_, by rw [Process.step, hr, ok_bind], F.inv, [.took e.base], F.log,
        fun h => absurd h h0, fun e' he' heq => ?_⟩
      obtain rfl : e' = e := by
        by_contra hne
        exact I.ptr_ne he' he hne heq.symm
      exact Or.inl rfl
  | store ptr off b =>
    obtain ⟨e, he, rfl, hoff⟩ := hc
    refine ⟨_, rfl, (I.store he (update_eqOn (by omega) b)).1, [], rfl, fun _ => rfl,
      fun e' he' heq => ?_⟩
    exact absurd heq.symm (I.ptr_ne_zero he')

theorem of_reach (h : preload.Reach Process.Started P) : ShimInv P := by
  refine h.invariant (fun _ => .started) fun P c P' out I hc hs => ?_
  obtain ⟨r, hr, R⟩ := I.step hc c.2
  rw [show P.step (c.1, c.2) = .ok (P', out) from hs] at hr
  obtain rfl := Except.ok.inj hr
  exact R.inv

end ShimInv

/-- A process whose static data lies below its heap. -/
def preloadedProcess : Process where
  shim := ⟨{ freshProcess with
      brkFloor := 2097152, brk := 2097152, brkPeak := 2097152, maps := [⟨1048576, 131072⟩] },
    1048576, 0, false, []⟩
  live := []

theorem preloadedProcess_started : preloadedProcess.Started := by
  refine ⟨⟨rfl, rfl, rfl, rfl, rfl, ⟨by decide, by decide, by decide, by decide, by decide, ?_⟩,
    rfl, rfl⟩, rfl, rfl, rfl, ⟨1048576, 131072⟩, List.mem_singleton_self _, by decide, by decide⟩
  exact List.pairwise_singleton _ _

end MemoryMonitor
