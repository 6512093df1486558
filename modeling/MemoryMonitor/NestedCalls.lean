import MemoryMonitor.ArenaSpec

/-! # Calls from inside the allocator

The entry points again as one machine, now with calls that the allocator itself causes
(`in_allocator`) among the others, in any order.  A nested call that gives memory gives a
chunk of the bootstrap arena; a call that is not nested gives a block of the allocator.
The client holds allocations of both kinds and passes either kind to either kind of call.

Heap and arena are two invariants side by side: what one of them does leaves the bytes of
the other alone.
-/
namespace MemoryMonitor

open ByteMemory

/-- The shim, the allocations its client has in blocks of the allocator, and those it has
in the bootstrap arena. -/
structure Nesting where
  shim : Shim
  heap : List Client
  arena : List Client

namespace Nesting

/-- The shim as a call finds it. -/
def enter (N : Nesting) (nested : Bool) : Shim := { N.shim with inAllocator := nested }

/-- The client gives up the pointer `ptr`. -/
def drop (N : Nesting) (ptr : Nat) : Nesting :=
  { N with heap := without ptr N.heap, arena := without ptr N.arena }

/-- What a call has logged. -/
def fresh (before after : Shim) : List Event :=
  after.log.take (after.log.length - before.log.length)

/-- A call that asked for `n` bytes has returned.  `bootstrap_alloc` logs nothing, so only
what the call itself has logged says whether the pointer is aligned. -/
def give (N : Nesting) (nested : Bool) (n : Nat) (r : Nat × Shim) : Nesting :=
  if r.1 = 0 then ⟨r.2.leave, N.heap, N.arena⟩
  else if nested then ⟨r.2.leave, N.heap, record (fresh N.shim r.2) r.1 n :: N.arena⟩
  else ⟨r.2.leave, record r.2.log r.1 n :: N.heap, N.arena⟩

/-- The client when `realloc` of `ptr` to `size` bytes has returned `q`: it keeps `ptr` only
if the call failed. -/
def spare (N : Nesting) (ptr size q : Nat) : Nesting :=
  if q = 0 ∧ size ≠ 0 then N else N.drop ptr

/-- `realloc`, and what the client holds after it. -/
def resize (N : Nesting) (nested : Bool) (o : Oracle) (ptr size : Nat) :
    Except Fault (Nesting × Nat) := do
  let r ← (N.enter nested).realloc o ptr size
  .ok ((N.spare ptr size r.1).give nested size r, r.1)

/-- One step: a call, whether it is nested, and what the kernel answers. -/
def step (N : Nesting) : ShimCall × Bool × Oracle → Except Fault (Nesting × Nat)
  | (.malloc size, b, o) => do
    let r ← (N.enter b).malloc o size
    .ok (N.give b size r, r.1)
  | (.calloc nmemb size, b, o) => do
    let r ← (N.enter b).calloc o nmemb size
    .ok (N.give b (nmemb * size) r, r.1)
  | (.realloc ptr size, b, o) => N.resize b o ptr size
  | (.reallocarray ptr nmemb size, b, o) =>
    -- the entry point calls `realloc` unless the product overflows
    if nmemb ≠ 0 ∧ (2 ^ 64 - 1) / nmemb < size then do
      let r ← (N.enter b).reallocarray o ptr nmemb size
      .ok (⟨r.2.leave, N.heap, N.arena⟩, r.1)
    else N.resize b o ptr (nmemb * size % 2 ^ 64)
  | (.posixMemalign alignment size, b, o) => do
    let r ← (N.enter b).posixMemalign o alignment size
    .ok (N.give b size r, r.1)
  | (.alignedAlloc alignment size, b, o) => do
    let r ← (N.enter b).alignedAlloc o alignment size
    .ok (N.give b size r, r.1)
  | (.memalign alignment size, b, o) => do
    let r ← (N.enter b).memalign o alignment size
    .ok (N.give b size r, r.1)
  | (.valloc sysconf size, b, o) => do
    let r ← (N.enter b).valloc o sysconf size
    .ok (N.give b size r, r.1)
  | (.pvalloc sysconf size, b, o) => do
    let r ← (N.enter b).pvalloc o sysconf size
    .ok (N.give b size r, r.1)
  | (.free ptr, b, o) => do
    let s ← (N.enter b).free o ptr
    .ok (⟨s.leave, without ptr N.heap, without ptr N.arena⟩, 0)
  | (.store ptr off v, _, _) => .ok (⟨{ N.shim with st := { N.shim.st with
      mem := Function.update N.shim.st.mem (ptr + off) v } }, N.heap, N.arena⟩, 0)

section Outcomes
variable {N : Nesting} {n p ptr size q : Nat} {s : Shim} {b : Bool}

theorem give_zero : N.give b n (0, s) = ⟨s.leave, N.heap, N.arena⟩ := if_pos rfl

theorem give_true (hp : p ≠ 0) :
    N.give true n (p, s) = ⟨s.leave, N.heap, record (fresh N.shim s) p n :: N.arena⟩ :=
  if_neg hp

theorem give_false (hp : p ≠ 0) :
    N.give false n (p, s) = ⟨s.leave, record s.log p n :: N.heap, N.arena⟩ :=
  if_neg hp

theorem spare_moved (hq : q ≠ 0) : N.spare ptr size q = N.drop ptr := if_neg fun h => hq h.1

theorem spare_freed : N.spare ptr 0 q = N.drop ptr := if_neg fun h => h.2 rfl

theorem spare_failed (h0 : size ≠ 0) : N.spare ptr size 0 = N := if_pos ⟨rfl, h0⟩

end Outcomes

/-- The client passes only pointers it holds and stores only into what it asked for. -/
def Allowed (N : Nesting) (c : ShimCall) : Prop :=
  Process.Allowed ⟨N.shim, N.heap ++ N.arena⟩ c

/-- A process that has made no call yet. -/
structure Started (N : Nesting) : Prop where
  process : Process.Started ⟨N.shim, N.heap⟩
  arena : N.arena = []
  offset : N.shim.bootstrapOffset = 0

/-- **Where the arena can be trusted**: the pointer of the call is not the end of the
buffer, which `is_bootstrap_ptr` does not know; and a nested call finds the cursor at
least a buffer's length below the point where it wraps. -/
def Trusted (N : Nesting) (c : ShimCall × Bool × Oracle) : Prop :=
  c.1.operand ≠ N.shim.bootstrapBuf + bootstrapBufSize ∧
  (c.2.1 = true → N.shim.bootstrapOffset + bootstrapBufSize < 2 ^ 64)

end Nesting

/-- The calls of a process through the shim, nested ones included. -/
def nesting : Runs.Machine Nesting (ShimCall × Bool × Oracle) Nat Fault :=
  ⟨fun N c => N.Allowed c.1, Nesting.step⟩

/-- **The invariant of both kinds of memory.** -/
structure NestInv (N : Nesting) : Prop where
  heap : ShimInv ⟨N.shim, N.heap⟩
  arena : ArenaInv N.shim N.arena

theorem ShimInv.leave_eq {s : Shim} {live : List Client} (I : ShimInv ⟨s, live⟩) : s.leave = s := by
  have h : s.inAllocator = false := I.idle
  unfold Shim.leave
  rw [← h]

namespace NestInv
variable {N : Nesting}

theorem started (h : N.Started) : NestInv N := by
  refine ⟨.started h.process, ?_, ?_⟩
  · rw [h.arena]
    simp
  · rw [h.arena]
    simp

theorem enter_false (I : NestInv N) : N.enter false = N.shim := I.heap.leave_eq

theorem enter_leave (I : NestInv N) (b : Bool) : (N.enter b).leave = N.shim := I.heap.leave_eq

/-- **The arena is ready for a nested call.** -/
theorem ready (I : NestInv N) (h : N.shim.bootstrapOffset + bootstrapBufSize < 2 ^ 64) :
    (N.enter true).Ready := by
  obtain ⟨mp, hmp, h1, h2, -⟩ := I.heap.segment
  obtain ⟨lo, segs, lists, H⟩ := I.heap.inv
  have hlim := (H.kernel.placed mp hmp).2.2.2.1
  simp only at h1 h2
  unfold addrLimit at hlim
  refine ⟨rfl, h, ?_, fun b c hb hc => State.deref_pos (Or.inr ⟨mp, hmp, ?_, ?_⟩)⟩
  · show N.shim.bootstrapBuf + bootstrapBufSize < 2 ^ 64
    omega
  · exact h1.trans hb
  · exact hc.trans h2

/-- The client may forget pointers at any time. -/
theorem forget (I : NestInv N) {heap arena : List Client} (hh : heap.Sublist N.heap)
    (ha : arena ⊆ N.arena) : NestInv ⟨N.shim, heap, arena⟩ :=
  ⟨I.heap.of_sublist hh, I.arena.of_subset ha⟩

theorem drop (I : NestInv N) (ptr : Nat) : NestInv (N.drop ptr) :=
  I.forget List.filter_sublist List.filter_sublist.subset

@[simp] theorem spare_shim (N : Nesting) (ptr size q : Nat) :
    (N.spare ptr size q).shim = N.shim := by
  unfold Nesting.spare
  split <;> rfl

@[simp] theorem spare_enter (N : Nesting) (ptr size q : Nat) (b : Bool) :
    (N.spare ptr size q).enter b = N.enter b := by
  unfold Nesting.enter
  rw [spare_shim]

theorem spare (I : NestInv N) (ptr size q : Nat) : NestInv (N.spare ptr size q) := by
  unfold Nesting.spare
  split
  · exact I
  · exact I.drop ptr

/-! ## Calls that give memory -/

/-- The heap has moved on, and the arena is as it was. -/
theorem of_heap (I : NestInv N) {s' : Shim} {heap : List Client} (H : ShimInv ⟨s', heap⟩)
    (h : SameArena N.shim s') : NestInv ⟨s'.leave, heap, N.arena⟩ := by
  rw [H.leave_eq]
  exact ⟨H, I.arena.of_same h⟩

theorem give_heap (I : NestInv N) {n p : Nat} {s' : Shim} (G : ShimInv.Gives N.shim N.heap n p s') :
    NestInv (N.give false n (p, s')) := by
  have hI := I.of_heap G.inv G.arena
  by_cases hp : p = 0
  · rw [if_pos hp] at hI
    rw [hp, Nesting.give_zero]
    exact hI
  · rw [if_neg hp] at hI
    rw [Nesting.give_false hp]
    exact hI

/-- A call that gives nothing and changes nothing. -/
theorem give_null (I : NestInv N) (b : Bool) (n : Nat) : NestInv (N.give b n (0, N.enter b)) := by
  rw [Nesting.give_zero, I.enter_leave]
  exact I

theorem fresh_append {s s' : Shim} {new : List Event} (h : s'.log = new ++ s.log) :
    Nesting.fresh s s' = new := by
  simp [Nesting.fresh, h]

theorem give_arena (I : NestInv N) {n p : Nat} {s' : Shim} (h : (N.enter true).Carves n p s') :
    NestInv (N.give true n (p, s')) := by
  have hbase : (N.enter true).nextBase ≠ 0 := by
    unfold Shim.nextBase
    omega
  have hleave : ShimInv ⟨(N.enter true).leave, N.heap⟩ := by
    rw [I.enter_leave]
    exact I.heap
  have A : ArenaInv (N.enter true) N.arena := I.arena.congr rfl (le_refl _) fun _ _ _ _ => rfl
  cases h with
  | @refused off hoff =>
    rw [Nesting.give_zero]
    refine ⟨I.heap.of_arena (fun _ _ => rfl) off rfl I.heap.routed, ?_⟩
    exact I.arena.congr rfl hoff fun _ _ _ _ => rfl
  | @plain k _ C hlog hn =>
    have hfresh : Nesting.fresh N.shim s' = [] := fresh_append hlog
    rw [Nesting.give_true hbase, hfresh]
    refine ⟨hleave.carve C (by rw [hlog]) (by rw [hlog]; exact I.heap.routed), ?_⟩
    refine ArenaInv.congr (A.carve C ?_ ?_ ?_ ?_) rfl (le_refl _) fun _ _ _ _ => rfl
    · rfl
    · exact fun _ => rfl
    · simp [record]
    · simp only [record]
      omega
  | @aligned k p _ C hlog hlo hin hroom =>
    have hfresh : Nesting.fresh N.shim s' = [.placed (N.enter true).nextBase p] :=
      fresh_append hlog
    rw [Nesting.give_true (by omega), hfresh]
    refine ⟨hleave.carve C (by rw [hlog]; rfl) (by rw [hlog]; exact I.heap.routed), ?_⟩
    refine ArenaInv.congr (A.carve C ?_ ?_ ?_ ?_) rfl (le_refl _) fun _ _ _ _ => rfl
    · rfl
    · simp [record]
    · exact fun _ => ⟨hlo, hin⟩
    · exact hroom

/-- **Every entry point that gives memory keeps both invariants.** -/
theorem serves (I : NestInv N) (b : Bool) (o : Oracle)
    (h : b = true → N.shim.bootstrapOffset + bootstrapBufSize < 2 ^ 64) :
    ShimInv.Serves (N.enter b) o fun n p s' => NestInv (N.give b n (p, s')) := by
  cases b with
  | false =>
    rw [I.enter_false]
    exact (I.heap.serves o).mono fun _ _ _ G => I.give_heap G
  | true => exact ((I.ready (h rfl)).serves o).mono fun _ _ _ C => I.give_arena C

theorem calloc (I : NestInv N) (b : Bool) (o : Oracle)
    (h : b = true → N.shim.bootstrapOffset + bootstrapBufSize < 2 ^ 64) (nmemb size : Nat) :
    ∃ p s', (N.enter b).calloc o nmemb size = .ok (p, s') ∧
      NestInv (N.give b (nmemb * size) (p, s')) := by
  cases b with
  | false =>
    rw [I.enter_false]
    obtain ⟨p, s', hr, G⟩ := I.heap.calloc o nmemb size
    exact ⟨p, s', hr, I.give_heap G⟩
  | true =>
    obtain ⟨p, s', hr, C⟩ := (I.ready (h rfl)).calloc o nmemb size
    exact ⟨p, s', hr, I.give_arena C⟩

end NestInv

end MemoryMonitor
