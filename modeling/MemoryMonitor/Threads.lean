import MemoryMonitor.Machine
import MemoryMonitor.CallSpec

/-! # The allocator and its callers as one machine

Any number of threads call the allocator, and everything under `alloc_mutex` is one
step.  A call that goes on after it released the mutex leaves a `Pending`: `my_calloc`
clears the block, `my_realloc` relocates in four more steps, and a mapped block is
unmapped after the mutex is free again.  Between the steps of one thread the others
take theirs.

Besides, the client stores into the bytes it asked for, the allocator is initialised
and destroyed, and the rest of the process moves the break and uses the bytes it
gets that way.

The live allocations are a ghost of the machine: a block counts from the step that
hands it out to the step that takes it back.
-/
namespace MemoryMonitor

open ByteMemory

/-- A call of the allocator's interface. -/
inductive Call where
  | malloc (size : Nat)
  | calloc (nmemb size : Nat)
  | free (ptr : Nat)
  | realloc (ptr size : Nat)
deriving DecidableEq, Repr

/-- The number of bytes a call asks for. -/
def Call.request : Call → Nat
  | .malloc size => size
  | .calloc nmemb size => nmemb * size
  | .free _ => 0
  | .realloc _ size => size

/-- The pointer a call is about. -/
def Call.operand : Call → Nat
  | .malloc _ => 0
  | .calloc _ _ => 0
  | .free ptr => ptr
  | .realloc ptr _ => ptr

/-- What a thread has left to do of its call, outside the mutex. -/
inductive Pending where
  | idle
  /-- `my_calloc` has a block and will clear it. -/
  | clear (nmemb size ptr : Nat)
  /-- `my_realloc` will call `my_malloc` for the new block. -/
  | relocate (ptr size old : Nat)
  /-- `my_realloc` will copy the old block into the new one. -/
  | copy (ptr size old newPtr : Nat)
  /-- `my_realloc` will free the old block. -/
  | release (ptr size old newPtr : Nat)
  /-- A mapped block was freed and will be unmapped; the call then returns `ret`. -/
  | unmap (mp : Mapping) (call : Call) (ret : Nat)
deriving DecidableEq, Repr

/-- The allocations a thread works on between its steps. -/
def Pending.claims : Pending → List Alloc
  | .idle => []
  | .clear nmemb size ptr => [⟨ptr, nmemb * size % 2 ^ 64⟩]
  | .relocate ptr _ old => [⟨ptr, old⟩]
  | .copy ptr size old newPtr => [⟨ptr, old⟩, ⟨newPtr, size⟩]
  | .release ptr size old newPtr => [⟨ptr, old⟩, ⟨newPtr, size⟩]
  | .unmap _ call ret => if ret = 0 then [] else [⟨ret, call.request⟩]

/-- The mapping a thread is about to unmap. -/
def Pending.retired : Pending → Option Mapping
  | .unmap mp _ _ => some mp
  | _ => none

/-- The allocator's state, the live allocations and what each thread has left to do. -/
structure Sys where
  st : State
  live : List Alloc
  pc : Nat → Pending

/-- A step of the machine; `o` are the kernel's choices during it. -/
inductive Label where
  /-- Thread `t` enters a call. -/
  | call (t : Nat) (c : Call) (o : Oracle)
  /-- Thread `t` goes on with its call. -/
  | resume (t : Nat) (o : Oracle)
  /-- The client stores a byte into an allocation. -/
  | store (ptr off : Nat) (b : UInt8)
  | init (o : Oracle)
  | destroy (o : Oracle)
  /-- The rest of the process grows the break. -/
  | hostSbrk (n : Nat) (o : Oracle)
  /-- The rest of the process stores a byte into what it got that way. -/
  | hostStore (x : Nat) (b : UInt8)

/-- A call that returned, and the pointer it returned. -/
abbrev Return := Option (Call × Nat)

namespace Sys

/-- Thread `t` is done with its call. -/
def finish (s : Sys) (t : Nat) (st : State) (live : List Alloc) (c : Call) (p : Nat) :
    Sys × Return :=
  (⟨st, live, Function.update s.pc t .idle⟩, some (c, p))

/-- Thread `t` has more to do. -/
def suspend (s : Sys) (t : Nat) (st : State) (live : List Alloc) (pc : Pending) : Sys × Return :=
  (⟨st, live, Function.update s.pc t pc⟩, none)

/-- `my_malloc` on behalf of the call `c`. -/
def callMalloc (s : Sys) (t : Nat) (c : Call) (size : Nat) (o : Oracle) :
    Except Fault (Sys × Return) := do
  let (p, st) ← myMalloc s.st o size
  .ok (s.finish t st (gain p size s.live) c p)

/-- `my_free` on behalf of the call `c`, which then returns `ret`. -/
def callFree (s : Sys) (t : Nat) (c : Call) (ptr ret : Nat) : Except Fault (Sys × Return) := do
  let (unmap, st) ← myFreeLocked s.st ptr
  match unmap with
  | none => .ok (s.finish t st (forget ptr s.live) c ret)
  | some mp => .ok (s.suspend t st (forget ptr s.live) (.unmap mp c ret))

/-- `my_calloc` up to where `my_malloc` has returned. -/
def callCalloc (s : Sys) (t : Nat) (nmemb size : Nat) (o : Oracle) :
    Except Fault (Sys × Return) :=
  if nmemb = 0 ∨ size = 0 then .ok (s.finish t s.st s.live (.calloc nmemb size) 0)
  else if (2 ^ 64 - 1) / nmemb < size then .ok (s.finish t s.st s.live (.calloc nmemb size) 0)
  else do
    let (p, st) ← myMalloc s.st o (nmemb * size % 2 ^ 64)
    if p ≠ 0 then
      .ok (s.suspend t st (⟨p, nmemb * size % 2 ^ 64⟩ :: s.live) (.clear nmemb size p))
    else .ok (s.finish t st s.live (.calloc nmemb size) 0)

/-- `my_realloc` up to the end of its first critical section. -/
def callRealloc (s : Sys) (t : Nat) (ptr size : Nat) (o : Oracle) : Except Fault (Sys × Return) :=
  if ptr = 0 then s.callMalloc t (.realloc ptr size) size o
  else if size = 0 then s.callFree t (.realloc ptr size) ptr 0
  else if maxAllowed < size then .ok (s.finish t s.st s.live (.realloc ptr size) 0)
  else do
    let (outcome, st) ← myReallocLocked s.st o ptr size
    match outcome with
    | .done p => .ok (s.finish t st (⟨p, size⟩ :: forget ptr s.live) (.realloc ptr size) p)
    | .relocate old => .ok (s.suspend t st s.live (.relocate ptr size old))

/-- Thread `t` enters a call. -/
def call (s : Sys) (t : Nat) (c : Call) (o : Oracle) : Except Fault (Sys × Return) :=
  match c with
  | .malloc size => s.callMalloc t c size o
  | .calloc nmemb size => s.callCalloc t nmemb size o
  | .free ptr => s.callFree t c ptr 0
  | .realloc ptr size => s.callRealloc t ptr size o

/-- Thread `t` goes on with its call. -/
def resume (s : Sys) (t : Nat) (o : Oracle) : Except Fault (Sys × Return) :=
  match s.pc t with
  | .idle => .ok (s, none)
  | .clear nmemb size ptr => do
    let total := nmemb * size % 2 ^ 64
    s.st.deref ptr total
    .ok (s.finish t { s.st with mem := overwrite s.st.mem ptr total fun _ => 0 } s.live
      (.calloc nmemb size) ptr)
  | .relocate ptr size old => do
    let (p, st) ← myMalloc s.st o size
    if p = 0 then .ok (s.finish t st s.live (.realloc ptr size) 0)
    else .ok (s.suspend t st (⟨p, size⟩ :: s.live) (.copy ptr size old p))
  | .copy ptr size old newPtr => do
    s.st.deref ptr (min old size)
    s.st.deref newPtr (min old size)
    .ok (s.suspend t { s.st with mem := memcpy s.st.mem newPtr ptr (min old size) } s.live
      (.release ptr size old newPtr))
  | .release ptr size _ newPtr => s.callFree t (.realloc ptr size) ptr newPtr
  | .unmap mp c ret => .ok (s.finish t (s.st.munmap o mp.addr) s.live c ret)

/-- One step of the machine. -/
def step (s : Sys) : Label → Except Fault (Sys × Return)
  | .call t c o => s.call t c o
  | .resume t o => s.resume t o
  | .store ptr off b => .ok ({ s with st := { s.st with
      mem := Function.update s.st.mem (ptr + off) b } }, none)
  | .init o => .ok ({ s with st := allocatorInit s.st o, live := [] }, none)
  | .destroy o => .ok ({ s with st := allocatorDestroy s.st o, live := [] }, none)
  | .hostSbrk n o =>
    match s.st.sbrk o n true with
    | none => .ok (s, none)
    | some (_, st) => .ok ({ s with st := st }, none)
  | .hostStore x b => .ok ({ s with st := { s.st with
      mem := Function.update s.st.mem x b } }, none)

end Sys

/-! ## What the environment may do -/

/-- `ptr` is live and no thread is at work on it. -/
def Sys.Usable (s : Sys) (ptr : Nat) : Prop :=
  (∃ e ∈ s.live, e.ptr = ptr) ∧ ∀ t, ∀ e ∈ (s.pc t).claims, e.ptr ≠ ptr

/-- The client's side of the contract: an idle thread enters a call, with a pointer
that is live and that nobody else is using; stores stay inside the bytes asked for. -/
def Sys.ClientMay (s : Sys) : Label → Prop
  | .call t c _ => s.pc t = .idle ∧ (c.operand = 0 ∨ s.Usable c.operand)
  | .resume t _ => s.pc t ≠ .idle
  | .store ptr off _ => ∃ e ∈ s.live, e.ptr = ptr ∧ off < e.size
  | _ => False

/-- The allocator is initialised and destroyed while no call is under way. -/
def Sys.ControlMay (s : Sys) : Label → Prop
  | .init _ => ∀ t, s.pc t = .idle
  | .destroy _ => ∀ t, s.pc t = .idle
  | _ => False

/-- No four bytes of the host make up a magic value. -/
def HostClean (s : State) : Prop :=
  ∀ a, (∀ i, i < 4 → s.hostOwned (a + i) = true) →
    readLE s.mem a 4 ≠ allocMagicHeader ∧ readLE s.mem a 4 ≠ allocMagicFooter

/-- The rest of the process grows the break and uses its bytes for data that holds no
magic value. -/
def Sys.HostMay (s : Sys) : Label → Prop
  | .hostSbrk n _ => 0 < n
  | .hostStore x b => s.st.hostOwned x = true ∧
      HostClean { s.st with mem := Function.update s.st.mem x b }
  | _ => False

/-- A process before anything of the allocator has run: its globals are zero, and
nobody has lowered the break. -/
structure Boot (s : State) : Prop where
  heads : s.heads = fun _ => 0
  heapStart : s.heapStart = 0
  initialBreak : s.initialBreak = 0
  lastAllocatorBreak : s.lastAllocatorBreak = 0
  stats : s.stats = {}
  kernel : KernelOk s
  peak : s.brkPeak = s.brk
  host : s.hostOwned = fun _ => false

/-- No thread has entered a call and nothing is allocated. -/
def Sys.Idle (s : Sys) : Prop := s.live = [] ∧ s.pc = fun _ => .idle

/-- The allocator was initialised once, successfully, on an empty heap. -/
def Sys.Initialised (s : Sys) : Prop :=
  s.Idle ∧ ∃ st o, Boot st ∧ s.st = allocatorInit st o ∧ s.st.heapStart ≠ 0

/-- Clients only. -/
def clients : Runs.Machine Sys Label Return Fault := ⟨Sys.ClientMay, Sys.step⟩

/-- Clients, and calls of `allocator_init` and `allocator_destroy`. -/
def clientsAndControl : Runs.Machine Sys Label Return Fault :=
  ⟨fun s l => s.ClientMay l ∨ s.ControlMay l, Sys.step⟩

/-- Clients, and a host that also grows the break. -/
def clientsAndHost : Runs.Machine Sys Label Return Fault :=
  ⟨fun s l => s.ClientMay l ∨ s.HostMay l, Sys.step⟩

end MemoryMonitor
