import MemoryMonitor.PreloadContract

/-! # Where an over-aligned block lies

The five entry points that take or imply an alignment, against the one thing they need
of `my_malloc`: that what it returns is usable.  The arithmetic is on 64-bit words; the
placement below is stated in the integers, so each part of it also says that nothing
wrapped on the way.
-/
namespace MemoryMonitor

open ByteMemory

namespace Shim

/-- A call of one of the entry points for aligned memory. -/
inductive AlignedCall where
  | posixMemalign (alignment size : Nat)
  | alignedAlloc (alignment size : Nat)
  | memalign (alignment size : Nat)
  | valloc (sysconf : Int) (size : Nat)
  | pvalloc (sysconf : Int) (size : Nat)

namespace AlignedCall

def run (s : Shim) (o : Oracle) : AlignedCall → Except Fault (Nat × Shim)
  | .posixMemalign alignment size => s.posixMemalign o alignment size
  | .alignedAlloc alignment size => s.alignedAlloc o alignment size
  | .memalign alignment size => s.memalign o alignment size
  | .valloc sysconf size => s.valloc o sysconf size
  | .pvalloc sysconf size => s.pvalloc o sysconf size

/-- The alignment of the call. -/
def alignment : AlignedCall → Nat
  | .posixMemalign alignment _ => alignment
  | .alignedAlloc alignment _ => alignment
  | .memalign alignment _ => if alignment < 8 then 8 else alignment
  | .valloc sysconf _ => pageSize sysconf
  | .pvalloc sysconf _ => pageSize sysconf

/-- The size of the call; `pvalloc` rounds it up to whole pages, here in the integers. -/
def reqSize : AlignedCall → Nat
  | .posixMemalign _ size => size
  | .alignedAlloc _ size => size
  | .memalign _ size => size
  | .valloc _ size => size
  | .pvalloc sysconf size =>
    if size = 0 then pageSize sysconf
    else (size + pageSize sysconf - 1) / pageSize sysconf * pageSize sysconf

/-- The bytes the caller gets: a request of none gets as many as its alignment. -/
def allocSize (c : AlignedCall) : Nat := if c.reqSize = 0 then c.alignment else c.reqSize

end AlignedCall

/-- What `my_malloc` promises of a block of `n` bytes at `base`: it is aligned to 16, its
header is in place before it, and it ends inside the address space. -/
structure Usable (st : State) (base n : Nat) : Prop where
  aligned : base % 16 = 0
  header : 48 ≤ base
  magic : magicHeader st.mem (base - 48) = allocMagicHeader
  fits : base + n ≤ 2 ^ 64
  mapped : ∀ b c, base - 48 ≤ b → b + c ≤ base + n → st.deref b c = .ok ()

end Shim

end MemoryMonitor
