import MemoryMonitor.CallSpec

/-! # The preload shim (`preload_shim.c`)

The entry points that replace `malloc` and its relatives.  Each hands its request to the
allocator, or to a static buffer when the allocator itself is running (`in_allocator`).
An over-aligned block is carved out of a larger one: the client's pointer lies inside
the payload of its base block, and the 48 bytes before it, where a base block has its
header, hold an `aligned_header_t` that leads back to the base block.

`aligned_header_t` has `magic` at 0 and `padding` at 4 (32 bits each), `offset` at 8 and
`requested_size` at 16; `bootstrap_header_t` has `magic` at 0 and `size` at 8.

The calls of the allocator are logged, newest first.  The log is a ghost: nothing reads
it.
-/
namespace MemoryMonitor

open ByteMemory

def bootstrapBufSize : Nat := 128 * 1024
def bootstrapMagic : Nat := 0xFEEDC0DECAFEFACE
def alignedBlockMagic : Nat := 0xA116ED01

/-- A call of the allocator that the shim made. -/
inductive Event where
  /-- `my_malloc` or `my_calloc` returned `p` for a request of `size` bytes. -/
  | gave (p size : Nat)
  /-- `aligned_alloc_internal` placed `ptr` in the block `base`. -/
  | placed (base ptr : Nat)
  /-- `my_free(p)`. -/
  | took (p : Nat)
  /-- `my_realloc(p, size)` returned `q`. -/
  | moved (p size q : Nat)
deriving DecidableEq, Repr

/-- The allocator's state and the shim's own variables. -/
structure Shim where
  st : State
  /-- The address of `bootstrap_buf`. -/
  bootstrapBuf : Nat
  bootstrapOffset : Nat
  inAllocator : Bool
  log : List Event

namespace Shim

/-! ## The bootstrap buffer -/

/-- `is_bootstrap_ptr`. -/
def isBootstrapPtr (s : Shim) (ptr : Nat) : Bool :=
  s.bootstrapBuf ≤ ptr && ptr < s.bootstrapBuf + bootstrapBufSize

/-- `bootstrap_alloc`. -/
def bootstrapAlloc (s : Shim) (size : Nat) : Nat × Shim :=
  if bootstrapBufSize - 16 < size then (0, s)
  else
    let chunkTotal := addSize 16 (align size)
    let prevOffset := s.bootstrapOffset
    let s := { s with bootstrapOffset := addSize prevOffset chunkTotal }
    if bootstrapBufSize < addSize prevOffset chunkTotal then (0, s)
    else
      let hdr := addSize s.bootstrapBuf prevOffset
      let m := writeLE s.st.mem hdr 8 bootstrapMagic
      let m := writeLE m (hdr + 8) 8 size
      (addSize hdr 16, { s with st := { s.st with mem := m } })

/-! ## Calls of the allocator -/

/-- `my_malloc(size)`, logged. -/
def callMalloc (s : Shim) (o : Oracle) (size : Nat) : Except Fault (Nat × Shim) := do
  let (p, st) ← MemoryMonitor.myMalloc s.st o size
  .ok (p, { s with st := st, log := if p = 0 then s.log else .gave p size :: s.log })

/-- `my_calloc(nmemb, size)`, logged. -/
def callCalloc (s : Shim) (o : Oracle) (nmemb size : Nat) : Except Fault (Nat × Shim) := do
  let (p, st) ← MemoryMonitor.myCalloc s.st o nmemb size
  .ok (p, { s with st := st, log := if p = 0 then s.log else .gave p (nmemb * size) :: s.log })

/-- `my_free(p)`, logged. -/
def callFree (s : Shim) (o : Oracle) (p : Nat) : Except Fault Shim := do
  let st ← MemoryMonitor.myFree s.st o p
  .ok { s with st := st, log := .took p :: s.log }

/-- `my_realloc(p, size)`, logged. -/
def callRealloc (s : Shim) (o : Oracle) (p size : Nat) : Except Fault (Nat × Shim) := do
  let (q, st) ← MemoryMonitor.myRealloc s.st o p size
  .ok (q, { s with st := st, log := .moved p size q :: s.log })

/-! ## Aligned blocks -/

/-- `ah->magic`, `ah->offset` and `ah->requested_size` of an aligned header. -/
def ahMagic (m : Mem) (ah : Nat) : Nat := readLE m ah 4
def ahOffset (m : Mem) (ah : Nat) : Nat := readLE m (ah + 8) 8
def ahRequestedSize (m : Mem) (ah : Nat) : Nat := readLE m (ah + 16) 8

/-- `is_aligned_ptr`: the real header and the requested size of an aligned block. -/
def isAlignedPtr (s : Shim) (ptr : Nat) : Except Fault (Option (Nat × Nat)) :=
  if ptr = 0 ∨ ptr < 48 + 8 then .ok none
  else if ptr % 8 ≠ 0 then .ok none
  else do
    let ah := ptr - 48
    s.st.deref ah 4
    if ahMagic s.st.mem ah ≠ alignedBlockMagic then .ok none
    else do
      s.st.deref (ah + 8) 8
      if ahOffset s.st.mem ah < 48 + 8 then .ok none
      else if ptr < ahOffset s.st.mem ah then .ok none
      else do
        let realHdr := ptr - ahOffset s.st.mem ah
        s.st.deref realHdr 4
        if magicHeader s.st.mem realHdr ≠ allocMagicHeader then .ok none
        else do
          s.st.deref (ah + 16) 8
          .ok (some (realHdr, ahRequestedSize s.st.mem ah))

/-- The four stores that put an aligned header in place. -/
def putAlignedHeader (m : Mem) (ah offset reqSize : Nat) : Mem :=
  let m := writeLE m ah 4 alignedBlockMagic
  let m := writeLE m (ah + 4) 4 0
  let m := writeLE m (ah + 8) 8 offset
  writeLE m (ah + 16) 8 reqSize

/-- `(raw + alignment - 1) & ~(alignment - 1)`, on 64-bit words. -/
def alignTo (raw alignment : Nat) : Nat :=
  (raw + alignment - 1) % 2 ^ 64 &&& (2 ^ 64 - 1 - (alignment - 1))

/-- `aligned_alloc_internal`. -/
def alignedAllocInternal (s : Shim) (o : Oracle) (alignment allocSize reqSize : Nat) :
    Except Fault (Nat × Shim) :=
  -- `SIZE_MAX - alignment - sizeof(block_header_t)`, which wraps
  if (2 ^ 65 - 1 - alignment - 48) % 2 ^ 64 < allocSize then .ok (0, s)
  else do
    let total := addSize (addSize allocSize alignment) 48
    let (base, s) ←
      if s.inAllocator then .ok (s.bootstrapAlloc total)
      else do
        let (base, s) ← callMalloc { s with inAllocator := true } o total
        .ok (base, { s with inAllocator := false })
    if base = 0 then .ok (0, s)
    else do
      let aligned := alignTo (base + 48) alignment
      let ah := aligned - 48
      s.st.deref ah 24
      let m := putAlignedHeader s.st.mem ah (aligned - (base - 48)) reqSize
      .ok (aligned, { s with st := { s.st with mem := m }, log := .placed base aligned :: s.log })

/-! ## The entry points -/

/-- `malloc`. -/
def malloc (s : Shim) (o : Oracle) (size : Nat) : Except Fault (Nat × Shim) :=
  if s.inAllocator then .ok (s.bootstrapAlloc size)
  else do
    let (p, s) ← callMalloc { s with inAllocator := true } o size
    .ok (p, { s with inAllocator := false })

/-- `free`. -/
def free (s : Shim) (o : Oracle) (ptr : Nat) : Except Fault Shim :=
  if ptr = 0 then .ok s
  else if s.isBootstrapPtr ptr then .ok s
  else do
    match ← s.isAlignedPtr ptr with
    | some (realHdr, _) =>
      let s := { s with st := { s.st with mem := writeLE s.st.mem (ptr - 48) 4 0 } }
      let base := realHdr + 48
      if s.isBootstrapPtr base then .ok s
      else s.callFree o base
    | none => s.callFree o ptr

/-- `calloc`. -/
def calloc (s : Shim) (o : Oracle) (nmemb size : Nat) : Except Fault (Nat × Shim) :=
  if s.inAllocator then
    if nmemb ≠ 0 ∧ (2 ^ 64 - 1) / nmemb < size then .ok (0, s)
    else
      let total := nmemb * size % 2 ^ 64
      let (p, s) := s.bootstrapAlloc total
      if p ≠ 0 then
        .ok (p, { s with st := { s.st with mem := overwrite s.st.mem p total fun _ => 0 } })
      else .ok (p, s)
  else do
    let (p, s) ← callCalloc { s with inAllocator := true } o nmemb size
    .ok (p, { s with inAllocator := false })

/-- `if (copy_size > 0) memcpy(new_p, ptr, copy_size)`. -/
def copyOver (s : Shim) (newP ptr copySize : Nat) : Except Fault Shim :=
  if 0 < copySize then do
    s.st.deref ptr copySize
    s.st.deref newP copySize
    .ok { s with st := { s.st with mem := memcpy s.st.mem newP ptr copySize } }
  else .ok s

/-- The branch of `realloc` for a pointer into the bootstrap buffer. -/
def reallocBootstrap (s : Shim) (o : Oracle) (ptr size : Nat) : Except Fault (Nat × Shim) :=
  if size = 0 then .ok (0, s)
  else do
    let hdr := ptr - 16
    s.st.deref hdr 16
    let copySize :=
      if readLE s.st.mem hdr 8 = bootstrapMagic then min (readLE s.st.mem (hdr + 8) 8) size else 0
    let (newP, s) ← s.malloc o size
    if newP = 0 then .ok (0, s)
    else do
      let s ← s.copyOver newP ptr copySize
      .ok (newP, s)

/-- The branch of `realloc` for an aligned block. -/
def reallocAligned (s : Shim) (o : Oracle) (ptr size origReqSize : Nat) :
    Except Fault (Nat × Shim) :=
  if size = 0 then do
    let s ← s.free o ptr
    .ok (0, s)
  else do
    let (newP, s) ← s.malloc o size
    if newP = 0 then .ok (0, s)
    else do
      let s ← s.copyOver newP ptr (min origReqSize size)
      let s ← s.free o ptr
      .ok (newP, s)

/-- `realloc`. -/
def realloc (s : Shim) (o : Oracle) (ptr size : Nat) : Except Fault (Nat × Shim) :=
  if ptr = 0 then s.malloc o size
  else if s.isBootstrapPtr ptr then s.reallocBootstrap o ptr size
  else do
    match ← s.isAlignedPtr ptr with
    | some (_, origReqSize) => s.reallocAligned o ptr size origReqSize
    | none =>
      if s.inAllocator then .ok (0, s)
      else do
        let (p, s) ← callRealloc { s with inAllocator := true } o ptr size
        .ok (p, { s with inAllocator := false })

/-- `reallocarray`. -/
def reallocarray (s : Shim) (o : Oracle) (ptr nmemb size : Nat) : Except Fault (Nat × Shim) :=
  if nmemb ≠ 0 ∧ (2 ^ 64 - 1) / nmemb < size then .ok (0, s)
  else s.realloc o ptr (nmemb * size % 2 ^ 64)

/-- `alignment` is zero or a power of two, as the source tests it. -/
def OneBit (alignment : Nat) : Prop := alignment &&& (alignment - 1) = 0

instance (alignment : Nat) : Decidable (OneBit alignment) := inferInstanceAs (Decidable (_ = _))

/-- The error numbers `posix_memalign` returns. -/
def einval : Nat := 22
def enomem : Nat := 12

/-- `malloc`, which aligns to `ALIGNMENT`, or `aligned_alloc_internal` for more than that. -/
def allocAligned (s : Shim) (o : Oracle) (alignment allocSize reqSize : Nat) :
    Except Fault (Nat × Shim) :=
  if alignment ≤ 16 then s.malloc o allocSize
  else s.alignedAllocInternal o alignment allocSize reqSize

/-- `posix_memalign` with the variable its first argument points to: the number it returns
and the variable afterwards. -/
def posixMemalignAt (s : Shim) (o : Oracle) (memptr alignment size : Nat) :
    Except Fault ((Nat × Nat) × Shim) :=
  if alignment < 8 ∨ ¬ OneBit alignment then .ok ((einval, memptr), s)
  else do
    let (p, s) ← s.allocAligned o alignment (if size = 0 then alignment else size) size
    if p = 0 then .ok ((enomem, memptr), s)
    else .ok ((0, p), s)

/-- `posix_memalign` as the entry points below call it, with a variable that is `NULL`: they
return `NULL` when it returns a number, and the variable otherwise. -/
def posixMemalign (s : Shim) (o : Oracle) (alignment size : Nat) : Except Fault (Nat × Shim) := do
  let ((ret, ptr), s) ← s.posixMemalignAt o 0 alignment size
  .ok (if ret ≠ 0 then 0 else ptr, s)

theorem posixMemalign_eq (s : Shim) (o : Oracle) (alignment size : Nat) :
    s.posixMemalign o alignment size =
      if alignment < 8 ∨ ¬ OneBit alignment then .ok (0, s)
      else s.allocAligned o alignment (if size = 0 then alignment else size) size := by
  unfold posixMemalign posixMemalignAt
  by_cases hbad : alignment < 8 ∨ ¬ OneBit alignment
  · rw [if_pos hbad, if_pos hbad]
    rfl
  rw [if_neg hbad, if_neg hbad]
  cases s.allocAligned o alignment (if size = 0 then alignment else size) size with
  | error e => rfl
  | ok r =>
    obtain ⟨p, s'⟩ := r
    by_cases hp : p = 0
    · rw [hp]
      rfl
    · simp only [ok_bind, if_neg hp]
      rfl

/-- `aligned_alloc`. -/
def alignedAlloc (s : Shim) (o : Oracle) (alignment size : Nat) : Except Fault (Nat × Shim) :=
  if alignment = 0 ∨ ¬ OneBit alignment ∨ size % alignment ≠ 0 then .ok (0, s)
  else if size = 0 then .ok (0, s)
  else if alignment ≤ 16 then s.malloc o size
  else s.alignedAllocInternal o alignment size size

/-- `memalign`. -/
def memalign (s : Shim) (o : Oracle) (alignment size : Nat) : Except Fault (Nat × Shim) :=
  s.posixMemalign o (if alignment < 8 then 8 else alignment) size

/-- The page size: what `sysconf(_SC_PAGESIZE)` said, or a default. -/
def pageSize (sysconf : Int) : Nat := if sysconf ≤ 0 then 4096 else sysconf.toNat

/-- `valloc`. -/
def valloc (s : Shim) (o : Oracle) (sysconf : Int) (size : Nat) : Except Fault (Nat × Shim) :=
  s.posixMemalign o (pageSize sysconf) size

/-- `pvalloc`. -/
def pvalloc (s : Shim) (o : Oracle) (sysconf : Int) (size : Nat) : Except Fault (Nat × Shim) :=
  let ps := pageSize sysconf
  if size = 0 then s.posixMemalign o ps ps
  else if 2 ^ 64 - 1 - ps < size then .ok (0, s)
  else s.posixMemalign o ps ((size + ps - 1) % 2 ^ 64 / ps * ps % 2 ^ 64)

end Shim

end MemoryMonitor
