import MemoryMonitor.FreeList

/-! # The allocator (`allocator.c`)

Every function the source runs under `alloc_mutex` is one critical section here,
a function of the state and of the kernel's choices.  The calls that leave the
mutex in the middle are cut there: `my_free` returns the mapping that is still to
be unmapped, and `my_realloc` says whether the block has to be relocated, which
the source then does with `my_malloc`, `memcpy` and `my_free`.  `myFree`,
`myCalloc` and `myRealloc` run a whole call without interruption.
-/
namespace MemoryMonitor

open ByteMemory

/-! ## Break handling -/

/-- `ensure_break_aligned`. -/
def ensureBreakAligned (s : State) (o : Oracle) : Bool × State :=
  if s.brk = ptrFailed then (false, s)
  else if s.brk % 16 ≠ 0 then
    match s.sbrk o (16 - s.brk % 16) false with
    | none => (false, s)
    | some (_, s') => (true, s')
  else (true, s)

/-- `allocator_init`. -/
def allocatorInit (s : State) (o : Oracle) : State :=
  let s := freeListReset { s with stats := {} }
  match ensureBreakAligned s o with
  | (false, s) => s
  | (true, s) =>
    if s.brk ≠ ptrFailed then
      let initialBreak := if s.initialBreak = 0 then s.brk else s.initialBreak
      { s with initialBreak, heapStart := initialBreak, lastAllocatorBreak := s.brk }
    else s

/-- `allocator_destroy`. -/
def allocatorDestroy (s : State) (o : Oracle) : State :=
  let s := freeListReset { s with stats := {} }
  if s.initialBreak ≠ 0 then
    if s.brk = s.lastAllocatorBreak then
      match s.brkTo o s.initialBreak with
      | some s => { s with initialBreak := 0, heapStart := 0, lastAllocatorBreak := 0 }
      | none => { s with heapStart := s.initialBreak }
    else
      { s with initialBreak := 0, heapStart := 0, lastAllocatorBreak := 0 }
  else
    { s with heapStart := 0, lastAllocatorBreak := 0 }

/-! ## Integrity check -/

/-- The `while (curr < heap_end)` loop of `allocator_verify_integrity`. -/
def verifyHeap (s : State) : Nat → Nat → Except Fault Bool
  | 0, _ => .error .diverge
  | fuel + 1, curr =>
    if s.brk ≤ curr then .ok true
    else if s.brk - curr < 64 then .ok false
    else if curr % 16 ≠ 0 then .ok false
    else do
      s.deref curr 24
      if magicHeader s.mem curr ≠ allocMagicHeader ∨ blockSize s.mem curr < 64 ∨
          blockSize s.mem curr % 16 ≠ 0 ∨ s.brk - curr < blockSize s.mem curr then .ok false
      else do
        let footer := curr + blockSize s.mem curr - 16
        s.deref footer 16
        if magicFooter s.mem footer ≠ allocMagicFooter ∨
            footerBlockSize s.mem footer ≠ blockSize s.mem curr then .ok false
        else
          verifyHeap s fuel (curr + blockSize s.mem curr)

/-- `allocator_verify_integrity`: `true` for 0, `false` for -1. -/
def allocatorVerifyIntegrity (s : State) : Except Fault Bool := do
  let res ← freeListVerifyIntegrity s
  if res = false then .ok false
  else if s.heapStart ≠ 0 ∧ s.heapStart ≠ ptrFailed ∧ s.brk ≠ 0 ∧ s.brk ≠ ptrFailed ∧
      s.heapStart ≤ s.brk then
    verifyHeap s traversalFuel s.heapStart
  else .ok true

/-- `is_adjacent_free_block`. -/
def isAdjacentFreeBlock (s : State) (block heapEnd : Nat) : Except Fault Bool :=
  if block = 0 ∨ heapEnd = ptrFailed ∨ s.heapStart = 0 then .ok false
  else if block < s.heapStart ∨ heapEnd ≤ block then .ok false
  else if heapEnd - block < 64 then .ok false
  else if block % 16 ≠ 0 then .ok false
  else do
    s.deref block 28
    if magicHeader s.mem block ≠ allocMagicHeader ∨ isMmap s.mem block ≠ 0 ∨
        isFree s.mem block = 0 then .ok false
    else if blockSize s.mem block < 64 then .ok false
    else if blockSize s.mem block % 16 ≠ 0 then .ok false
    else if heapEnd - block < blockSize s.mem block then .ok false
    else do
      let footer := block + blockSize s.mem block - 16
      s.deref footer 16
      if magicFooter s.mem footer ≠ allocMagicFooter ∨
          footerBlockSize s.mem footer ≠ blockSize s.mem block then .ok false
      else .ok true

/-! ## `my_malloc` -/

/-- The branch of `my_malloc` for totals of at least `MMAP_THRESHOLD`. -/
def mmapAlloc (s : State) (o : Oracle) (size total : Nat) : Except Fault (Nat × State) :=
  match s.mmap o total with
  | none => .ok (0, s)
  | some (header, s) => do
    s.deref header total
    let m := setMagicHeader s.mem header allocMagicHeader
    let m := setIsFree m header 0
    let m := setRequestedSize m header size
    let m := setBlockSize m header total
    let m := setIsMmap m header 1
    let m := setNext m header 0
    let m := setPrev m header 0
    let m := putFooter m (header + total - 16) total
    .ok (header + 48,
      { s with
        mem := m
        stats := { s.stats with
          totalAllocated := addSize s.stats.totalAllocated size
          mmapAllocations := addSize s.stats.mmapAllocations 1 } })

/-- The first part of the heap extension: find out where the heap begins, and
make the break a multiple of 16.  `false` means that `my_malloc` returns `NULL`. -/
def prepareBreak (s : State) (o : Oracle) : Bool × State :=
  match (if s.initialBreak = 0 then
      match ensureBreakAligned s o with
      | (false, s) => (false, s)
      | (true, s) => (true, if s.brk ≠ ptrFailed then { s with initialBreak := s.brk } else s)
    else (true, s)) with
  | (false, s) => (false, s)
  | (true, s) =>
    ensureBreakAligned (if s.heapStart = 0 then { s with heapStart := s.initialBreak } else s) o

/-- The heap extension of `my_malloc`: the new block, or `NULL`. -/
def extendHeap (s : State) (o : Oracle) (total : Nat) : Nat × State :=
  match prepareBreak s o with
  | (false, s) => (0, s)
  | (true, s) =>
    match s.sbrk o total false with
    | none => (0, s)
    | some (block, s) =>
      let m := setMagicHeader s.mem block allocMagicHeader
      let m := setBlockSize m block total
      let m := setIsMmap m block 0
      let m := setNext m block 0
      let m := setPrev m block 0
      (block,
        { s with
          mem := m
          lastAllocatorBreak := s.brk
          stats := { s.stats with
            currentHeapSize := addSize s.stats.currentHeapSize total
            sbrkAllocations := addSize s.stats.sbrkAllocations 1 } })

/-- The header of a free block of `size` bytes cut off at `remainder`. -/
def putRemainderHeader (m : Mem) (remainder size : Nat) : Mem :=
  let m := setMagicHeader m remainder allocMagicHeader
  let m := setBlockSize m remainder size
  let m := setIsFree m remainder 1
  let m := setIsMmap m remainder 0
  let m := setNext m remainder 0
  setPrev m remainder 0

/-- The split in `my_malloc`: a block that is large enough is cut after `total`
bytes and the remainder goes to a free list. -/
def splitFound (s : State) (block total : Nat) : Except Fault State :=
  if addSize total 80 ≤ blockSize s.mem block then
    let remainderSize := blockSize s.mem block - total
    let remainder := block + total
    let m := setBlockSize s.mem block total
    let m := putRemainderHeader m remainder remainderSize
    let m := putFooter m (remainder + remainderSize - 16) remainderSize
    freeListInsert { s with mem := m } remainder
  else .ok s

/-- The end of `my_malloc`: the block is handed out for a request of `size` bytes. -/
def handOut (s : State) (block size : Nat) : State :=
  let m := setIsFree s.mem block 0
  let m := setRequestedSize m block size
  let m := putFooter m (block + blockSize m block - 16) (blockSize m block)
  { s with
    mem := m
    stats := { s.stats with totalAllocated := addSize s.stats.totalAllocated size } }

/-- `my_malloc`. -/
def myMalloc (s : State) (o : Oracle) (size : Nat) : Except Fault (Nat × State) :=
  if size = 0 then .ok (0, s)
  else if maxAllowed < size then .ok (0, s)
  else
    let total := totalSize size
    if mmapThreshold ≤ total then mmapAlloc s o size total
    else do
      let (block, s) ← freeListFindFit s total
      if block = 0 then
        let (block, s) := extendHeap s o total
        if block = 0 then .ok (0, s)
        else .ok (block + 48, handOut s block size)
      else do
        let s ← splitFound s block total
        .ok (block + 48, handOut s block size)

/-! ## `my_free` -/

/-- The bounds that `my_free` and `my_realloc` require of a block of the given
header: inside the heap, or of a possible mapping. -/
def checkBounds (s : State) (header : Nat) (caller : String) : Except Fault Unit :=
  if isMmap s.mem header = 0 then
    check (s.heapStart ≠ 0 ∧ s.brk ≠ ptrFailed ∧ s.heapStart ≤ header ∧ header < s.brk ∧
        blockSize s.mem header ≤ s.brk - header)
      s!"[FATAL] Heap corruption: Block bounds exceed heap limit in {caller}\n"
  else
    check (header ≤ 2 ^ 64 - 1 - blockSize s.mem header ∧ mmapThreshold ≤ blockSize s.mem header)
      s!"[FATAL] Heap corruption: Invalid mmap block size in {caller}\n"

/-- The checks that `my_free` and `my_realloc` make of the block of a pointer. -/
def validateBlock (s : State) (header : Nat) (caller : String) : Except Fault Unit := do
  s.deref header 28
  check (magicHeader s.mem header = allocMagicHeader)
    s!"[FATAL] Heap corruption: Invalid magic header canary in {caller}\n"
  check (64 ≤ blockSize s.mem header)
    s!"[FATAL] Heap corruption: Invalid block size in {caller}\n"
  checkBounds s header caller
  let footer := header + blockSize s.mem header - 16
  s.deref footer 16
  check (magicFooter s.mem footer = allocMagicFooter ∧
      footerBlockSize s.mem footer = blockSize s.mem header)
    s!"[FATAL] Heap corruption: Invalid magic footer canary in {caller}\n"
  check (isFree s.mem header = 0)
    s!"[FATAL] Double free or use after free detected in {caller}\n"

/-- `header->block_size += n`, and a new footer at the end of the grown block. -/
def growBlock (s : State) (header n : Nat) : State :=
  let m := setBlockSize s.mem header (addSize (blockSize s.mem header) n)
  let size := blockSize m header
  { s with mem := putFooter m (header + size - 16) size }

/-- Forward coalescing in `my_free`. -/
def coalesceNext (s : State) (header : Nat) : Except Fault State := do
  let nextHeader := header + blockSize s.mem header
  let adjacent ← isAdjacentFreeBlock s nextHeader s.brk
  if adjacent then do
    let s ← freeListRemove s nextHeader
    .ok (growBlock s header (blockSize s.mem nextHeader))
  else .ok s

/-- Backward coalescing in `my_free`: the start of the block the freed one has
become part of. -/
def coalescePrev (s : State) (header : Nat) : Except Fault (Nat × State) :=
  if s.heapStart ≠ 0 ∧ s.heapStart + 64 ≤ header then do
    let prevFooter := header - 16
    s.deref prevFooter 16
    let size := footerBlockSize s.mem prevFooter
    if magicFooter s.mem prevFooter = allocMagicFooter ∧ 64 ≤ size ∧
        size ≤ header - s.heapStart ∧ size % 16 = 0 then do
      let prevHeader := header - size
      if s.heapStart ≤ prevHeader ∧ prevHeader % 16 = 0 then do
        s.deref prevHeader 28
        if magicHeader s.mem prevHeader = allocMagicHeader ∧
            blockSize s.mem prevHeader = footerBlockSize s.mem prevFooter ∧
            isMmap s.mem prevHeader = 0 ∧ isFree s.mem prevHeader ≠ 0 then do
          let s ← freeListRemove s prevHeader
          .ok (prevHeader, growBlock s prevHeader (blockSize s.mem header))
        else .ok (header, s)
      else .ok (header, s)
    else .ok (header, s)
  else .ok (header, s)

/-- `my_free` up to where it unlocks the mutex.  A mapped block is left to be
unmapped; it is returned. -/
def myFreeLocked (s : State) (ptr : Nat) : Except Fault (Option Mapping × State) :=
  if ptr = 0 then .ok (none, s)
  else do
    let header := ptr - 48
    validateBlock s header "my_free"
    let freed := { s.stats with
      totalFreed := addSize s.stats.totalFreed (requestedSize s.mem header) }
    if isMmap s.mem header ≠ 0 then
      .ok (some ⟨header, blockSize s.mem header⟩, { s with stats := freed })
    else do
      let s := { s with mem := setIsFree s.mem header 1, stats := freed }
      let s ← coalesceNext s header
      let (header, s) ← coalescePrev s header
      let s ← freeListInsert s header
      .ok (none, s)

/-- `my_free`. -/
def myFree (s : State) (o : Oracle) (ptr : Nat) : Except Fault State := do
  let (unmap, s) ← myFreeLocked s ptr
  match unmap with
  | none => .ok s
  | some mp => .ok (s.munmap o mp.addr)

/-! ## `my_calloc` -/

/-- `my_calloc`. -/
def myCalloc (s : State) (o : Oracle) (nmemb size : Nat) : Except Fault (Nat × State) :=
  if nmemb = 0 ∨ size = 0 then .ok (0, s)
  else if (2 ^ 64 - 1) / nmemb < size then .ok (0, s)
  else do
    let total := nmemb * size % 2 ^ 64
    let (ptr, s) ← myMalloc s o total
    if ptr ≠ 0 then do
      s.deref ptr total
      .ok (ptr, { s with mem := overwrite s.mem ptr total fun _ => 0 })
    else .ok (ptr, s)

/-! ## `my_realloc` -/

/-- What the first critical section of `my_realloc` ends with: the pointer to
return, or a block of the given requested size to relocate. -/
inductive ReallocOutcome where
  | done (ptr : Nat)
  | relocate (oldRequestedSize : Nat)
deriving DecidableEq, Repr

/-- The accounting of a request that changed in place from `old` to `size` bytes. -/
def accountInPlace (st : Stats) (old size : Nat) : Stats :=
  if size < old then { st with totalFreed := addSize st.totalFreed (old - size) }
  else if old < size then { st with totalAllocated := addSize st.totalAllocated (size - old) }
  else st

/-- The mapped branch of `my_realloc`. -/
def reallocMapped (s : State) (o : Oracle) (header size : Nat) : ReallocOutcome × State :=
  let oldRequestedSize := requestedSize s.mem header
  let total := totalSize size
  if mmapThreshold ≤ total then
    match s.mremap o header (blockSize s.mem header) total with
    | some (newHeader, s) =>
      let m := setRequestedSize s.mem newHeader size
      let m := setBlockSize m newHeader total
      let m := putFooter m (newHeader + total - 16) total
      (.done (newHeader + 48),
        { s with
          mem := m
          stats := { s.stats with
            totalAllocated := addSize s.stats.totalAllocated size
            totalFreed := addSize s.stats.totalFreed oldRequestedSize } })
    | none => (.relocate oldRequestedSize, s)
  else (.relocate oldRequestedSize, s)

/-- Forward coalescing of the remainder of a split: its size after taking in a
free block behind it. -/
def absorbNext (s : State) (remainder remainderSize : Nat) : Except Fault (Nat × State) := do
  let nextAfterRem := remainder + remainderSize
  let adjacent ← isAdjacentFreeBlock s nextAfterRem s.brk
  if adjacent then do
    let s ← freeListRemove s nextAfterRem
    let remainderSize := addSize remainderSize (blockSize s.mem nextAfterRem)
    .ok (remainderSize, { s with mem := setBlockSize s.mem remainder remainderSize })
  else .ok (remainderSize, s)

/-- The split of path 1: a block that is large enough shrinks to `total` bytes; the
remainder takes in a free block after it, and goes to a free list. -/
def shrinkBlock (s : State) (header total : Nat) : Except Fault State :=
  if addSize total 80 ≤ blockSize s.mem header then do
    let remainderSize := blockSize s.mem header - total
    let remainder := header + total
    let m := setBlockSize s.mem header total
    let m := putFooter m (header + total - 16) total
    let m := putRemainderHeader m remainder remainderSize
    let (remainderSize, s) ← absorbNext { s with mem := m } remainder remainderSize
    let m := putFooter s.mem (remainder + remainderSize - 16) remainderSize
    freeListInsert { s with mem := m } remainder
  else .ok s

/-- Path 2 after the free neighbour `nextBlock` is unlinked: the block grows to
`total` bytes when the rest can stand alone, and takes in all of it otherwise. -/
def growIntoNext (s : State) (header nextBlock total : Nat) : Except Fault State :=
  let combined := addSize (blockSize s.mem header) (blockSize s.mem nextBlock)
  if addSize total 80 ≤ combined then
    let remainderSize := combined - total
    let remainder := header + total
    let m := setBlockSize s.mem header total
    let m := putFooter m (header + total - 16) total
    let m := putRemainderHeader m remainder remainderSize
    let m := putFooter m (remainder + remainderSize - 16) remainderSize
    freeListInsert { s with mem := m } remainder
  else
    let m := setBlockSize s.mem header combined
    .ok { s with mem := putFooter m (header + combined - 16) combined }

/-- The end of both in-place paths: the accounting and the new requested size. -/
def resizeDone (s : State) (header old size : Nat) : State :=
  { s with
    stats := accountInPlace s.stats old size
    mem := setRequestedSize s.mem header size }

/-- The heap branch of `my_realloc`: path 1, path 2, or relocation. -/
def reallocHeap (s : State) (header size : Nat) : Except Fault (ReallocOutcome × State) := do
  let total := totalSize size
  let old := requestedSize s.mem header
  if total ≤ blockSize s.mem header then do
    let s ← shrinkBlock s header total
    .ok (.done (header + 48), resizeDone s header old size)
  else if total < mmapThreshold then do
    let nextBlock := header + blockSize s.mem header
    let adjacent ← isAdjacentFreeBlock s nextBlock s.brk
    if adjacent ∧
        total ≤ addSize (blockSize s.mem header) (blockSize s.mem nextBlock) then do
      let s ← freeListRemove s nextBlock
      let s ← growIntoNext s header nextBlock total
      .ok (.done (header + 48), resizeDone s header old size)
    else .ok (.relocate old, s)
  else .ok (.relocate old, s)

/-- `my_realloc` of a block for `1 ≤ size ≤ SIZE_MAX - 1024` bytes, up to where it
first unlocks the mutex. -/
def myReallocLocked (s : State) (o : Oracle) (ptr size : Nat) :
    Except Fault (ReallocOutcome × State) := do
  let header := ptr - 48
  validateBlock s header "my_realloc"
  if isMmap s.mem header ≠ 0 then .ok (reallocMapped s o header size)
  else reallocHeap s header size

/-- `memcpy(dst, src, n)`. -/
def memcpy (m : Mem) (dst src n : Nat) : Mem := overwrite m dst n fun x => m (src + (x - dst))

/-- `my_realloc`. -/
def myRealloc (s : State) (o : Oracle) (ptr size : Nat) : Except Fault (Nat × State) :=
  if ptr = 0 then myMalloc s o size
  else if size = 0 then do
    let s ← myFree s o ptr
    .ok (0, s)
  else if maxAllowed < size then .ok (0, s)
  else do
    let (outcome, s) ← myReallocLocked s o ptr size
    match outcome with
    | .done p => .ok (p, s)
    | .relocate old => do
      let (newPtr, s) ← myMalloc s o size
      if newPtr = 0 then .ok (0, s)
      else do
        s.deref ptr (min old size)
        s.deref newPtr (min old size)
        let s := { s with mem := memcpy s.mem newPtr ptr (min old size) }
        let s ← myFree s o ptr
        .ok (newPtr, s)

end MemoryMonitor
