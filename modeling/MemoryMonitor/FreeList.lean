import MemoryMonitor.AllocatorState
import Mathlib.Data.List.FinRange

/-! # The segregated free lists (`free_list.c`)

Eight null-terminated doubly linked lists threaded through the headers of free
blocks, one for each size class.  The functions are the source's, with the state
passed explicitly: `freeListInsert`, `freeListRemove`, `freeListFindFit` and
`freeListVerifyIntegrity`.

A `while (curr)` loop over a list carries a fuel of `2 ^ 64` steps: a traversal
that takes more visits some address twice and never ends, which is `diverge`.
-/
namespace MemoryMonitor

open ByteMemory

/-- `size_class_limits`. -/
def sizeClassLimits : List Nat := [128, 256, 512, 1024, 2048, 4096, 8192, mmapThreshold]

/-- The loop of `get_size_class_index` tries every limit but the last, which is
also the answer when none fits. -/
theorem findIdx_sizeClassLimits_lt (p : Nat → Bool) : sizeClassLimits.dropLast.findIdx p < 8 :=
  Nat.lt_of_le_of_lt List.findIdx_le_length (by decide)

/-- `get_size_class_index`. -/
def getSizeClassIndex (size : Nat) : Fin 8 :=
  ⟨sizeClassLimits.dropLast.findIdx fun limit => size ≤ limit, findIdx_sizeClassLimits_lt _⟩

/-- `free_list_reset`. -/
def freeListReset (s : State) : State := { s with heads := fun _ => 0 }

/-- The stores of `free_list_insert`. -/
def linkBlock (s : State) (block : Nat) : State :=
  let idx := getSizeClassIndex (blockSize s.mem block)
  let head := s.heads idx
  let m := setPrev (setNext s.mem block head) block 0
  let m := if head ≠ 0 then setPrev m head block else m
  { s with heads := Function.update s.heads idx block, mem := setIsFree m block 1 }

/-- `free_list_insert`. -/
def freeListInsert (s : State) (block : Nat) : Except Fault State :=
  if block = 0 then .ok s
  else do
    s.deref block 48
    s.derefNonNull (s.heads (getSizeClassIndex (blockSize s.mem block))) 40 8
    .ok (linkBlock s block)

/-- The stores of `free_list_remove`, after all its checks passed. -/
def unlinkBlock (s : State) (block : Nat) : State :=
  let idx := getSizeClassIndex (blockSize s.mem block)
  let p := prev s.mem block
  let n := next s.mem block
  let m := if p ≠ 0 then setNext s.mem p n else s.mem
  let heads := if p ≠ 0 then s.heads else Function.update s.heads idx n
  let m := if next m block ≠ 0 then setPrev m (next m block) (prev m block) else m
  { s with heads := heads, mem := setIsFree (setPrev (setNext m block 0) block 0) block 0 }

/-- `free_list_remove`. -/
def freeListRemove (s : State) (block : Nat) : Except Fault State :=
  if block = 0 then .ok s
  else do
    s.deref block 24
    check (64 ≤ blockSize s.mem block)
      "[FATAL] Invalid block size while unlinking free-list block\n"
    check (isFree s.mem block ≠ 0) "[FATAL] Attempt to unlink an allocated block\n"
    check (s.brk ≠ ptrFailed → block < s.brk ∧ blockSize s.mem block ≤ s.brk - block)
      "[FATAL] Free-list block size exceeds heap break\n"
    s.deref (block + 32) 16
    let idx := getSizeClassIndex (blockSize s.mem block)
    check (prev s.mem block = 0 → s.heads idx = block)
      "[FATAL] Free-list head linkage corruption detected\n"
    s.derefNonNull (prev s.mem block) 32 8
    check (prev s.mem block ≠ 0 → next s.mem (prev s.mem block) = block)
      "[FATAL] Free-list previous linkage corruption detected\n"
    s.derefNonNull (next s.mem block) 40 8
    check (next s.mem block ≠ 0 → prev s.mem (next s.mem block) = block)
      "[FATAL] Free-list next linkage corruption detected\n"
    let footer := block + blockSize s.mem block - 16
    s.deref footer 16
    check (magicFooter s.mem footer = allocMagicFooter ∧
        footerBlockSize s.mem footer = blockSize s.mem block)
      "[FATAL] Free-list footer corruption detected\n"
    .ok (unlinkBlock s block)

/-- Everything that `free_list_remove` checks before it unlinks: `acc` says what may be
accessed, `head` is the head of the block's list and `footer` the address of its footer. -/
@[mk_iff]
structure Unlinkable (m : Mem) (acc : Nat → Nat → Prop) (brk head footer block : Nat) : Prop where
  nonnull : block ≠ 0
  header : acc block 24
  size : 64 ≤ blockSize m block
  free : isFree m block ≠ 0
  bound : brk ≠ ptrFailed → block < brk ∧ blockSize m block ≤ brk - block
  links : acc (block + 32) 16
  head_eq : prev m block = 0 → head = block
  prev_acc : prev m block ≠ 0 → acc (prev m block + 32) 8
  prev_next : prev m block ≠ 0 → next m (prev m block) = block
  next_acc : next m block ≠ 0 → acc (next m block + 40) 8
  next_prev : next m block ≠ 0 → prev m (next m block) = block
  footer_acc : acc footer 16
  footer_eq : magicFooter m footer = allocMagicFooter ∧ footerBlockSize m footer = blockSize m block

/-- The checks on `State`. -/
def State.Unlinkable (s : State) (block : Nat) : Prop :=
  MemoryMonitor.Unlinkable s.mem s.Accessible s.brk (s.heads (getSizeClassIndex (blockSize s.mem block)))
    (block + blockSize s.mem block - 16) block

theorem freeListRemove_ok_iff {s s' : State} {block : Nat} :
    freeListRemove s block = .ok s' ↔
      block = 0 ∧ s' = s ∨ s.Unlinkable block ∧ s' = unlinkBlock s block := by
  unfold freeListRemove State.Unlinkable
  rw [null_or_ok, unlinkable_iff]
  simp only [check, State.deref, State.derefNonNull, guard_bind_ok, guard_nonnull_bind_ok, and_assoc,
    Except.ok.injEq, eq_comm (a := s')]

/-- The number of steps after which a traversal has revisited an address. -/
def traversalFuel : Nat := 2 ^ 64

/-- The `while (curr)` loop of `free_list_find_fit` over one list: the best fit
so far is `best` (`NULL` if none), with excess `minDiff`. -/
def findBest (s : State) (total : Nat) : Nat → Nat → Nat → Nat → Except Fault Nat
  | 0, _, _, _ => .error .diverge
  | fuel + 1, curr, best, minDiff =>
    if curr = 0 then .ok best
    else do
      s.deref curr 40
      check (magicHeader s.mem curr = allocMagicHeader)
        "[FATAL] Heap canary corruption detected in free_list_find_fit\n"
      if total ≤ blockSize s.mem curr ∧ blockSize s.mem curr - total < minDiff then
        if blockSize s.mem curr - total = 0 then .ok curr
        else findBest s total fuel (next s.mem curr) curr (blockSize s.mem curr - total)
      else
        findBest s total fuel (next s.mem curr) best minDiff

/-- The outer loop of `free_list_find_fit`, over the classes still to search. -/
def findFitFrom (s : State) (total : Nat) : List (Fin 8) → Except Fault (Nat × State)
  | [] => .ok (0, s)
  | i :: is => do
    let best ← findBest s total traversalFuel (s.heads i) 0 (2 ^ 64 - 1)
    if best ≠ 0 then do
      let s' ← freeListRemove s best
      .ok (best, s')
    else
      findFitFrom s total is

/-- `free_list_find_fit`: the block found, unlinked, or `NULL`. -/
def freeListFindFit (s : State) (total : Nat) : Except Fault (Nat × State) :=
  findFitFrom s total ((List.finRange 8).drop (getSizeClassIndex total))

/-- The `while (curr)` loop of `free_list_verify_integrity` over list `i`. -/
def verifyList (s : State) (i : Fin 8) : Nat → Nat → Except Fault Bool
  | 0, _ => .error .diverge
  | fuel + 1, curr =>
    if curr = 0 then .ok true
    else do
      s.deref curr 24
      if magicHeader s.mem curr ≠ allocMagicHeader ∨ isFree s.mem curr = 0 ∨
          blockSize s.mem curr < 64 then .ok false
      else if s.brk ≠ ptrFailed ∧
          (s.brk ≤ curr ∨ s.brk - curr < blockSize s.mem curr) then .ok false
      else do
        s.deref (curr + 32) 16
        if prev s.mem curr = 0 ∧ s.heads i ≠ curr then .ok false
        else do
          s.derefNonNull (prev s.mem curr) 32 8
          if prev s.mem curr ≠ 0 ∧ next s.mem (prev s.mem curr) ≠ curr then .ok false
          else do
            s.derefNonNull (next s.mem curr) 40 8
            if next s.mem curr ≠ 0 ∧ prev s.mem (next s.mem curr) ≠ curr then .ok false
            else do
              let footer := curr + blockSize s.mem curr - 16
              s.deref footer 16
              if magicFooter s.mem footer ≠ allocMagicFooter ∨
                  footerBlockSize s.mem footer ≠ blockSize s.mem curr then .ok false
              else
                verifyList s i fuel (next s.mem curr)

/-- The outer loop of `free_list_verify_integrity`, over the lists still to check. -/
def verifyLists (s : State) : List (Fin 8) → Except Fault Bool
  | [] => .ok true
  | i :: is => do
    let ok ← verifyList s i traversalFuel (s.heads i)
    if ok then verifyLists s is else .ok false

/-- `free_list_verify_integrity`: `true` for 0, `false` for -1. -/
def freeListVerifyIntegrity (s : State) : Except Fault Bool := verifyLists s (List.finRange 8)

end MemoryMonitor
