import MemoryMonitor.ByteMemory
import Mathlib.Logic.Function.Basic

/-! # The allocator's state, its block layout, and the kernel under it

The state is everything `allocator.c` and `free_list.c` read or write: the bytes of
the address space, the eight list heads, the three saved break addresses and the
statistics, together with the part of the kernel's state the system calls act on
(the program break and the mappings).

**Layout.**  `block_header_t` is 48 bytes: `magic_header` at 0 and `is_free` at 4
(32 bits each), `requested_size` at 8 and `block_size` at 16, `is_mmap` at 24,
`next` at 32 and `prev` at 40.  `block_footer_t` is 16 bytes: `magic_footer` at 0
and `block_size` at 8.  So 48, 16 and 64 below are `sizeof(block_header_t)`,
`sizeof(block_footer_t)` and their sum, and 16 is also `ALIGNMENT`.

**Kernel.**  What a system call answers is chosen by an `Oracle`, but only among
the answers Linux can give: `sbrk` and `mmap` succeed only on address space that
is free, `mmap` only page-aligned, and growing the break above its highest value
so far yields zero bytes.  `sbrk(0)` is the current break; it makes no request
and does not fail.  Everything else may fail at any time.

Dereferencing a pointer outside the break area and the mappings is a `segv`.
-/
namespace MemoryMonitor

open ByteMemory

/-! ## Machine words -/

/-- `size_t` addition. -/
def addSize (a b : Nat) : Nat := (a + b) % 2 ^ 64

/-- `ALIGN(size)`: the sum wraps, then the low four bits are cleared. -/
def align (size : Nat) : Nat := addSize size 15 / 16 * 16

/-- `sizeof(block_header_t) + ALIGN(size) + sizeof(block_footer_t)`. -/
def totalSize (size : Nat) : Nat := addSize (addSize 48 (align size)) 16

/-- `SIZE_MAX - 1024`. -/
def maxAllowed : Nat := 2 ^ 64 - 1 - 1024

/-- `(void *)-1`, what a failing `sbrk` returns. -/
def ptrFailed : Nat := 2 ^ 64 - 1

def allocMagicHeader : Nat := 0xDEADBEEF
def allocMagicFooter : Nat := 0xBEEFDEAD
def mmapThreshold : Nat := 128 * 1024

/-- No user address reaches the last page of the address space. -/
def addrLimit : Nat := 2 ^ 64 - 4096

theorem addSize_of_lt {a b : Nat} (h : a + b < 2 ^ 64) : addSize a b = a + b :=
  Nat.mod_eq_of_lt h

/-- **No wrap-around**: an admitted request is rounded up to a multiple of 16 and
the header and footer are added, in `size_t` as in the integers. -/
theorem totalSize_spec {size : Nat} (h : size ≤ maxAllowed) :
    totalSize size = 64 + (size + 15) / 16 * 16 := by
  unfold maxAllowed at h
  unfold totalSize align
  rw [addSize_of_lt (show size + 15 < 2 ^ 64 by omega)]
  rw [addSize_of_lt (show 48 + (size + 15) / 16 * 16 < 2 ^ 64 by omega)]
  rw [addSize_of_lt (by omega)]
  omega

/-! ## Faults -/

/-- How a call can fail to return: `fatal_abort` with its message, a wild
dereference, or an endless loop. -/
inductive Fault where
  | abort (msg : String)
  | segv (addr : Nat)
  | diverge
deriving DecidableEq, Repr

/-- `if (!c) fatal_abort(msg);` -/
def check (c : Prop) [Decidable c] (msg : String) : Except Fault Unit :=
  if c then .ok () else .error (.abort msg)

theorem check_pos {c : Prop} [Decidable c] {msg : String} (h : c) : check c msg = .ok () :=
  if_pos h

theorem check_ok {c : Prop} [Decidable c] {msg : String} {u : Unit} (h : check c msg = .ok u) :
    c := by
  unfold check at h
  split at h
  · assumption
  · cases h

/-- Running on after a call that returned. -/
@[simp] theorem ok_bind {ε α β : Type} (a : α) (f : α → Except ε β) :
    (Except.ok a >>= f) = f a := rfl

/-- A computation that returned went through its first part. -/
theorem bind_ok {ε α β : Type} {x : Except ε α} {f : α → Except ε β} {b : β}
    (h : (x >>= f) = .ok b) : ∃ a, x = .ok a ∧ f a = .ok b := by
  cases x with
  | error e => cases h
  | ok a => exact ⟨a, rfl, h⟩

/-- A computation that stopped did so in its first part or in the rest. -/
theorem bind_error {ε α β : Type} {x : Except ε α} {f : α → Except ε β} {e : ε}
    (h : (x >>= f) = .error e) : x = .error e ∨ ∃ a, x = .ok a ∧ f a = .error e := by
  cases x with
  | error e' =>
    cases h
    exact Or.inl rfl
  | ok a => exact Or.inr ⟨a, rfl, h⟩

/-- What all the checks and accesses are: they go on or stop. -/
theorem guard_bind_ok {c : Prop} [Decidable c] {e : Fault} {α : Type}
    {f : Unit → Except Fault α} {a : α} :
    ((if c then .ok () else .error e) >>= f) = .ok a ↔ c ∧ f () = .ok a := by
  split
  · simp [*]
  · simp only [*, false_and, iff_false]
    exact fun h => by cases h

theorem guard_nonnull_bind_ok {p : Nat} {c : Prop} [Decidable c] {e : Fault} {α : Type}
    {f : Unit → Except Fault α} {a : α} :
    ((if p ≠ 0 then (if c then .ok () else .error e) else .ok ()) >>= f) = .ok a ↔
      (p ≠ 0 → c) ∧ f () = .ok a := by
  split
  · simp [*, guard_bind_ok]
  · simp_all

/-- A function that returns at once when it is given a null pointer. -/
theorem null_or_ok {α : Type} {p : Nat} {a b : α} {x : Except Fault α} :
    (if p = 0 then .ok a else x) = .ok b ↔ p = 0 ∧ b = a ∨ p ≠ 0 ∧ x = .ok b := by
  split
  · simp [*, eq_comm]
  · simp [*]

/-! ## Block fields -/

section Fields
variable (m : Mem) (h v : Nat)

def magicHeader : Nat := readLE m h 4
def isFree : Nat := readLE m (h + 4) 4
def requestedSize : Nat := readLE m (h + 8) 8
def blockSize : Nat := readLE m (h + 16) 8
def isMmap : Nat := readLE m (h + 24) 4
def next : Nat := readLE m (h + 32) 8
def prev : Nat := readLE m (h + 40) 8

def setMagicHeader : Mem := writeLE m h 4 v
def setIsFree : Mem := writeLE m (h + 4) 4 v
def setRequestedSize : Mem := writeLE m (h + 8) 8 v
def setBlockSize : Mem := writeLE m (h + 16) 8 v
def setIsMmap : Mem := writeLE m (h + 24) 4 v
def setNext : Mem := writeLE m (h + 32) 8 v
def setPrev : Mem := writeLE m (h + 40) 8 v

/-- `footer->magic_footer`, of the footer at `h`. -/
def magicFooter : Nat := readLE m h 4
/-- `footer->block_size`, of the footer at `h`. -/
def footerBlockSize : Nat := readLE m (h + 8) 8

/-- The two stores that stamp a footer at `h`: the canary and the size `v`. -/
def putFooter : Mem := writeLE (writeLE m h 4 allocMagicFooter) (h + 8) 8 v

end Fields

/-! ## State -/

/-- `allocator_stats_t`. -/
structure Stats where
  totalAllocated : Nat := 0
  totalFreed : Nat := 0
  currentHeapSize : Nat := 0
  mmapAllocations : Nat := 0
  sbrkAllocations : Nat := 0
deriving DecidableEq, Repr

/-- An anonymous mapping. -/
structure Mapping where
  addr : Nat
  len : Nat
deriving DecidableEq, Repr

/-- The bytes of the address space, the allocator's globals and the kernel's view.
`hostOwned` is a ghost: it marks the bytes of the break area that someone else's
`sbrk` calls obtained. -/
structure State where
  mem : Mem
  heads : Fin 8 → Nat
  heapStart : Nat
  initialBreak : Nat
  lastAllocatorBreak : Nat
  stats : Stats
  /-- Where the break area begins. -/
  brkFloor : Nat
  /-- The program break, `sbrk(0)`. -/
  brk : Nat
  /-- The highest value the break has had. -/
  brkPeak : Nat
  maps : List Mapping
  hostOwned : Nat → Bool

/-- The kernel's choices during one critical section. -/
structure Oracle where
  /-- Whether growing the break from its value by an increment is granted. -/
  sbrkOk : Nat → Nat → Bool := fun _ _ => true
  /-- Whether lowering the break is granted. -/
  brkOk : Bool := true
  /-- Where `mmap` would place the mapping, if it grants one. -/
  mmapAt : Option Nat := none
  /-- Where `mremap` would place the mapping, if it grants one. -/
  mremapAt : Option Nat := none
  munmapOk : Bool := true
  /-- Bytes whose content the kernel does not specify. -/
  unspecified : Nat → UInt8 := fun _ => 0

/-- `[a, a + n)` lies in the break area or in a mapping. -/
def State.Accessible (s : State) (a n : Nat) : Prop :=
  (s.brkFloor ≤ a ∧ a + n ≤ s.brk) ∨ ∃ mp ∈ s.maps, mp.addr ≤ a ∧ a + n ≤ mp.addr + mp.len

instance (s : State) (a n : Nat) : Decidable (s.Accessible a n) :=
  inferInstanceAs (Decidable (_ ∨ _))

/-- The program touches the `n` bytes of the structure at `a`. -/
def State.deref (s : State) (a n : Nat) : Except Fault Unit :=
  if s.Accessible a n then .ok () else .error (.segv a)

theorem State.deref_pos {s : State} {a n : Nat} (h : s.Accessible a n) : s.deref a n = .ok () :=
  if_pos h

theorem State.deref_ok {s : State} {a n : Nat} {u : Unit} (h : s.deref a n = .ok u) :
    s.Accessible a n := by
  unfold State.deref at h
  split at h
  · assumption
  · cases h

theorem State.Accessible.sub {s : State} {a n b k : Nat} (h : s.Accessible a n) (hab : a ≤ b)
    (hk : b + k ≤ a + n) : s.Accessible b k := by
  rcases h with ⟨h1, h2⟩ | ⟨mp, hmp, h1, h2⟩
  · exact Or.inl ⟨by omega, by omega⟩
  · exact Or.inr ⟨mp, hmp, by omega, by omega⟩

/-- The program touches `n` bytes at offset `off` of what `p` points to, unless `p`
is null. -/
def State.derefNonNull (s : State) (p off n : Nat) : Except Fault Unit :=
  if p ≠ 0 then s.deref (p + off) n else .ok ()

theorem State.derefNonNull_pos {s : State} {p off n : Nat} (h : p ≠ 0 → s.Accessible (p + off) n) :
    s.derefNonNull p off n = .ok () := by
  unfold State.derefNonNull
  split
  · exact State.deref_pos (h ‹_›)
  · rfl

/-! ## System calls -/

/-- Two address ranges do not meet. -/
def Apart (a n b k : Nat) : Prop := a + n ≤ b ∨ b + k ≤ a

instance (a n b k : Nat) : Decidable (Apart a n b k) := inferInstanceAs (Decidable (_ ∨ _))

/-- The bytes a growing break uncovers: zero above the highest break so far,
unspecified where the break has been before. -/
def State.uncovered (s : State) (o : Oracle) : Nat → UInt8 :=
  fun x => if x < s.brkPeak then o.unspecified x else 0

/-- `sbrk(n)` for `n > 0`, by the allocator (`host = false`) or by the rest of the
process: the old break and the state after, or `none` for `(void *)-1`. -/
def State.sbrk (s : State) (o : Oracle) (n : Nat) (host : Bool) : Option (Nat × State) :=
  if o.sbrkOk s.brk n = true ∧ s.brk + n ≤ addrLimit ∧
      ∀ mp ∈ s.maps, Apart mp.addr mp.len s.brk n then
    some (s.brk,
      { s with
        mem := overwrite s.mem s.brk n (s.uncovered o)
        brk := s.brk + n
        brkPeak := max s.brkPeak (s.brk + n)
        hostOwned := fun x => if s.brk ≤ x ∧ x < s.brk + n then host else s.hostOwned x })
  else
    none

/-- A mapping of `len` bytes at `a` would be page-aligned and free of the break
area and of the mappings `maps`. -/
def State.Placeable (s : State) (maps : List Mapping) (a len : Nat) : Prop :=
  a % 4096 = 0 ∧ 0 < a ∧ 0 < len ∧ a + len ≤ addrLimit ∧
    (a + len ≤ s.brkFloor ∨ s.brk ≤ a) ∧ ∀ mp ∈ maps, Apart mp.addr mp.len a len

instance (s : State) (maps : List Mapping) (a len : Nat) : Decidable (s.Placeable maps a len) :=
  inferInstanceAs (Decidable (_ ∧ _))

/-- `mmap(NULL, len, …, MAP_PRIVATE | MAP_ANONYMOUS, …)`: a fresh zeroed mapping. -/
def State.mmap (s : State) (o : Oracle) (len : Nat) : Option (Nat × State) :=
  match o.mmapAt with
  | none => none
  | some a =>
    if s.Placeable s.maps a len then
      some (a, { s with
        mem := overwrite s.mem a len fun _ => 0
        maps := ⟨a, len⟩ :: s.maps })
    else
      none

/-- `munmap` of the whole mapping at `a`. -/
def State.munmap (s : State) (o : Oracle) (a : Nat) : State :=
  if o.munmapOk then { s with maps := s.maps.filter fun mp => mp.addr ≠ a } else s

/-- `mremap(old, oldLen, len, MREMAP_MAYMOVE)`: the mapping at `old` becomes one of
`len` bytes, in place or moved to free space.  The common prefix is preserved. -/
def State.mremap (s : State) (o : Oracle) (old oldLen len : Nat) : Option (Nat × State) :=
  match o.mremapAt with
  | none => none
  | some a =>
    if (⟨old, oldLen⟩ : Mapping) ∈ s.maps ∧
        s.Placeable (s.maps.filter fun mp => mp.addr ≠ old) a len ∧
        (a = old ∨ Apart old oldLen a len) then
      some (a, { s with
        mem := overwrite s.mem a len fun x =>
          if x - a < min oldLen len then s.mem (old + (x - a)) else o.unspecified x
        maps := ⟨a, len⟩ :: s.maps.filter fun mp => mp.addr ≠ old })
    else
      none

/-- `brk(addr)`, lowering the break. -/
def State.brkTo (s : State) (o : Oracle) (addr : Nat) : Option State :=
  if o.brkOk then some { s with brk := addr } else none

end MemoryMonitor
