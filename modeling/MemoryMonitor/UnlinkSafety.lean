import MemoryMonitor.FreeList

/-! # Unlinking from tampered lists

`free_list_remove` again, on a memory of which nothing is known: not that the lists are
lists, nor that the block is on one.  The list heads are now words of this memory, where
the static array `segregated_heads` has them, so a link may also point into the array.

The three linkage checks read the words that the three stores behind them write.  Links
that are aligned leave two cases only in which a store could disturb what a later one
reads, the block linked to itself and a link into the block's own links, and in both the
checks have settled the values.

`freeListRemove` on `State`, with the heads apart, is this function as long as the blocks
are away from the array (`Shows.freeListRemove`).
-/
namespace MemoryMonitor

open ByteMemory

/-- The address space of the process. -/
structure Space where
  mem : Mem
  /-- The bytes that the process may access. -/
  mapped : Nat → Bool
  /-- What `sbrk(0)` returns. -/
  brk : Nat
  /-- The address of the array of the list heads. -/
  segregatedHeads : Nat
  heads_aligned : segregatedHeads % 8 = 0
  mapped_lt : ∀ a, mapped a = true → a < 2 ^ 64

namespace Space

/-- The 8-byte location at `a`. -/
def word (s : Space) (a : Nat) : Nat := readLE s.mem a 8

/-- `&segregated_heads[i]`. -/
def headAt (s : Space) (i : Fin 8) : Nat := s.segregatedHeads + 8 * i

def Accessible (s : Space) (a n : Nat) : Prop := ∀ i < n, s.mapped (a + i) = true

instance (s : Space) (a n : Nat) : Decidable (s.Accessible a n) :=
  inferInstanceAs (Decidable (∀ i < n, _))

def deref (s : Space) (a n : Nat) : Except Fault Unit :=
  if s.Accessible a n then .ok () else .error (.segv a)

def derefNonNull (s : Space) (p off n : Nat) : Except Fault Unit :=
  if p ≠ 0 then s.deref (p + off) n else .ok ()

/-- The stores of `free_list_remove`, after all its checks passed. -/
def unlinkBlock (s : Space) (block : Nat) : Space :=
  let idx := getSizeClassIndex (blockSize s.mem block)
  let p := prev s.mem block
  let n := next s.mem block
  let m := if p ≠ 0 then setNext s.mem p n else writeLE s.mem (s.headAt idx) 8 n
  let m := if next m block ≠ 0 then setPrev m (next m block) (prev m block) else m
  { s with mem := setIsFree (setPrev (setNext m block 0) block 0) block 0 }

/-- `free_list_remove`. -/
def freeListRemove (s : Space) (block : Nat) : Except Fault Space :=
  if block = 0 then .ok s
  else do
    s.deref block 24
    check (64 ≤ blockSize s.mem block)
      "[FATAL] Invalid block size while unlinking free-list block\n"
    check (isFree s.mem block ≠ 0) "[FATAL] Attempt to unlink an allocated block\n"
    check (s.brk ≠ ptrFailed → block < s.brk ∧ blockSize s.mem block ≤ s.brk - block)
      "[FATAL] Free-list block size exceeds heap break\n"
    s.deref (block + 32) 16
    let idx := getSizeClassIndex (blockSize s.mem block)
    check (prev s.mem block = 0 → s.word (s.headAt idx) = block)
      "[FATAL] Free-list head linkage corruption detected\n"
    s.derefNonNull (prev s.mem block) 32 8
    check (prev s.mem block ≠ 0 → next s.mem (prev s.mem block) = block)
      "[FATAL] Free-list previous linkage corruption detected\n"
    s.derefNonNull (next s.mem block) 40 8
    check (next s.mem block ≠ 0 → prev s.mem (next s.mem block) = block)
      "[FATAL] Free-list next linkage corruption detected\n"
    -- without a break to compare with, the size may lead around the address space
    let footer := (block + blockSize s.mem block - 16) % 2 ^ 64
    s.deref footer 16
    check (magicFooter s.mem footer = allocMagicFooter ∧
        footerBlockSize s.mem footer = blockSize s.mem block)
      "[FATAL] Free-list footer corruption detected\n"
    .ok (s.unlinkBlock block)

end Space

/-- The stores after the first. -/
def detach (m : Mem) (block : Nat) : Mem :=
  let m := if next m block ≠ 0 then setPrev m (next m block) (prev m block) else m
  setIsFree (setPrev (setNext m block 0) block 0) block 0

namespace Space
variable {s s' : Space} {block : Nat}

/-! ## The checks -/

/-- The checks on `Space`. -/
def Unlinkable (s : Space) (block : Nat) : Prop :=
  MemoryMonitor.Unlinkable s.mem s.Accessible s.brk
    (s.word (s.headAt (getSizeClassIndex (blockSize s.mem block))))
    ((block + blockSize s.mem block - 16) % 2 ^ 64) block

theorem freeListRemove_ok_iff : s.freeListRemove block = .ok s' ↔
    block = 0 ∧ s' = s ∨ s.Unlinkable block ∧ s' = s.unlinkBlock block := by
  unfold freeListRemove Unlinkable
  rw [null_or_ok, unlinkable_iff]
  simp only [check, deref, derefNonNull, guard_bind_ok, guard_nonnull_bind_ok, and_assoc,
    Except.ok.injEq, eq_comm (a := s')]

/-! ## The stores -/

/-- Where the link to the block is, if the list is right: in its predecessor, or in the head
of its list. -/
def linkTo (s : Space) (block : Nat) : Nat :=
  if prev s.mem block ≠ 0 then prev s.mem block + 32
  else s.headAt (getSizeClassIndex (blockSize s.mem block))

/-- The memory after the first store. -/
def relinked (s : Space) (block : Nat) : Mem :=
  writeLE s.mem (s.linkTo block) 8 (next s.mem block)

theorem unlinkBlock_eq (s : Space) (block : Nat) :
    s.unlinkBlock block = { s with mem := detach (s.relinked block) block } := by
  unfold unlinkBlock relinked linkTo
  by_cases hp : prev s.mem block ≠ 0
  · simp only [if_pos hp]
    rfl
  · simp only [if_neg hp]
    rfl

/-- The checks have found the address of the block there. -/
theorem Unlinkable.word_linkTo (L : s.Unlinkable block) : s.word (s.linkTo block) = block := by
  unfold linkTo
  by_cases hp : prev s.mem block ≠ 0
  · rw [if_pos hp]
    exact L.prev_next hp
  · rw [if_neg hp]
    exact L.head_eq (not_not.mp hp)

theorem linkTo_aligned (hprev : prev s.mem block % 8 = 0) : s.linkTo block % 8 = 0 := by
  have := s.heads_aligned
  unfold linkTo headAt
  split <;> omega

/-- The first store does not change the links of the block. -/
theorem Unlinkable.relinked_links (L : s.Unlinkable block) (hblock : block % 16 = 0)
    (hprev : prev s.mem block % 8 = 0) :
    next (s.relinked block) block = next s.mem block ∧
      prev (s.relinked block) block = prev s.mem block := by
  have hal := linkTo_aligned hprev
  constructor
  · by_cases hself : s.linkTo block = block + 32
    · -- the block follows itself
      unfold relinked
      rw [next, hself]
      exact readLE_writeLE_same (readLE_lt s.mem 8 (block + 32))
    · exact readLE_writeLE_disjoint (by omega)
  · -- a link to the block from its own `prev` would be the block's address
    have hne : s.linkTo block ≠ block + 40 := by
      intro he
      have hw := L.word_linkTo
      have h0 := L.nonnull
      rw [he] at hw
      change prev s.mem block = block at hw
      rw [linkTo, if_pos (by omega)] at he
      omega
    exact readLE_writeLE_disjoint (by omega)

/-- **Unlinking is safe even on tampered lists.**  Whatever the memory holds, if
`free_list_remove` returns, then every 8-byte location it has changed outside the header of
the block, the list heads included, held the address of the block and now holds the block's
former `next` or `prev`. -/
theorem unlink_confined (hblock : block % 16 = 0) (hprev : prev s.mem block % 8 = 0)
    (hnext : next s.mem block % 8 = 0) (h : s.freeListRemove block = .ok s') :
    ∀ a, a % 8 = 0 → a ∉ range block 48 → s'.word a ≠ s.word a →
      s.word a = block ∧ (s'.word a = next s.mem block ∨ s'.word a = prev s.mem block) := by
  intro a ha hout hne
  rcases freeListRemove_ok_iff.mp h with ⟨-, rfl⟩ | ⟨L, rfl⟩
  · exact absurd rfl hne
  obtain ⟨hn, hp⟩ := L.relinked_links hblock hprev
  have hal := linkTo_aligned hprev
  rw [mem_range] at hout
  -- the last three stores stay in the header
  have hword : (s.unlinkBlock block).word a = readLE (if next s.mem block ≠ 0 then
      setPrev (s.relinked block) (next s.mem block) (prev s.mem block) else s.relinked block) a 8 := by
    rw [word, unlinkBlock_eq]
    simp only [detach, hn, hp, setIsFree, setNext]
    rw [readLE_writeLE_disjoint (by omega), setPrev, readLE_writeLE_disjoint (by omega),
      readLE_writeLE_disjoint (by omega)]
  have hfirst : a ≠ s.linkTo block → readLE (s.relinked block) a 8 = s.word a := fun hne =>
    readLE_writeLE_disjoint (by omega)
  have hsame : readLE (s.relinked block) (s.linkTo block) 8 = next s.mem block :=
    readLE_writeLE_same (readLE_lt s.mem 8 (block + 32))
  by_cases hback : next s.mem block ≠ 0 ∧ a = next s.mem block + 40
  · -- the link back from the successor
    obtain ⟨h0, rfl⟩ := hback
    refine ⟨L.next_prev h0, Or.inr ?_⟩
    rw [hword, if_pos h0]
    exact readLE_writeLE_same (readLE_lt s.mem 8 (block + 40))
  · have hstay : (s.unlinkBlock block).word a = readLE (s.relinked block) a 8 := by
      rw [hword]
      split
      · exact readLE_writeLE_disjoint (by omega)
      · rfl
    have hat : a = s.linkTo block := by
      by_contra hna
      exact hne (hstay.trans (hfirst hna))
    subst hat
    exact ⟨L.word_linkTo, Or.inl (hstay.trans hsame)⟩

/-- A free block at 8192 whose `prev` was made to point at the array, so that its `next` is
the head of list 3, which was made to hold the block. -/
def tampered : Space where
  mem :=
    let m := setBlockSize (setIsFree (fun _ => 0) 8192 1) 8192 64
    let m := putFooter m 8240 64
    let m := setNext (setPrev m 8192 4088) 8192 12288
    setPrev (writeLE m 4120 8 8192) 12288 8192
  mapped a := decide (a < 65536)
  brk := 65536
  segregatedHeads := 4096
  heads_aligned := by decide
  mapped_lt a ha := by
    have := of_decide_eq_true ha
    omega

theorem unlink_confined_tampered :
    ∃ s', tampered.freeListRemove 8192 = .ok s' ∧ tampered.headAt 3 = 4120 ∧
      tampered.word 4120 = 8192 ∧ (s'.word 4120 = 12288 ∨ s'.word 4120 = 4088) := by
  have hrun : (tampered.freeListRemove 8192).toOption.map (fun s => s.word 4120) = some 12288 := by
    decide +kernel
  have hlinks : (next tampered.mem 8192, prev tampered.mem 8192, tampered.word 4120) =
      (12288, 4088, 8192) := by decide +kernel
  obtain ⟨hn, hp, hw⟩ := Prod.mk.inj hlinks |>.imp_right Prod.mk.inj
  cases hr : tampered.freeListRemove 8192 with
  | error e =>
    rw [hr] at hrun
    cases hrun
  | ok s' =>
    rw [hr] at hrun
    have hword : s'.word 4120 = 12288 := Option.some.inj hrun
    have hsafe := unlink_confined (by decide) (by rw [hp]) (by rw [hn]) hr 4120 (by decide)
      (by rw [mem_range]; omega) (by rw [hword, hw]; decide)
    rw [hn, hp] at hsafe
    exact ⟨s', rfl, rfl, hsafe⟩

end Space

/-! ## The heads apart -/

/-- The state after the first store. -/
def State.relinked (s : State) (block : Nat) : State :=
  if prev s.mem block ≠ 0 then { s with mem := setNext s.mem (prev s.mem block) (next s.mem block) }
  else
    let idx := getSizeClassIndex (blockSize s.mem block)
    { s with heads := Function.update s.heads idx (next s.mem block) }

theorem unlinkBlock_relinked (s : State) (block : Nat) :
    unlinkBlock s block = { s.relinked block with mem := detach (s.relinked block).mem block } := by
  unfold unlinkBlock State.relinked
  by_cases hp : prev s.mem block ≠ 0
  · simp only [if_pos hp]
    rfl
  · simp only [if_neg hp]
    rfl

namespace Space

/-- `t` is the address space of a process whose allocator is in state `s`: the heads are in
the array, and what the allocator accesses is away from it. -/
structure Shows (t : Space) (s : State) : Prop where
  mem : Set.EqOn t.mem s.mem (range t.segregatedHeads 64)ᶜ
  heads : ∀ i, t.word (t.headAt i) = s.heads i
  brk : t.brk = s.brk
  accessible : ∀ a n, s.Accessible a n → t.Accessible a n
  apart : ∀ a n, s.Accessible a n → Apart a n t.segregatedHeads 64

namespace Shows
variable {t : Space} {s s' : State} {a n b k v : Nat}

theorem read (R : t.Shows s) (h : s.Accessible a n) (hab : a ≤ b) (hk : b + k ≤ a + n) :
    readLE t.mem b k = readLE s.mem b k := by
  have hapart := R.apart a n h
  unfold Apart at hapart
  refine readLE_congr fun x hx hx' => R.mem ?_
  rw [Set.mem_compl_iff, mem_range]
  omega

/-- The same store on both. -/
theorem write (R : t.Shows s) (h : s.Accessible a n) (v : Nat) :
    Shows { t with mem := writeLE t.mem a n v } { s with mem := writeLE s.mem a n v } := by
  refine ⟨writeLE_congr R.mem a n v, fun i => ?_, R.brk, R.accessible, R.apart⟩
  have hapart := R.apart a n h
  have hi := i.isLt
  unfold Apart at hapart
  refine (readLE_writeLE_disjoint ?_).trans (R.heads i)
  simp only [headAt]
  omega

/-- A store into a list head. -/
theorem setHead (R : t.Shows s) (idx : Fin 8) (hv : v < 2 ^ 64) :
    Shows { t with mem := writeLE t.mem (t.headAt idx) 8 v }
      { s with heads := Function.update s.heads idx v } := by
  refine ⟨?_, fun i => ?_, R.brk, R.accessible, R.apart⟩
  · refine ((writeLE_eqOn t.mem (t.headAt idx) 8 v).mono ?_).trans R.mem
    have hidx := idx.isLt
    exact Set.compl_subset_compl.mpr (range_subset (Nat.le_add_right ..) (by simp only [headAt]; omega))
  · show readLE (writeLE t.mem (t.headAt idx) 8 v) (t.headAt i) 8 = Function.update s.heads idx v i
    by_cases hi : i = idx
    · rw [hi, Function.update_self]
      exact readLE_writeLE_same hv
    · have hne : i.val ≠ idx.val := fun h => hi (Fin.ext h)
      rw [Function.update_of_ne hi, readLE_writeLE_disjoint (by simp only [headAt]; omega)]
      exact R.heads i

/-- The checks that pass with the heads apart pass with the heads in memory. -/
theorem unlinkable (R : t.Shows s) {block : Nat} (L : s.Unlinkable block) : t.Unlinkable block := by
  have hsize : blockSize t.mem block = blockSize s.mem block :=
    R.read L.header (by omega) (by omega)
  have hfree : isFree t.mem block = isFree s.mem block := R.read L.header (by omega) (by omega)
  have hnext : next t.mem block = next s.mem block := R.read L.links (by omega) (by omega)
  have hprev : prev t.mem block = prev s.mem block := R.read L.links (by omega) (by omega)
  have hfoot : (block + blockSize s.mem block - 16) % 2 ^ 64 = block + blockSize s.mem block - 16 :=
    Nat.mod_eq_of_lt (t.mapped_lt _ (R.accessible _ _ L.footer_acc 0 (by decide)))
  unfold Space.Unlinkable
  rw [hsize, hfoot, R.heads, R.brk]
  refine ⟨L.nonnull, R.accessible _ _ L.header, hsize ▸ L.size, hfree ▸ L.free, hsize ▸ L.bound,
    R.accessible _ _ L.links, hprev ▸ L.head_eq, ?_, ?_, ?_, ?_, R.accessible _ _ L.footer_acc, ?_⟩
  · rw [hprev]
    exact fun h => R.accessible _ _ (L.prev_acc h)
  · rw [hprev]
    exact fun h => (R.read (L.prev_acc h) (le_refl _) (le_refl _)).trans (L.prev_next h)
  · rw [hnext]
    exact fun h => R.accessible _ _ (L.next_acc h)
  · rw [hnext]
    exact fun h => (R.read (L.next_acc h) (le_refl _) (le_refl _)).trans (L.next_prev h)
  · rw [hsize]
    exact ⟨(R.read L.footer_acc (le_refl _) (by omega)).trans L.footer_eq.1,
      (R.read L.footer_acc (by omega) (by omega)).trans L.footer_eq.2⟩

theorem relinked (R : t.Shows s) {block : Nat} (L : s.Unlinkable block) :
    Shows { t with mem := t.relinked block } (s.relinked block) := by
  have hn : next t.mem block = next s.mem block := R.read L.links (by omega) (by omega)
  have hp : prev t.mem block = prev s.mem block := R.read L.links (by omega) (by omega)
  have hsize : blockSize t.mem block = blockSize s.mem block :=
    R.read L.header (by omega) (by omega)
  unfold Space.relinked State.relinked linkTo
  rw [hp, hn, hsize]
  by_cases h0 : prev s.mem block ≠ 0
  · rw [if_pos h0, if_pos h0]
    exact R.write (L.prev_acc h0) (next s.mem block)
  · rw [if_neg h0, if_neg h0]
    exact R.setHead _ (readLE_lt s.mem 8 (block + 32))

theorem detach (R : t.Shows s) {block : Nat} (hheader : s.Accessible block 24)
    (hlinks : s.Accessible (block + 32) 16)
    (hnext : next s.mem block ≠ 0 → s.Accessible (next s.mem block + 40) 8) :
    Shows { t with mem := MemoryMonitor.detach t.mem block }
      { s with mem := MemoryMonitor.detach s.mem block } := by
  have hn : next t.mem block = next s.mem block := R.read hlinks (by omega) (by omega)
  have hp : prev t.mem block = prev s.mem block := R.read hlinks (by omega) (by omega)
  -- the link back from the successor, if there is one
  have hback : Shows
      { t with mem := if next t.mem block ≠ 0 then
          setPrev t.mem (next t.mem block) (prev t.mem block) else t.mem }
      { s with mem := if next s.mem block ≠ 0 then
          setPrev s.mem (next s.mem block) (prev s.mem block) else s.mem } := by
    rw [hn, hp]
    by_cases h0 : next s.mem block ≠ 0
    · rw [if_pos h0, if_pos h0]
      exact R.write (hnext h0) _
    · rw [if_neg h0, if_neg h0]
      exact R
  have hfield : ∀ {b k : Nat}, block + 32 ≤ b → b + k ≤ block + 48 → s.Accessible b k :=
    fun h1 h2 => hlinks.sub (by omega) (by omega)
  have hflag : s.Accessible (block + 4) 4 := hheader.sub (by omega) (by omega)
  exact ((hback.write (hfield (by omega) (by omega)) 0).write (hfield (by omega) (by omega)) 0).write hflag 0

/-- **With the heads apart, `free_list_remove` is the same function.**  A call that returns
on the allocator's state returns on the address space, and the results show each other. -/
theorem freeListRemove (R : t.Shows s) {block : Nat} (hblock : block % 16 = 0)
    (hprev : prev s.mem block % 8 = 0) (h : MemoryMonitor.freeListRemove s block = .ok s') :
    ∃ t', t.freeListRemove block = .ok t' ∧ t'.Shows s' := by
  rcases MemoryMonitor.freeListRemove_ok_iff.mp h with ⟨h0, rfl⟩ | ⟨L, rfl⟩
  · exact ⟨t, freeListRemove_ok_iff.mpr (Or.inl ⟨h0, rfl⟩), R⟩
  have L' := R.unlinkable L
  refine ⟨_, freeListRemove_ok_iff.mpr (Or.inr ⟨L', rfl⟩), ?_⟩
  have R₁ := R.relinked L
  have hacc : ∀ {a n}, s.Accessible a n → (s.relinked block).Accessible a n := by
    intro a n ha
    unfold State.relinked
    split <;> exact ha
  have hp : prev t.mem block = prev s.mem block := R.read L.links (by omega) (by omega)
  have hn : next (s.relinked block).mem block = next s.mem block := by
    have h1 : next (t.relinked block) block = next (s.relinked block).mem block :=
      R₁.read (hacc L.links) (by omega) (by omega)
    rw [← h1, (L'.relinked_links hblock (hp ▸ hprev)).1]
    exact R.read L.links (by omega) (by omega)
  rw [unlinkBlock_eq, unlinkBlock_relinked]
  exact R₁.detach (hacc L.header) (hacc L.links) (by rw [hn]; exact fun h0 => hacc (L.next_acc h0))

end Shows

end Space

end MemoryMonitor
