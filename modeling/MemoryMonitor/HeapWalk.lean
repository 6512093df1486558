import MemoryMonitor.ControlSpec
import MemoryMonitor.BreakFrame

/-! # Walking the heap

From `heap_start`, stepping by `block_size`, a reader of the raw bytes meets the
blocks of the heap one after the other.  `Walk` is that traversal, and `WellFormed`
says what it meets and how the free lists fit it, in terms of the bytes alone.  A
heap without gaps is well formed, and the tiling of the representation is the walk.

`allocator_verify_integrity` is such a walk too.  It runs into the first gap and
takes it for a corrupted block.
-/
namespace MemoryMonitor

open ByteMemory Tiling LinkedChain

/-- Stepping by `block_size` from `a` meets the blocks `l` and lands on `hi`. -/
def Walk (m : Mem) : Nat → List Nat → Nat → Prop
  | a, [], hi => a = hi
  | a, b :: l, hi => b = a ∧ a < hi ∧ Walk m (a + blockSize m a) l hi

/-- There is one walk only. -/
theorem Walk.unique {m : Mem} {hi : Nat} : ∀ {a : Nat} {l l' : List Nat}, Walk m a l hi →
    Walk m a l' hi → l = l'
  | _, [], [], _, _ => rfl
  | _, [], _ :: _, h, h' => by
      have h1 := h'.2.1
      have h2 : _ = hi := h
      omega
  | _, _ :: _, [], h, h' => by
      have h1 := h.2.1
      have h2 : _ = hi := h'
      omega
  | _, b :: l, b' :: l', h, h' => by
      rw [h.1, h'.1, h.2.2.unique h'.2.2]

/-- What the source relies on in a block of the heap. -/
structure BlockOk (m : Mem) (b : Nat) : Prop where
  magic : magicHeader m b = allocMagicHeader
  flag : isFree m b = 0 ∨ isFree m b = 1
  not_mmap : isMmap m b = 0
  size_aligned : blockSize m b % 16 = 0
  size_ge : 80 ≤ blockSize m b
  footer_magic : magicFooter m (b + blockSize m b - 16) = allocMagicFooter
  footer_size : footerBlockSize m (b + blockSize m b - 16) = blockSize m b

/-- **A well-formed heap**: the blocks met from `heap_start` to `sbrk(0)` are in order,
and the eight lists are doubly linked, without cycles, and hold exactly the free
blocks of their size class. -/
structure WellFormed (s : State) (blocks : List Nat) (lists : Fin 8 → List Nat) : Prop where
  walk : Walk s.mem s.heapStart blocks s.brk
  block : ∀ b ∈ blocks, BlockOk s.mem b
  chain : ∀ i, Chain 0 (next s.mem) (prev s.mem) 0 (s.heads i) (lists i)
  nodup : ∀ i, (lists i).Nodup
  listed : ∀ i b, b ∈ lists i ↔
    b ∈ blocks ∧ isFree s.mem b = 1 ∧ getSizeClassIndex (blockSize s.mem b) = i

/-- A tiling by blocks is a walk. -/
theorem Walk.of_tiles {m : Mem} {hi : Nat} : ∀ {lo : Nat} {segs : List Seg}, Tiles lo segs hi →
    (∀ g ∈ segs, blockSize m g.addr = g.size) → Walk m lo (segs.map Span.addr) hi
  | _, [], ht, _ => ht
  | lo, g :: segs, ht, hs => by
      have hlt := ht.2.2.le
      have hpos := ht.2.1
      refine ⟨ht.1, by omega, ?_⟩
      have hg := hs g (List.mem_cons_self ..)
      rw [ht.1] at hg
      rw [hg]
      exact Walk.of_tiles ht.2.2 fun k hk => hs k (List.mem_cons_of_mem _ hk)

theorem Formed.blockOk {m : Mem} {a n f : Nat} (hF : Formed m a n f 0) (hf : f = 0 ∨ f = 1) :
    BlockOk m a := by
  refine ⟨hF.magic, ?_, hF.mmap_eq, ?_, ?_, ?_, ?_⟩
  · rw [hF.free_eq]; exact hf
  · rw [hF.size_eq]; exact hF.size_aligned
  · rw [hF.size_eq]; exact hF.size_ge
  · rw [hF.size_eq]; exact hF.footer_magic
  · rw [hF.size_eq]; exact hF.footer_size

namespace HeapRep
variable {s : State} {lo : Nat} {segs : List Seg} {lists : Fin 8 → List Nat}

/-- Every span of a heap without gaps is a block, free when its flag says so. -/
theorem span_cases (H : HeapRep s lo segs lists) {g : Seg} (hg : g ∈ segs) (hwork : g.kind ≠ .work)
    (hgap : g.kind ≠ .gap) :
    ∃ f, Formed s.mem g.addr g.size f 0 ∧ (f = 0 ∨ f = 1) ∧ (f = 1 ↔ g.kind = .free) := by
  cases hk : g.kind with
  | gap => exact absurd hk hgap
  | work => exact absurd hk hwork
  | used => exact ⟨0, H.used g hg hk, Or.inl rfl, by simp⟩
  | free => exact ⟨1, H.free g hg hk, Or.inr rfl, by simp⟩

/-- **A heap without gaps is well formed**, and its blocks are the spans. -/
theorem wellFormed (H : HeapRep s lo segs lists) (hstart : s.heapStart = lo)
    (hwork : ∀ g ∈ segs, g.kind ≠ .work) (hgap : ∀ g ∈ segs, g.kind ≠ .gap) :
    WellFormed s (segs.map Span.addr) lists := by
  refine ⟨?_, ?_, H.chain, H.nodup, ?_⟩
  · rw [hstart]
    refine Walk.of_tiles H.tiles fun g hg => ?_
    obtain ⟨f, hF, -, -⟩ := H.span_cases hg (hwork g hg) (hgap g hg)
    exact hF.size_eq
  · intro b hb
    obtain ⟨g, hg, rfl⟩ := List.mem_map.mp hb
    obtain ⟨f, hF, hf, -⟩ := H.span_cases hg (hwork g hg) (hgap g hg)
    exact hF.blockOk hf
  · intro i b
    rw [H.listed i b]
    constructor
    · rintro ⟨g, hg, hk, rfl, hi⟩
      have hF := H.free g hg hk
      exact ⟨List.mem_map.mpr ⟨g, hg, rfl⟩, hF.free_eq, by rw [hF.size_eq]; exact hi⟩
    · rintro ⟨hb, hfree, hi⟩
      obtain ⟨g, hg, rfl⟩ := List.mem_map.mp hb
      obtain ⟨f, hF, -, hk⟩ := H.span_cases hg (hwork g hg) (hgap g hg)
      rw [hF.free_eq] at hfree
      rw [hF.size_eq] at hi
      exact ⟨g, hg, hk.mp hfree, rfl, hi⟩

/-! ## The integrity check -/

/-- The loop of `allocator_verify_integrity` accepts blocks and stops at the first gap. -/
theorem verifyHeap_eq (H : HeapRep s lo segs lists) (B : Blank s segs)
    (hwork : ∀ g ∈ segs, g.kind ≠ .work) :
    ∀ {post : List Seg} (pre : List Seg) {a fuel : Nat}, segs = pre ++ post → Tiles a post s.brk → a % 16 = 0 →
      post.length < fuel → verifyHeap s fuel a = .ok (post.all fun g => g.kind ≠ .gap)
  | _, _, _, 0, _, _, _, hf => by omega
  | [], _, a, fuel + 1, _, ht, _, _ => by
      have hle : s.brk ≤ a := Nat.le_of_eq ht.symm
      rw [verifyHeap, if_pos hle]
      rfl
  | g :: post, pre, a, fuel + 1, hsegs, ht, h16, hf => by
      have hg : g ∈ segs := by rw [hsegs]; simp
      have hb := H.tiles.bounds hg
      have hfl := H.floor
      have ha := ht.1
      have hlt : ¬ s.brk ≤ a := by omega
      rw [verifyHeap, if_neg hlt, List.all_cons]
      by_cases hk : g.kind = .gap
      · -- the gap is taken for a block: too short for one, or without a canary
        have hfalse : (decide (g.kind ≠ .gap) && post.all fun g => decide (g.kind ≠ .gap)) = false := by
          simp [hk]
        rw [hfalse]
        by_cases hshort : s.brk - a < 64
        · rw [if_pos hshort]
        · have hmagic := H.gap_header (H.aligned fun g hg h => absurd h (hwork g hg)) B hg hk
            (by omega) (by omega)
          rw [ha] at hmagic
          rw [if_neg hshort, if_neg (not_not.mpr h16),
            State.deref_pos (Or.inl ⟨by omega, by omega⟩), ok_bind, if_pos (Or.inl hmagic)]
      · obtain ⟨f, hF, -, -⟩ := H.span_cases hg (hwork g hg) hk
        rw [ha] at hF
        have hge := hF.size_ge
        have hsz := hF.size_aligned
        have htrue : (decide (g.kind ≠ .gap) && post.all fun g => decide (g.kind ≠ .gap)) =
            post.all fun g => decide (g.kind ≠ .gap) := by
          simp [hk]
        rw [htrue, if_neg (by omega), if_neg (not_not.mpr h16),
          State.deref_pos (Or.inl ⟨by omega, by omega⟩), ok_bind, hF.size_eq,
          if_neg (by rw [hF.magic]; omega)]
        simp only
        rw [State.deref_pos (Or.inl ⟨by omega, by omega⟩), ok_bind,
          if_neg (by rw [hF.footer_magic, hF.footer_size]; simp)]
        refine H.verifyHeap_eq B hwork (pre ++ [g]) (by rw [hsegs]; simp) ht.2.2 (by omega) ?_
        rw [List.length_cons] at hf
        omega

end HeapRep

/-- **`allocator_verify_integrity` never faults, and returns 0 exactly when the heap has
no gap.** -/
theorem Heap.allocatorVerifyIntegrity {shared : Prop} {s : State} {live : List Alloc} {lo : Nat}
    {segs : List Seg} {lists : Fin 8 → List Nat} (I : Heap shared s live lo segs lists) :
    allocatorVerifyIntegrity s = .ok (segs.all fun g => g.kind ≠ .gap) := by
  unfold MemoryMonitor.allocatorVerifyIntegrity
  rw [I.rep.freeListVerifyIntegrity_true, ok_bind, if_neg (by simp)]
  have hlo := I.rep.lo_pos
  have hle := I.rep.tiles.le
  have hlim := I.rep.limit
  have hlen := I.rep.tiles.length
  have h16 := I.start_aligned
  have hbrk := I.rep.brk_ne_ptrFailed
  unfold addrLimit at hlim
  rcases I.rep.start with hst | ⟨hst, hnil⟩
  · have hptr : s.heapStart ≠ ptrFailed := by
      unfold ptrFailed
      omega
    rw [if_pos ⟨by omega, hptr, by omega, hbrk, by omega⟩, hst]
    refine I.rep.verifyHeap_eq I.blank I.settled [] rfl I.rep.tiles (by omega) ?_
    unfold traversalFuel
    omega
  · rw [if_neg (by simp [hst]), hnil]
    rfl

end MemoryMonitor
