import MemoryMonitor.Neighbours
import MemoryMonitor.Coalescing

/-! # Cutting, growing and handing out blocks

The pieces `my_malloc` and `my_realloc` are made of, each as an edit of the heap:
splitting a block that was found, handing a block out, shrinking a block in place
(the remainder takes in a free block behind it), and growing a block into the free
block behind it.
-/
namespace MemoryMonitor

open ByteMemory Tiling LinkedChain Coalescing

/-- The header of a block of `n` bytes at `a` is in place; its footer and its
`is_free` word need not be. -/
structure Headed (m : Mem) (a n mmap : Nat) : Prop where
  addr_aligned : a % 16 = 0
  size_aligned : n % 16 = 0
  size_ge : 80 ≤ n
  size_lt : n < 2 ^ 64
  magic : magicHeader m a = allocMagicHeader
  size_eq : blockSize m a = n
  mmap_eq : isMmap m a = mmap

section Headers
variable {m m' : Mem} {a n k f t : Nat}

theorem Formed.headed (hF : Formed m a n f t) : Headed m a n t :=
  ⟨hF.addr_aligned, hF.size_aligned, hF.size_ge, hF.size_lt, hF.magic, hF.size_eq, hF.mmap_eq⟩

theorem Headed.congr (hH : Headed m a n t) (h : Set.EqOn m' m (range a 28)) : Headed m' a n t := by
  have hr : ∀ {b c}, a ≤ b → b + c ≤ a + 28 → readLE m' b c = readLE m b c := fun h1 h2 =>
    readLE_of_eqOn h (range_subset h1 h2)
  exact
    { hH with
      magic := (hr (by omega) (by omega)).trans hH.magic
      size_eq := (hr (by omega) (by omega)).trans hH.size_eq
      mmap_eq := (hr (by omega) (by omega)).trans hH.mmap_eq }

/-- A footer completes the block. -/
theorem Headed.stamp (hH : Headed m a n t) :
    Formed (putFooter m (a + n - 16) n) a n (isFree m a) t := by
  obtain ⟨h1, h2, h3, h4, h5, h6, h7⟩ := hH
  refine ⟨h1, h2, h3, h4, ?_, ?_, ?_, ?_, ?_, ?_⟩ <;>
    simp only [magicHeader, isFree, blockSize, isMmap, magicFooter, footerBlockSize,
      putFooter] at *
  · simpa (disch := omega) only [readLE_writeLE_disjoint] using h5
  · simp (disch := omega) only [readLE_writeLE_disjoint]
  · simpa (disch := omega) only [readLE_writeLE_disjoint] using h6
  · simpa (disch := omega) only [readLE_writeLE_disjoint] using h7
  · simp (disch := omega) only [readLE_writeLE_disjoint]
    exact readLE_writeLE_same (by decide)
  · exact readLE_writeLE_same (by omega)

theorem stamp_eqOn (m : Mem) (a : Nat) (hn : 80 ≤ n) :
    Set.EqOn (putFooter m (a + n - 16) n) m (range a n)ᶜ := by
  intro x hx
  rw [Set.mem_compl_iff, mem_range] at hx
  simp only [putFooter]
  rw [writeLE_of_disjoint (by omega), writeLE_of_disjoint (by omega)]

/-- A new size in the header. -/
theorem Headed.setBlockSize (hH : Headed m a n t) (hk : 80 ≤ k) (hk' : k < 2 ^ 64)
    (h16 : k % 16 = 0) : Headed (setBlockSize m a k) a k t := by
  refine ⟨hH.addr_aligned, h16, hk, hk', ?_, readLE_writeLE_same (by omega), ?_⟩
  · exact (readLE_writeLE_disjoint (by omega)).trans hH.magic
  · exact (readLE_writeLE_disjoint (by omega)).trans hH.mmap_eq

theorem headed_remainder (ha : a % 16 = 0) (hn : 80 ≤ n) (hn' : n < 2 ^ 64) (h16 : n % 16 = 0) :
    Headed (putRemainderHeader m a n) a n 0 := by
  have hF := (formed_remainder (m := m) ha hn hn' h16).headed
  refine hF.congr fun x hx => ?_
  rw [mem_range] at hx
  simp only [putFooter]
  rw [writeLE_of_disjoint (by omega), writeLE_of_disjoint (by omega)]

/-- The header that the heap extension stamps on a new block. -/
theorem headed_new (ha : a % 16 = 0) (hn : 80 ≤ n) (hn' : n < 2 ^ 64) (h16 : n % 16 = 0) :
    Headed (setPrev (setNext (setIsMmap (MemoryMonitor.setBlockSize
      (setMagicHeader m a allocMagicHeader) a n) a 0) a 0) a 0) a n 0 := by
  refine ⟨ha, h16, hn, hn', ?_, ?_, ?_⟩ <;>
    simp only [magicHeader, blockSize, isMmap, setPrev, setNext, setIsMmap,
      MemoryMonitor.setBlockSize, setMagicHeader]
  · simp (disch := omega) only [readLE_writeLE_disjoint]
    exact readLE_writeLE_same (by decide)
  · simp (disch := omega) only [readLE_writeLE_disjoint]
    exact readLE_writeLE_same (by omega)
  · simp (disch := omega) only [readLE_writeLE_disjoint]
    exact readLE_writeLE_same (by decide)

/-- The header and the footer of a mapping. -/
theorem formed_mapped (size : Nat) (ha : a % 16 = 0) (hn : 80 ≤ n) (hn' : n < 2 ^ 64)
    (h16 : n % 16 = 0) (hs : size < 2 ^ 64)
    (hm : m' = putFooter (setPrev (setNext (setIsMmap (MemoryMonitor.setBlockSize (setRequestedSize
      (setIsFree (setMagicHeader m a allocMagicHeader) a 0) a size) a n) a 1) a 0) a 0)
      (a + n - 16) n) :
    Formed m' a n 0 1 ∧ requestedSize m' a = size ∧ Set.EqOn m' m (range a n)ᶜ := by
  subst hm
  refine ⟨⟨ha, h16, hn, hn', ?_, ?_, ?_, ?_, ?_, ?_⟩, ?_, fun x hx => ?_⟩ <;>
    simp only [magicHeader, isFree, requestedSize, blockSize, isMmap, magicFooter,
      footerBlockSize, putFooter, setPrev, setNext, setIsMmap, MemoryMonitor.setBlockSize,
      setRequestedSize, setIsFree, setMagicHeader]
  · simp (disch := omega) only [readLE_writeLE_disjoint]
    exact readLE_writeLE_same (by decide)
  · simp (disch := omega) only [readLE_writeLE_disjoint]
    exact readLE_writeLE_same (by decide)
  · simp (disch := omega) only [readLE_writeLE_disjoint]
    exact readLE_writeLE_same (by omega)
  · simp (disch := omega) only [readLE_writeLE_disjoint]
    exact readLE_writeLE_same (by decide)
  · simp (disch := omega) only [readLE_writeLE_disjoint]
    exact readLE_writeLE_same (by decide)
  · exact readLE_writeLE_same (by omega)
  · simp (disch := omega) only [readLE_writeLE_disjoint]
    exact readLE_writeLE_same (by omega)
  · rw [Set.mem_compl_iff, mem_range] at hx
    simp (disch := omega) only [writeLE_of_disjoint]

theorem putRemainderHeader_eqOn (m : Mem) (a n : Nat) :
    Set.EqOn (putRemainderHeader m a n) m (range a 48)ᶜ := by
  intro x hx
  rw [Set.mem_compl_iff, mem_range] at hx
  simp only [putRemainderHeader, setMagicHeader, MemoryMonitor.setBlockSize, setIsFree, setIsMmap,
    setNext, setPrev]
  simp (disch := omega) only [writeLE_of_disjoint]

/-- **Handing a block out** clears `is_free`, records the request and stamps the
footer. -/
theorem handOut_spec {s : State} (size : Nat) (hH : Headed s.mem a n 0) (hs : size < 2 ^ 64) :
    ∃ m', handOut s a size =
        { s with
          mem := m'
          stats := { s.stats with totalAllocated := addSize s.stats.totalAllocated size } } ∧
      Formed m' a n 0 0 ∧ requestedSize m' a = size ∧ Set.EqOn m' s.mem (range a n)ᶜ := by
  have hn := hH.size_ge
  have hH' : Headed (setRequestedSize (setIsFree s.mem a 0) a size) a n 0 := by
    refine { hH with magic := ?_, size_eq := ?_, mmap_eq := ?_ }
    · refine Eq.trans ?_ hH.magic
      simp (disch := omega) only [magicHeader, setRequestedSize, setIsFree, readLE_writeLE_disjoint]
    · refine Eq.trans ?_ hH.size_eq
      simp (disch := omega) only [blockSize, setRequestedSize, setIsFree, readLE_writeLE_disjoint]
    · refine Eq.trans ?_ hH.mmap_eq
      simp (disch := omega) only [isMmap, setRequestedSize, setIsFree, readLE_writeLE_disjoint]
  have hfree : isFree (setRequestedSize (setIsFree s.mem a 0) a size) a = 0 := by
    simp (disch := omega) only [isFree, setRequestedSize, setIsFree, readLE_writeLE_disjoint]
    exact readLE_writeLE_same (by decide)
  have hF := hH'.stamp
  rw [hfree] at hF
  refine ⟨putFooter (setRequestedSize (setIsFree s.mem a 0) a size) (a + n - 16) n, ?_, hF, ?_, ?_⟩
  · unfold handOut
    simp only [hH'.size_eq]
  · simp (disch := omega) only [requestedSize, setRequestedSize, putFooter, readLE_writeLE_disjoint]
    exact readLE_writeLE_same (by omega)
  · refine (stamp_eqOn _ _ hn).trans ?_
    intro x hx
    rw [Set.mem_compl_iff, mem_range] at hx
    simp only [setRequestedSize, setIsFree]
    rw [writeLE_of_disjoint (by omega), writeLE_of_disjoint (by omega)]

end Headers

/-- The room that a split needs is computed without wrap-around. -/
theorem HeapRep.addSize_split {s : State} {lo total : Nat} {segs : List Seg}
    {lists : Fin 8 → List Nat} (H : HeapRep s lo segs lists) {g : Seg} (hg : g ∈ segs)
    (hle : total ≤ g.size) : addSize total 80 = total + 80 := by
  have h1 := H.tiles.bounds hg
  have h2 := H.limit
  unfold addrLimit at h2
  exact addSize_of_lt (by omega)

namespace Edit

variable {s₀ s : State} {lo : Nat} {segs₀ pre post : List Seg} {lists : Fin 8 → List Nat}
variable {a n n₀ f total : Nat}

/-! ## Handing a block out -/

/-- A work span with its header in place is handed out. -/
theorem handOut {size : Nat} (E : Edit s₀ s lo segs₀ (pre ++ ⟨a, n, .work⟩ :: post) lists)
    (hH : Headed s.mem a n 0) (hs : size < 2 ^ 64) :
    ∃ m', handOut s a size =
        { s with
          mem := m'
          stats := { s.stats with totalAllocated := addSize s.stats.totalAllocated size } } ∧
      Edit s₀ { s with mem := m' } lo segs₀ (pre ++ ⟨a, n, .used⟩ :: post) lists ∧
      Formed m' a n 0 0 ∧ requestedSize m' a = size := by
  obtain ⟨m', hout, hF, hreq, hm⟩ := handOut_spec size hH hs
  exact ⟨m', hout, (E.write_span (a := a) (n := n) (by simp) hm).close_used hF, hF, hreq⟩

/-! ## Splitting a found block -/

/-- **The split in `my_malloc`** leaves a block of at least `total` bytes with its
header in place.  What is cut off has no free block behind it. -/
theorem splitFound (E : Edit s₀ s lo segs₀ (pre ++ ⟨a, n, .work⟩ :: post) lists)
    (hF : Formed s.mem a n f 0) (h80 : 80 ≤ total) (hle : total ≤ n) (h16 : total % 16 = 0)
    (hset : ∀ g ∈ pre ++ post, g.kind ≠ .work) :
    ∃ s' n' post' lists', splitFound s a total = .ok s' ∧
      Edit s₀ s' lo segs₀ (pre ++ ⟨a, n', .work⟩ :: post') lists' ∧ Headed s'.mem a n' 0 ∧
      total ≤ n' ∧ (∀ g ∈ pre ++ post', g.kind ≠ .work) ∧
      (post' = post ∧ n' = n ∧ s' = s ∨
        post' = ⟨a + total, n - total, .free⟩ :: post ∧ n' = total ∧ total + 80 ≤ n) := by
  have hlt := E.rep.seg_lt (g := ⟨a, n, .work⟩) (by simp)
  have h1 := hF.size_aligned
  have h2 := hF.addr_aligned
  have hsum := E.rep.addSize_split (g := ⟨a, n, .work⟩) (by simp) hle
  simp only at hlt
  unfold MemoryMonitor.splitFound
  rw [hF.size_eq, hsum]
  by_cases hroom : total + 80 ≤ n
  · rw [if_pos hroom]
    simp only
    have E₁ := E.cut (k := total) (by omega) (by omega)
    -- both stretches are rewritten: the header of the block, and the remainder
    have E₂ := E₁.write_span (a := a) (n := total) (w := setBlockSize s.mem a total) (by simp)
      (by
        intro x hx
        rw [Set.mem_compl_iff, mem_range] at hx
        exact writeLE_of_disjoint (by omega))
    have E₃ := E₂.write_span (a := a + total) (n := n - total) (by simp)
      (remainder_eqOn (setBlockSize s.mem a total) (a + total) (by omega))
    have hR := formed_remainder (m := setBlockSize s.mem a total) (a := a + total) (n := n - total)
      (by omega) (by omega) (by omega) (by omega)
    have hH := hF.headed.setBlockSize (k := total) h80 (by omega) h16
    have hH₃ : Headed (putFooter (putRemainderHeader (setBlockSize s.mem a total)
        (a + total) (n - total)) (a + total + (n - total) - 16) (n - total)) a total 0 := hH.congr (by
      intro x hx
      rw [mem_range] at hx
      refine remainder_eqOn _ _ (by omega) ?_
      rw [Set.mem_compl_iff, mem_range]
      omega)
    rw [show pre ++ (⟨a, total, .work⟩ : Seg) :: ⟨a + total, n - total, .work⟩ :: post =
      (pre ++ [⟨a, total, .work⟩]) ++ ⟨a + total, n - total, .work⟩ :: post by simp] at E₃
    obtain ⟨s', lists', hi, E₄, hw⟩ := E₃.insert hR
    have hH₄ : Headed s'.mem a total 0 := hH₃.congr ((hw ⟨a, total, .work⟩ (by simp) rfl).mono
      (range_subset (by simp) (by simp only; omega)))
    refine ⟨s', total, ⟨a + total, n - total, .free⟩ :: post, lists', hi, ?_, hH₄, le_refl _, ?_,
      Or.inr ⟨rfl, rfl, hroom⟩⟩
    · rwa [List.append_assoc] at E₄
    · exact forall_mid.mpr ⟨by simp, hset⟩
  · rw [if_neg hroom]
    exact ⟨s, n, post, lists, rfl, E, hF.headed, hle, hset, Or.inl ⟨rfl, rfl, rfl⟩⟩

/-! ## Shrinking and growing in place -/

/-- Cutting a block down to `total` bytes does not touch its payload. -/
theorem carve_eqOn (m : Mem) (a k : Nat) (h80 : 80 ≤ total) :
    Set.EqOn (putRemainderHeader (putFooter (setBlockSize m a total) (a + total - 16) total)
      (a + total) k) m (range (a + 48) (total - 64)) := by
  intro x hx
  rw [mem_range] at hx
  refine (putRemainderHeader_eqOn _ _ _ ?_).trans ?_
  · rw [Set.mem_compl_iff, mem_range]
    omega
  · simp only [putFooter, setBlockSize]
    simp (disch := omega) only [writeLE_of_disjoint]

/-- The stores that cut a block down to `total` bytes and put a header on the rest. -/
theorem carve (E : Edit s₀ s lo segs₀ (pre ++ ⟨a, n, .work⟩ :: post) lists)
    (hF : Formed s.mem a n₀ f 0) (h80 : 80 ≤ total) (hle : total + 80 ≤ n) (h16 : total % 16 = 0)
    (hn : n % 16 = 0) {m' : Mem}
    (hm : m' = putRemainderHeader (putFooter (setBlockSize s.mem a total) (a + total - 16) total)
      (a + total) (n - total)) :
    Edit s₀ { s with mem := m' } lo segs₀
      ((pre ++ [⟨a, total, .work⟩]) ++ ⟨a + total, n - total, .work⟩ :: post) lists ∧
    Formed m' a total f 0 ∧ Headed m' (a + total) (n - total) 0 := by
  subst hm
  have hlt := E.rep.seg_lt (g := ⟨a, n, .work⟩) (by simp)
  have h2 := hF.addr_aligned
  simp only at hlt
  have E₁ := E.cut (k := total) (by omega) (by omega)
  have E₂ := E₁.write_span (a := a) (n := total) (by simp)
    (resize_eqOn s.mem a (k := total) (by omega))
  have hrem := putRemainderHeader_eqOn (putFooter (setBlockSize s.mem a total) (a + total - 16)
    total) (a + total) (n - total)
  have E₃ := E₂.write_span (a := a + total) (n := n - total) (by simp)
    (hrem.mono (Set.compl_subset_compl.mpr (range_subset (le_refl _) (by omega))))
  refine ⟨by simpa using E₃, ?_, headed_remainder (by omega) (by omega) (by omega) (by omega)⟩
  refine (hF.resize h80 (by omega) h16).congr (hrem.mono ?_)
  intro x hx
  have := mem_range.mp (core_subset h80 hx)
  rw [Set.mem_compl_iff, mem_range]
  omega

/-- A work span with its header in place is given a footer and linked in. -/
theorem finish (E : Edit s₀ s lo segs₀ (pre ++ ⟨a, n, .work⟩ :: post) lists)
    (hH : Headed s.mem a n 0) :
    ∃ s' lists', freeListInsert { s with mem := putFooter s.mem (a + n - 16) n } a = .ok s' ∧
      Edit s₀ s' lo segs₀ (pre ++ ⟨a, n, .free⟩ :: post) lists' ∧
      ∀ g ∈ pre ++ ⟨a, n, .free⟩ :: post, g.kind = .work → Set.EqOn s'.mem s.mem g.bytes := by
  have hstamp := stamp_eqOn s.mem a hH.size_ge
  have E₁ := E.write_span (a := a) (n := n) (by simp) hstamp
  obtain ⟨s', lists', hi, E', hw⟩ := E₁.insert hH.stamp
  refine ⟨s', lists', hi, E', fun g hg hk => (hw g hg hk).trans ?_⟩
  refine hstamp.mono fun x hx => ?_
  -- the footer lies in the block, the other work spans do not
  rcases E.rep.tiles.mem_set.mp hg with rfl | ⟨hgm, hne⟩
  · cases hk
  · have hap := E.rep.tiles.apart hgm (h := ⟨a, n, .work⟩) (by simp)
      (fun he => hne (congrArg Span.addr he))
    rw [Span.mem_bytes] at hx
    simp only at hap
    rw [Set.mem_compl_iff, mem_range]
    omega

/-- The remainder of a shrunk block takes in a free block behind it. -/
theorem absorbNext {r k : Nat}
    (E : Edit s₀ s lo segs₀ ((pre ++ [⟨a, total, .work⟩]) ++ ⟨r, k, .work⟩ :: post) lists)
    (B : Blank s₀ segs₀) (hF : Formed s.mem a total f 0) (hH : Headed s.mem r k 0)
    (hset : ∀ g ∈ pre ++ post, g.kind ≠ .work) :
    ∃ s' k' post' lists', absorbNext s r k = .ok (k', s') ∧
      Edit s₀ s' lo segs₀ ((pre ++ [⟨a, total, .work⟩]) ++ ⟨r, k', .work⟩ :: post') lists' ∧
      Formed s'.mem a total f 0 ∧ Headed s'.mem r k' 0 ∧ (∀ g ∈ pre ++ post', g.kind ≠ .work) ∧
      Set.EqOn s'.mem s.mem (range a total) ∧
      (Spaced (· = .free) post → Spaced (· = .free) (⟨r, k', .free⟩ :: post')) ∧
      ∀ g ∈ post', g.kind = .used → g ∈ post := by
  have hal : HeapRep.Aligned ((pre ++ [⟨a, total, .work⟩]) ++ ⟨r, k, .work⟩ :: post) := by
    refine E.rep.aligned fun g hg hk => ?_
    simp only [List.mem_append, List.mem_cons, List.not_mem_nil, or_false] at hg hset
    rcases hg with (hg | rfl) | rfl | hg
    · exact absurd hk (hset g (Or.inl hg))
    · exact ⟨hF.addr_aligned, hF.size_aligned⟩
    · exact ⟨hH.addr_aligned, hH.size_aligned⟩
    · exact absurd hk (hset g (Or.inr hg))
  have hra : r = a + total := by
    have ht := E.rep.tiles
    rw [List.append_assoc] at ht
    exact ht.next_addr
  unfold MemoryMonitor.absorbNext
  simp only
  rcases E.rep.adjacent_cases hal (E.blank B) (by simp)
      (fun g hg => hset g (List.mem_append_right _ hg)) with ⟨k₁, post', rfl, hadj⟩ | ⟨hhead, hadj⟩
  · simp only at hadj
    rw [hadj, ok_bind, if_pos rfl]
    rw [show (pre ++ [(⟨a, total, .work⟩ : Seg)]) ++ ⟨r, k, .work⟩ :: ⟨r + k, k₁, .free⟩ :: post' =
      ((pre ++ [⟨a, total, .work⟩]) ++ [⟨r, k, .work⟩]) ++ ⟨r + k, k₁, .free⟩ :: post' by simp] at E
    obtain ⟨s₁, lists₁, hr, E₁, hN, hw⟩ := E.remove
    have hkeep := hw ⟨a, total, .work⟩ (by simp) rfl
    have hF₁ : Formed s₁.mem a total f 0 := hF.congr (hkeep.mono (core_subset hF.size_ge))
    have hk80 := hH.size_ge
    have hH₁ : Headed s₁.mem r k 0 :=
      hH.congr ((hw ⟨r, k, .work⟩ (by simp) rfl).mono (range_subset (by simp) (by simp only; omega)))
    rw [List.append_assoc] at E₁
    have E₂ := E₁.join
    have hlt := E₂.rep.seg_lt (g := ⟨r, k + k₁, .work⟩) (by simp)
    have hk16 := hH.size_aligned
    have hk₁16 := hN.size_aligned
    simp only at hlt
    have hsum : addSize k k₁ = k + k₁ := addSize_of_lt (by omega)
    have hm : Set.EqOn (setBlockSize s₁.mem r (k + k₁)) s₁.mem (range r 48)ᶜ := by
      intro x hx
      rw [Set.mem_compl_iff, mem_range] at hx
      exact writeLE_of_disjoint (by omega)
    have E₃ := E₂.write_span (a := r) (n := k + k₁) (by simp)
      (hm.mono (Set.compl_subset_compl.mpr (range_subset (le_refl _) (by omega))))
    have hm' : Set.EqOn (setBlockSize s₁.mem r (k + k₁)) s₁.mem (range a total) := hm.mono (by
      intro x hx
      rw [mem_range] at hx
      rw [Set.mem_compl_iff, mem_range]
      omega)
    refine ⟨_, k + k₁, post', lists₁, ?_, E₃, hF₁.congr (hm'.mono (core_subset hF.size_ge)), ?_, ?_,
      hm'.trans hkeep, ?_, fun g hg _ => List.mem_cons_of_mem _ hg⟩
    · rw [hr, ok_bind, hN.size_eq, hsum]
    · exact hH₁.setBlockSize (by omega) (by omega) (by omega)
    · exact (forall_mid.mp hset).2
    · -- the remainder stands where the block it took in stood
      intro hsp
      obtain ⟨h1, h2⟩ := List.isChain_cons.mp hsp
      exact List.isChain_cons.mpr ⟨fun y hy hyf => h1 y hy ⟨rfl, hyf.2⟩, h2⟩
  · simp only at hadj
    rw [hadj, ok_bind]
    exact ⟨s, k, post, lists, rfl, E, hF, hH, hset, fun _ _ => rfl,
      fun hsp => List.isChain_cons.mpr ⟨fun y hy hyf => hhead y hy hyf.2, hsp⟩, fun _ hg _ => hg⟩

/-- **Path 1 of `my_realloc`**: the block keeps at least `total` bytes, and its payload. -/
theorem shrinkBlock (E : Edit s₀ s lo segs₀ (pre ++ ⟨a, n, .work⟩ :: post) lists)
    (B : Blank s₀ segs₀) (hF : Formed s.mem a n f 0) (h80 : 80 ≤ total) (hle : total ≤ n)
    (h16 : total % 16 = 0) (hset : ∀ g ∈ pre ++ post, g.kind ≠ .work) :
    ∃ s' n' post' lists', shrinkBlock s a total = .ok s' ∧
      Edit s₀ s' lo segs₀ (pre ++ ⟨a, n', .work⟩ :: post') lists' ∧ Formed s'.mem a n' f 0 ∧
      total ≤ n' ∧ (∀ g ∈ pre ++ post', g.kind ≠ .work) ∧
      Set.EqOn s'.mem s.mem (range (a + 48) (total - 64)) ∧
      (Spaced (· = .free) post → Spaced (· = .free) post') ∧
      ∀ g ∈ post', g.kind = .used → g ∈ post := by
  have hsum := E.rep.addSize_split (g := ⟨a, n, .work⟩) (by simp) hle
  unfold MemoryMonitor.shrinkBlock
  rw [hF.size_eq, hsum]
  by_cases hroom : total + 80 ≤ n
  · rw [if_pos hroom]
    simp only
    obtain ⟨E₁, hF₁, hH₁⟩ := E.carve hF h80 hroom h16 hF.size_aligned rfl
    obtain ⟨s₂, k', post', lists₂, hr, E₂, hF₂, hH₂, hset₂, hkeep, hsp, hused⟩ :=
      E₁.absorbNext B hF₁ hH₁ hset
    obtain ⟨s₃, lists₃, hi, E₃, hw⟩ := E₂.finish hH₂
    have hkeep₃ : Set.EqOn s₃.mem s₂.mem (range a total) := hw ⟨a, total, .work⟩ (by simp) rfl
    refine ⟨s₃, total, ⟨a + total, k', .free⟩ :: post', lists₃, ?_, by simpa using E₃,
      hF₂.congr (hkeep₃.mono (core_subset h80)), le_refl _, ?_, ?_, hsp, ?_⟩
    · rw [hr, ok_bind]
      exact hi
    · exact forall_mid.mpr ⟨by simp, hset₂⟩
    · have hpay : range (a + 48) (total - 64) ⊆ range a total := range_subset (by omega) (by omega)
      exact ((hkeep₃.trans hkeep).mono hpay).trans (carve_eqOn _ _ _ h80)
    · intro g hg hk
      rcases List.mem_cons.mp hg with rfl | hg
      · cases hk
      · exact hused g hg hk
  · rw [if_neg hroom]
    exact ⟨s, n, post, lists, rfl, E, hF, hle, hset, fun _ _ => rfl, id, fun _ hg _ => hg⟩

/-- **Path 2 of `my_realloc`**: the block grows into the unlinked block behind it, and
keeps its payload. -/
theorem growIntoNext {k f' : Nat}
    (E : Edit s₀ s lo segs₀ (pre ++ ⟨a, n, .work⟩ :: ⟨a + n, k, .work⟩ :: post) lists)
    (hF : Formed s.mem a n f 0) (hk : Formed s.mem (a + n) k f' 0) (hn : n ≤ total)
    (hle : total ≤ n + k) (h16 : total % 16 = 0) (hset : ∀ g ∈ pre ++ post, g.kind ≠ .work) :
    ∃ s' n' post' lists', growIntoNext s a (a + n) total = .ok s' ∧
      Edit s₀ s' lo segs₀ (pre ++ ⟨a, n', .work⟩ :: post') lists' ∧ Formed s'.mem a n' f 0 ∧
      total ≤ n' ∧ (∀ g ∈ pre ++ post', g.kind ≠ .work) ∧
      Set.EqOn s'.mem s.mem (range (a + 48) (n - 64)) ∧
      (Spaced (· = .free) (⟨a + n, k, .free⟩ :: post) → Spaced (· = .free) post') ∧
      ∀ g ∈ post', g.kind = .used → g ∈ post := by
  have E₁ := E.join
  have hlt := E₁.rep.seg_lt (g := ⟨a, n + k, .work⟩) (by simp)
  have hsum := E₁.rep.addSize_split (g := ⟨a, n + k, .work⟩) (by simp) hle
  have hn80 := hF.size_ge
  have h80 : 80 ≤ total := by omega
  have hn16 := hF.size_aligned
  have hk16 := hk.size_aligned
  have hk80 := hk.size_ge
  simp only at hlt
  have hcomb : addSize (blockSize s.mem a) (blockSize s.mem (a + n)) = n + k := by
    rw [hF.size_eq, hk.size_eq]
    exact addSize_of_lt (by omega)
  unfold MemoryMonitor.growIntoNext
  simp only [hcomb, hsum]
  by_cases hroom : total + 80 ≤ n + k
  · rw [if_pos hroom]
    obtain ⟨E₂, hF₂, hH₂⟩ := E₁.carve hF h80 hroom h16 (by omega) rfl
    obtain ⟨s₃, lists₃, hi, E₃, hw⟩ := E₂.finish hH₂
    have hkeep : Set.EqOn s₃.mem _ (range a total) := hw ⟨a, total, .work⟩ (by simp) rfl
    refine ⟨s₃, total, ⟨a + total, n + k - total, .free⟩ :: post, lists₃, hi, by simpa using E₃,
      hF₂.congr (hkeep.mono (core_subset h80)), le_refl _, ?_, ?_, ?_, ?_⟩
    · exact forall_mid.mpr ⟨by simp, hset⟩
    · have hpay : range (a + 48) (n - 64) ⊆ range (a + 48) (total - 64) :=
        range_subset (by omega) (by omega)
      have hin : range (a + 48) (n - 64) ⊆ range a total := range_subset (by omega) (by omega)
      exact (hkeep.mono hin).trans ((carve_eqOn _ _ _ h80).mono hpay)
    · intro hsp
      obtain ⟨h1, h2⟩ := List.isChain_cons.mp hsp
      exact List.isChain_cons.mpr ⟨fun y hy hyf => h1 y hy ⟨rfl, hyf.2⟩, h2⟩
    · intro g hg hgu
      rcases List.mem_cons.mp hg with rfl | hg
      · cases hgu
      · exact hg
  · rw [if_neg hroom]
    refine ⟨_, n + k, post, lists, rfl,
      E₁.write_span (a := a) (n := n + k) (by simp) (resize_eqOn _ _ (by omega)),
      hF.resize (by omega) (by omega) (by omega), hle, hset, ?_,
      fun hsp => (List.isChain_cons.mp hsp).2, fun _ hg _ => hg⟩
    intro x hx
    rw [mem_range] at hx
    simp only [putFooter, setBlockSize]
    simp (disch := omega) only [writeLE_of_disjoint]

end Edit

end MemoryMonitor
