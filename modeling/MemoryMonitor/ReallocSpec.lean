import MemoryMonitor.MallocSpec

/-! # `my_realloc`

The first critical section of `my_realloc` resizes the allocation where it is (in
its block, into the free block behind it, or by `mremap`), or decides to relocate
it and changes nothing.
-/
namespace MemoryMonitor

open ByteMemory Tiling LinkedChain Coalescing

variable {shared : Prop} {s s' : State} {rest : List Alloc} {e : Alloc} {lo : Nat}
variable {segs : List Seg} {lists : Fin 8 → List Nat}

/-- The in-place accounting keeps the counters in balance. -/
theorem balance_resize {st : Stats} (size p : Nat)
    (h : st.totalAllocated ≡ st.totalFreed + liveBytes (e :: rest) [MOD 2 ^ 64]) :
    (accountInPlace st e.size size).totalAllocated ≡
      (accountInPlace st e.size size).totalFreed + liveBytes (⟨p, size⟩ :: rest) [MOD 2 ^ 64] := by
  have h1 : liveBytes (e :: rest) = e.size + liveBytes rest := by simp [liveBytes]
  have h2 : liveBytes (⟨p, size⟩ :: rest) = size + liveBytes rest := by simp [liveBytes]
  rw [h1] at h
  rw [h2]
  unfold accountInPlace
  split
  · have h3 := addSize_modEq st.totalFreed (e.size - size)
    refine h.trans ?_
    have h4 : st.totalFreed + (e.size + liveBytes rest) =
        st.totalFreed + (e.size - size) + (size + liveBytes rest) := by omega
    rw [h4]
    exact (h3.add_right _).symm
  · split
    · have h3 := addSize_modEq st.totalAllocated (size - e.size)
      refine h3.trans ?_
      have h4 : st.totalFreed + (size + liveBytes rest) =
          st.totalFreed + (e.size + liveBytes rest) + (size - e.size) := by omega
      rw [h4]
      exact h.add_right _
    · have : size = e.size := by omega
      rw [this]
      exact h

/-- What the first critical section of `my_realloc` ends with. -/
structure ReallocResult (shared : Prop) (s : State) (e : Alloc) (rest : List Alloc) (size : Nat)
    (out : ReallocOutcome) (s' : State) : Prop where
  untouched : Untouched s rest s'
  /-- Mappings of others are kept. -/
  maps : ∀ mp ∈ s.maps, e.ptr ≠ mp.addr + 48 → mp ∈ s'.maps
  mapped : MapsKept s e.ptr s'
  done : ∀ p, out = .done p → p ≠ 0 ∧ Inv shared s' (⟨p, size⟩ :: rest) ∧
    ∀ mp ∈ s.maps, e.ptr ≠ mp.addr + 48 → p ≠ mp.addr + 48
  relocate : ∀ old, out = .relocate old → old = e.size ∧ s' = s

/-- What it ends with in terms of the blocks and of the contents: a resized block keeps
the bytes that both requests ask for. -/
structure ReallocBlocks (shared : Prop) (s : State) (e : Alloc) (rest : List Alloc)
    (segs : List Seg) (size : Nat) (out : ReallocOutcome) (s' : State) : Prop
    extends ReallocResult shared s e rest size out s' where
  blocks : ∀ p, out = .done p → ∃ lo' segs' lists', Heap shared s' (⟨p, size⟩ :: rest) lo' segs'
    lists' ∧ Respaced segs segs' p ∧
    ∀ g ∈ segs', g.kind = .used → g.addr + 48 = e.ptr → p = e.ptr
  contents : ∀ p, out = .done p → ∀ i < min e.size size, s'.mem (p + i) = s.mem (e.ptr + i)

namespace Heap

/-- Deciding to relocate changes nothing. -/
theorem relocate_result {size : Nat} :
    ReallocBlocks shared s e rest segs size (.relocate e.size) s := by
  refine ⟨⟨⟨fun _ _ _ _ => rfl, fun _ _ => rfl⟩, fun _ h _ => h, fun _ _ _ _ _ => rfl, ?_, ?_⟩,
    ?_, ?_⟩
  · intro p h
    cases h
  · intro old h
    cases h
    exact ⟨rfl, rfl⟩
  · intro p h
    cases h
  · intro p h
    cases h

section InPlace
variable {a n n' : Nat} {pre post post' : List Seg} {lists' : Fin 8 → List Nat}

/-- The end of both in-place paths: the block is closed again with the new request
in its header. -/
theorem resized (I : Heap shared s (e :: rest) lo (pre ++ ⟨a, n, .used⟩ :: post) lists)
    (hH : Held s (pre ++ ⟨a, n, .used⟩ :: post) e a n 0) {size : Nat} (hsize : size + 64 ≤ n')
    (E : Edit s s' lo (pre ++ ⟨a, n, .work⟩ :: post) (pre ++ ⟨a, n', .work⟩ :: post') lists')
    (hF : Formed s'.mem a n' 0 0) (hset : ∀ g ∈ pre ++ post', g.kind ≠ .work)
    (hpay : Set.EqOn s'.mem s.mem (range (a + 48) (min e.size size)))
    (hsp : Respaced (pre ++ ⟨a, n, .used⟩ :: post) (pre ++ ⟨a, n', .used⟩ :: post') (a + 48)) :
    ReallocBlocks shared s e rest (pre ++ ⟨a, n, .used⟩ :: post) size (.done (a + 48))
      (resizeDone s' a e.size size) := by
  have L := I.toLayout.open_used
  have hn := hF.size_ge
  have hn' := hF.size_lt
  have hF' := hF.set_requestedSize size
  have hm : Set.EqOn (setRequestedSize s'.mem a size) s'.mem (range a n')ᶜ := by
    intro x hx
    rw [Set.mem_compl_iff, mem_range] at hx
    exact writeLE_of_disjoint (by omega)
  have E' := (E.write_span (a := a) (n := n') (by simp) hm).close_used hF'
  have K := L.keeps E'
  have hst : s'.stats = s.stats := by rw [E.same]
  have hrest : ∀ e' ∈ rest, ∃ a' k t, Held s (pre ++ ⟨a, n, .work⟩ :: post) e' a' k t := by
    intro e' he'
    obtain ⟨a', k, t, h'⟩ := I.held e' (List.mem_cons_of_mem _ he')
    exact ⟨a', k, t, h'.open_used (I.block_ne hH he' h')⟩
  have hfin : Heap shared (resizeDone s' a e.size size) (⟨a + 48, size⟩ :: rest) lo
      (pre ++ ⟨a, n', .used⟩ :: post') lists' := by
    refine ⟨(L.of_edit E').of_fields rfl rfl rfl rfl rfl rfl rfl rfl rfl, ?_, ?_, ?_, ?_⟩
    · exact forall_mid.mpr ⟨by simp, hset⟩
    · intro e' he'
      rcases List.mem_cons.mp he' with rfl | he'
      · exact ⟨a, n', 0, rfl, hsize, hF', readLE_writeLE_same (by omega),
          Or.inl ⟨rfl, by simp⟩⟩
      · obtain ⟨a', k, t, h'⟩ := hrest e' he'
        exact ⟨a', k, t, h'.keeps (K.congr_right rfl rfl rfl)⟩
    · have := I.nodup
      rw [List.map_cons] at this ⊢
      rwa [hH.ptr_eq] at this
    · have hb := balance_resize size (a + 48) I.balance
      rw [← hst] at hb
      exact hb
  refine ⟨⟨⟨fun e' he' => ?_, fun x hx => (K.host x hx).2⟩, fun mp h _ => (K.maps mp h).1,
    K.mapsKept _, ?_, ?_⟩, ?_, ?_⟩
  · obtain ⟨a', k, t, h'⟩ := hrest e' he'
    exact h'.payload_eqOn (K.congr_right rfl rfl rfl)
  · intro p hp
    cases hp
    refine ⟨by omega, ⟨lo, _, _, hfin⟩, fun mp _ hne => ?_⟩
    rw [← hH.ptr_eq]
    exact hne
  · intro old h
    cases h
  · intro p hp
    cases hp
    exact ⟨lo, _, _, hfin, hsp, fun _ _ _ _ => hH.ptr_eq.symm⟩
  · intro p hp i hi
    cases hp
    rw [hH.ptr_eq]
    refine Eq.trans ?_ (hpay (mem_range.mpr ⟨by omega, by omega⟩))
    exact writeLE_of_disjoint (by omega)

/-- **The heap branch of `my_realloc`.** -/
theorem reallocHeap (I : Heap shared s (e :: rest) lo (pre ++ ⟨a, n, .used⟩ :: post) lists)
    (hH : Held s (pre ++ ⟨a, n, .used⟩ :: post) e a n 0) {size : Nat} (h0 : size ≠ 0)
    (hmax : size ≤ maxAllowed) :
    ∃ out s', reallocHeap s a size = .ok (out, s') ∧
      ReallocBlocks shared s e rest (pre ++ ⟨a, n, .used⟩ :: post) size out s' := by
  obtain ⟨h80, h16, hroom, -⟩ := totalSize_bounds h0 hmax
  have hF := hH.formed
  have hset := (forall_mid.mp I.settled).2
  have L := I.toLayout.open_used
  have E := Edit.refl L.rep
  unfold MemoryMonitor.reallocHeap
  simp only [hF.size_eq, hH.requested]
  generalize totalSize size = total at *
  by_cases hfit : total ≤ n
  · rw [if_pos hfit]
    obtain ⟨s₁, n₁, post₁, lists₁, hr, E₁, hF₁, hle, hset₁, hkeep, hsp, hused⟩ :=
      E.shrinkBlock L.blank hF h80 hfit h16 hset
    rw [hr, ok_bind]
    exact ⟨_, _, rfl, I.resized hH (by omega) E₁ hF₁ hset₁
      (hkeep.mono (range_subset (le_refl _) (by omega))) (.replace (fun h => hsp h.tail) hused)⟩
  rw [if_neg hfit]
  by_cases hbig : total < mmapThreshold
  · rw [if_pos hbig]
    rcases E.rep.adjacent_cases (E.aligned_one hF hset) L.blank (by simp)
        (fun g hg => hset g (List.mem_append_right _ hg)) with ⟨k, post', rfl, hadj⟩ | ⟨-, hadj⟩
    · simp only at hadj
      have hN := L.rep.free ⟨a + n, k, .free⟩ (by simp) rfl
      rw [hadj, ok_bind]
      by_cases hsum : total ≤ addSize n (blockSize s.mem (a + n))
      · rw [if_pos ⟨rfl, hsum⟩]
        have E₁ : Edit s s lo (pre ++ ⟨a, n, .work⟩ :: ⟨a + n, k, .free⟩ :: post')
            ((pre ++ [⟨a, n, .work⟩]) ++ ⟨a + n, k, .free⟩ :: post') lists := by
          rw [List.append_assoc]
          exact E
        obtain ⟨s₁, lists₁, hr, E₂, hk, hw⟩ := E₁.remove
        have hkeep₁ := hw ⟨a, n, .work⟩ (by simp) rfl
        have hF₁ : Formed s₁.mem a n 0 0 := hF.congr (hkeep₁.mono (core_subset hF.size_ge))
        rw [List.append_assoc] at E₂
        have hle : total ≤ n + k := by
          have hsz : blockSize s.mem (a + n) = k := hN.size_eq
          rw [hsz] at hsum
          exact hsum.trans (Nat.mod_le _ _)
        obtain ⟨s₂, n₂, post₂, lists₂, hg, E₃, hF₂, hle₂, hset₂, hkeep, hsp, hused⟩ :=
          E₂.growIntoNext hF₁ hk (by omega) hle h16 (forall_mid.mp hset).2
        rw [hr, ok_bind, hg, ok_bind]
        have hroom' := hH.room
        refine ⟨_, _, rfl, I.resized hH (by omega) E₃ hF₂ hset₂ ?_ (.replace (fun h => hsp h.tail)
          fun g hgm hgk => List.mem_cons_of_mem _ (hused g hgm hgk))⟩
        exact (hkeep.mono (range_subset (le_refl _) (by omega))).trans
          (hkeep₁.mono (range_subset (by simp) (by simp only; omega)))
      · rw [if_neg (fun h => hsum h.2)]
        exact ⟨_, _, rfl, relocate_result⟩
    · simp only at hadj
      rw [hadj, ok_bind]
      simp only [Bool.false_eq_true, false_and, if_false]
      exact ⟨_, _, rfl, relocate_result⟩
  · rw [if_neg hbig]
    exact ⟨_, _, rfl, relocate_result⟩

end InPlace

/-- What `mremap` returns, and what it leaves where. -/
theorem mremap_some {o : Oracle} {old oldLen len a : Nat}
    (h : s.mremap o old oldLen len = some (a, s')) :
    s.Placeable (s.maps.filter fun mp => mp.addr ≠ old) a len ∧
      (∀ i, i < min oldLen len → s'.mem (a + i) = s.mem (old + i)) ∧
      Set.EqOn s'.mem s.mem (range a len)ᶜ ∧
      s' = { s with
        mem := s'.mem
        maps := ⟨a, len⟩ :: s.maps.filter fun mp => mp.addr ≠ old } := by
  unfold State.mremap at h
  split at h
  · cases h
  · split at h
    · rename_i a' _ hc
      obtain ⟨rfl, rfl⟩ := Prod.mk.inj (Option.some.inj h)
      refine ⟨hc.2.1, ?_, overwrite_eqOn _ _ _ _, rfl⟩
      intro i hi
      simp only
      rw [overwrite_of_mem ⟨by omega, by omega⟩, Nat.add_sub_cancel_left, if_pos hi]
    · cases h

/-- The header of a mapped block travels with the mapping; with the new sizes stamped
it is a block again. -/
theorem formed_moved {m m₁ m₂ : Mem} {a b n total size : Nat} (hF : Formed m a n 0 1)
    (h80 : 80 ≤ total) (hlt : total < 2 ^ 64) (h16 : total % 16 = 0) (hb : b % 16 = 0)
    (hsize : size < 2 ^ 64) (hmove : ∀ i, i < min n total → m₁ (b + i) = m (a + i))
    (hm₂ : m₂ = putFooter (setBlockSize (setRequestedSize m₁ b size) b total) (b + total - 16)
      total) :
    Formed m₂ b total 0 1 ∧ requestedSize m₂ b = size ∧
      Set.EqOn m₂ m₁ (range b total)ᶜ := by
  have hge := hF.size_ge
  have hread : ∀ {i k}, i + k ≤ 48 → readLE m₁ (b + i) k = readLE m (a + i) k := by
    intro i k hik
    refine readLE_shift fun j hj => ?_
    rw [Nat.add_assoc, Nat.add_assoc]
    exact hmove (i + j) (by omega)
  have h1 := hF.magic
  have h2 := hF.free_eq
  have h3 := hF.mmap_eq
  rw [hm₂]
  refine ⟨⟨hb, h16, h80, hlt, ?_, ?_, ?_, ?_, ?_, ?_⟩, ?_, ?_⟩ <;>
    simp only [magicHeader, isFree, requestedSize, blockSize, isMmap, magicFooter,
      footerBlockSize, putFooter, setBlockSize, setRequestedSize] at *
  · simp (disch := omega) only [readLE_writeLE_disjoint]
    exact (hread (i := 0) (by omega)).trans h1
  · simp (disch := omega) only [readLE_writeLE_disjoint]
    exact (hread (by omega)).trans h2
  · simp (disch := omega) only [readLE_writeLE_disjoint]
    exact readLE_writeLE_same (by omega)
  · simp (disch := omega) only [readLE_writeLE_disjoint]
    exact (hread (by omega)).trans h3
  · simp (disch := omega) only [readLE_writeLE_disjoint]
    exact readLE_writeLE_same (by decide)
  · exact readLE_writeLE_same (by omega)
  · simp (disch := omega) only [readLE_writeLE_disjoint]
    exact readLE_writeLE_same (by omega)
  · intro x hx
    rw [Set.mem_compl_iff, mem_range] at hx
    simp (disch := omega) only [writeLE_of_disjoint]

/-- **A mapping is exchanged for another**: its allocation is freed, the mapping goes, and
an allocation in the new one joins the rest. -/
theorem remap {a n b total size : Nat} {m : Mem} (I : Heap shared s (e :: rest) lo segs lists)
    (hH : Held s segs e a n 1)
    (hp : s.Placeable (s.maps.filter fun mp => mp.addr ≠ a) b total)
    (hm : Set.EqOn m s.mem (range b total)ᶜ) (hroom : size + 64 ≤ total)
    (hF : Formed m b total 0 1) (hreq : requestedSize m b = size) (hbig : mmapThreshold ≤ total) :
    Heap shared { s with
        mem := m
        maps := ⟨b, total⟩ :: s.maps.filter fun mp => mp.addr ≠ a
        stats := { s.stats with
          totalAllocated := addSize s.stats.totalAllocated size
          totalFreed := addSize s.stats.totalFreed e.size } }
        (⟨b + 48, size⟩ :: rest) lo segs lists ∧
      Untouched s rest { s with mem := m } ∧
      ∀ mp ∈ s.maps, e.ptr ≠ mp.addr + 48 →
        (mp ∈ s.maps.filter fun mp => mp.addr ≠ a) ∧ mp.addr ≠ b ∧
          Set.EqOn m s.mem (range mp.addr mp.len) := by
  have I₁ := (I.freeMapped hH).2.unmap a (by
    intro e' he' hpe
    obtain ⟨a', k, t, h'⟩ := I.held e' (List.mem_cons_of_mem _ he')
    have := I.block_ne hH he' h'
    have := h'.ptr_eq
    omega)
  obtain ⟨I₂, K⟩ := I₁.add_mapped { s.stats with
      totalAllocated := addSize s.stats.totalAllocated size
      totalFreed := addSize s.stats.totalFreed e.size } hp hm hroom hF hreq hbig rfl rfl
  have U := I₁.untouched K
  refine ⟨I₂, ⟨U.payload, U.host⟩, fun mp hmp hne => ?_⟩
  have hmem : mp ∈ s.maps.filter fun mp => mp.addr ≠ a := by
    have := hH.ptr_eq
    rw [List.mem_filter]
    exact ⟨hmp, by simp only [ne_eq, decide_eq_true_eq]; omega⟩
  exact ⟨hmem, I₁.placeable_ne hp hmem, (K.maps mp hmem).2⟩

/-- **The mapped branch of `my_realloc`.** -/
theorem reallocMapped {a n : Nat} (I : Heap shared s (e :: rest) lo segs lists)
    (hH : Held s segs e a n 1) {size : Nat} (h0 : size ≠ 0) (hmax : size ≤ maxAllowed)
    (o : Oracle) :
    ReallocBlocks shared s e rest segs size (reallocMapped s o a size).1
      (reallocMapped s o a size).2 := by
  obtain ⟨h80, h16, hroom, hsize⟩ := totalSize_bounds h0 hmax
  have hF := hH.formed
  unfold MemoryMonitor.reallocMapped
  simp only [hH.requested, hF.size_eq]
  generalize totalSize size = total at *
  by_cases hbig : mmapThreshold ≤ total
  · rw [if_pos hbig]
    cases hre : s.mremap o a n total with
    | none => exact relocate_result
    | some r =>
      obtain ⟨b, s₁⟩ := r
      simp only
      obtain ⟨hp, hmove, hout, hs₁⟩ := mremap_some hre
      have hlim := hp.2.2.2.1
      have hb := hp.1
      unfold addrLimit at hlim
      generalize hm₂ : putFooter (setBlockSize (setRequestedSize s₁.mem b size) b total)
        (b + total - 16) total = m₂
      obtain ⟨hF₂, hreq, hm₂'⟩ := formed_moved hF h80 (by omega) h16 (by omega) hsize hmove hm₂.symm
      obtain ⟨hfin, U, hothers⟩ := I.remap hH hp (hm₂'.trans hout) hroom hF₂ hreq hbig
      have hs₁' : { s₁ with
          mem := m₂
          stats := { s₁.stats with
            totalAllocated := addSize s₁.stats.totalAllocated size
            totalFreed := addSize s₁.stats.totalFreed e.size } } =
          { s with
            mem := m₂
            maps := ⟨b, total⟩ :: s.maps.filter fun mp => mp.addr ≠ a
            stats := { s.stats with
              totalAllocated := addSize s.stats.totalAllocated size
              totalFreed := addSize s.stats.totalFreed e.size } } := by
        rw [hs₁]
      rw [hs₁']
      refine ⟨⟨⟨U.payload, U.host⟩, ?_, ?_, ?_, ?_⟩, ?_, ?_⟩
      · intro mp h hne
        exact List.mem_cons_of_mem _ (hothers mp h hne).1
      · intro mp h hne
        exact (hothers mp h hne).2.2
      · intro p hpp
        cases hpp
        refine ⟨by omega, ⟨lo, _, _, hfin⟩, fun mp h hne => ?_⟩
        have := (hothers mp h hne).2.1
        omega
      · intro old h
        cases h
      · intro p hpp
        cases hpp
        refine ⟨lo, segs, lists, hfin, .refl _ _, fun g hg _ hga => ?_⟩
        -- the block was not in the heap
        have hb := I.held_bounds hH
        have hgb := I.rep.tiles.bounds hg
        have hfl := I.rep.floor
        have hptr := hH.ptr_eq
        omega
      · intro p hpp i hi
        cases hpp
        have hroom' := hH.room
        rw [hH.ptr_eq, Nat.add_assoc, Nat.add_assoc, ← hmove (48 + i) (by omega), ← hm₂]
        simp only [putFooter, setBlockSize, setRequestedSize]
        simp (disch := omega) only [writeLE_of_disjoint]
  · rw [if_neg hbig]
    exact relocate_result

/-- **The first critical section of `my_realloc` never faults on a live pointer.** -/
theorem myReallocLocked_blocks (I : Heap shared s (e :: rest) lo segs lists) (o : Oracle) {size : Nat}
    (h0 : size ≠ 0) (hmax : size ≤ maxAllowed) :
    ∃ out s', MemoryMonitor.myReallocLocked s o e.ptr size = .ok (out, s') ∧
      ReallocBlocks shared s e rest segs size out s' := by
  obtain ⟨a, n, t, h⟩ := I.held e (List.mem_cons_self ..)
  unfold MemoryMonitor.myReallocLocked
  rw [h.ptr_eq]
  simp only [Nat.add_sub_cancel]
  rw [I.validateBlock h, ok_bind, h.formed.mmap_eq]
  rcases h.place with ⟨rfl, hg⟩ | ⟨rfl, -, -⟩
  · rw [if_neg (by decide)]
    obtain ⟨pre, post, rfl⟩ := List.append_of_mem hg
    exact I.reallocHeap h h0 hmax
  · rw [if_pos (by decide)]
    exact ⟨_, _, rfl, I.reallocMapped h h0 hmax o⟩

theorem myReallocLocked (I : Heap shared s (e :: rest) lo segs lists) (o : Oracle) {size : Nat}
    (h0 : size ≠ 0) (hmax : size ≤ maxAllowed) :
    ∃ out s', MemoryMonitor.myReallocLocked s o e.ptr size = .ok (out, s') ∧
      ReallocResult shared s e rest size out s' := by
  obtain ⟨out, s', hr, R⟩ := I.myReallocLocked_blocks o h0 hmax
  exact ⟨out, s', hr, R.toReallocResult⟩

end Heap

end MemoryMonitor
