import MemoryMonitor.HeapInv

/-! # `my_free`

The checks of `my_free` and `my_realloc` pass on every live pointer, and the
critical section of `my_free` takes the invariant to the invariant without that
allocation.  Nothing else the client or the host owns is touched.
-/
namespace MemoryMonitor

open ByteMemory Tiling LinkedChain Coalescing

variable {shared : Prop} {s : State} {live rest : List Alloc} {e : Alloc} {lo a n t : Nat}
variable {segs : List Seg} {lists : Fin 8 → List Nat}

/-- The block of a live allocation may be dereferenced. -/
theorem Layout.held_accessible (L : Layout shared s lo segs lists) (h : Held s segs e a n t)
    {b k : Nat} (hb : a ≤ b) (hk : b + k ≤ a + n) : s.Accessible b k := by
  rcases h.place with ⟨-, hg⟩ | ⟨-, hmp, -⟩
  · exact L.rep.accessible hg hb hk
  · exact Or.inr ⟨_, hmp, hb, hk⟩

/-- **Every check passes on a live pointer.** -/
theorem Layout.validateBlock (L : Layout shared s lo segs lists) (h : Held s segs e a n t)
    (caller : String) : validateBlock s a caller = .ok () := by
  have hF := h.formed
  have hge := hF.size_ge
  have hbounds : checkBounds s a caller = .ok () := by
    unfold checkBounds
    rw [hF.mmap_eq, hF.size_eq]
    rcases h.place with ⟨ht, hg⟩ | ⟨ht, hmp, hn⟩
    · have hb := L.rep.tiles.bounds hg
      have hst := L.rep.heapStart_eq hg
      have hlo := L.rep.lo_pos
      simp only at hb
      rw [if_pos ht]
      exact check_pos ⟨by omega, L.rep.brk_ne_ptrFailed, by omega, by omega, by omega⟩
    · have hp := (L.kernel.placed _ hmp).2.2.2.1
      unfold addrLimit at hp
      simp only at hp
      rw [if_neg (by omega)]
      exact check_pos ⟨by omega, hn⟩
  unfold MemoryMonitor.validateBlock
  rw [State.deref_pos (L.held_accessible h (by omega) (by omega)), ok_bind, check_pos hF.magic,
    ok_bind, hF.size_eq, check_pos (by omega), ok_bind, hbounds, ok_bind]
  simp only
  rw [State.deref_pos (L.held_accessible h (by omega) (by omega)), ok_bind,
    check_pos ⟨hF.footer_magic, hF.footer_size⟩, ok_bind, check_pos hF.free_eq]

/-- The counters after a request of `k` bytes is given back. -/
theorem balance_free {A F k : Nat} (h : A ≡ F + liveBytes (e :: rest) [MOD 2 ^ 64])
    (hk : k = e.size) : A ≡ addSize F k + liveBytes rest [MOD 2 ^ 64] := by
  have h1 : liveBytes (e :: rest) = e.size + liveBytes rest := by
    simp [liveBytes]
  have h2 := (addSize_modEq F k).add_right (liveBytes rest)
  rw [h1, ← Nat.add_assoc, ← hk] at h
  exact h.trans h2.symm

/-- The heap after an edit that ends with no work spans: live allocations in blocks
that were not open are kept. -/
theorem Layout.heap_of_edit {s' : State} {segs' : List Seg} {lists' : Fin 8 → List Nat}
    (L : Layout shared s lo segs lists) (E : Edit s s' lo segs segs' lists')
    (hset : ∀ g ∈ segs', g.kind ≠ .work) (hheld : ∀ e ∈ live, ∃ a n t, Held s segs e a n t)
    (hnd : (live.map Alloc.ptr).Nodup)
    (hbal : s.stats.totalAllocated ≡ s.stats.totalFreed + liveBytes live [MOD 2 ^ 64]) :
    Heap shared s' live lo segs' lists' ∧ Untouched s live s' := by
  have K := L.keeps E
  have hst : s'.stats = s.stats := by rw [E.same]
  refine ⟨⟨L.of_edit E, hset, ?_, hnd, by rw [hst]; exact hbal⟩, ?_, fun x hx => (K.host x hx).2⟩
  · intro e he
    obtain ⟨a, n, t, h⟩ := hheld e he
    exact ⟨a, n, t, h.keeps K⟩
  · intro e he
    obtain ⟨a, n, t, h⟩ := hheld e he
    exact h.payload_eqOn K

/-- The allocations other than `e` sit in other blocks. -/
theorem Heap.rest_held (I : Heap shared s (e :: rest) lo segs lists) (h : Held s segs e a n t) :
    ∀ e' ∈ rest, ∃ a' n' t', Held s segs e' a' n' t' ∧ a' ≠ a := by
  intro e' he'
  obtain ⟨a', n', t', h'⟩ := I.held e' (List.mem_cons_of_mem _ he')
  exact ⟨a', n', t', h', I.block_ne h he' h'⟩

theorem Heap.rest_nodup (I : Heap shared s (e :: rest) lo segs lists) :
    (rest.map Alloc.ptr).Nodup := by
  have := I.nodup
  rw [List.map_cons, List.nodup_cons] at this
  exact this.2

/-- The counters after a request of `k` bytes was given back. -/
def Stats.free (st : Stats) (k : Nat) : Stats := { st with totalFreed := addSize st.totalFreed k }

/-- **`my_free` of a block of the heap**: it is joined with the free blocks around it and
put on a list. -/
theorem Heap.freeHeap {pre post : List Seg}
    (I : Heap shared s (e :: rest) lo (pre ++ ⟨a, n, .used⟩ :: post) lists)
    (h : Held s (pre ++ ⟨a, n, .used⟩ :: post) e a n 0) :
    ∃ s' segs' lists', myFreeLocked s e.ptr = .ok (none, s') ∧
      Heap shared s' rest lo segs' lists' ∧ Untouched s rest s' ∧ MapsKept s e.ptr s' ∧
      s'.maps = s.maps ∧ s'.stats = s.stats.free e.size ∧
      (Spaced (· = .free) (pre ++ ⟨a, n, .used⟩ :: post) →
        segs' = merge (· = .free) (pre ++ ⟨a, n, .free⟩ :: post)) := by
  have hF := h.formed
  have hset := (forall_mid.mp I.settled).2
  unfold MemoryMonitor.myFreeLocked
  rw [if_neg (by rw [h.ptr_eq]; omega), h.ptr_eq]
  simp only [Nat.add_sub_cancel]
  rw [I.validateBlock h, ok_bind, hF.mmap_eq, h.requested, if_neg (by decide)]
  -- the counter changes first, then the block is opened
  have L₀ : Layout shared { s with stats := s.stats.free e.size } lo (pre ++ ⟨a, n, .used⟩ :: post)
      lists := I.toLayout.of_fields rfl rfl rfl rfl rfl rfl rfl rfl rfl
  have L₁ := L₀.open_used
  have E₁ := (Edit.refl L₁.rep).write_span (a := a) (n := n) (w := setIsFree s.mem a 1) (by simp) (by
    intro x hx
    have := hF.size_ge
    rw [Set.mem_compl_iff, mem_range] at hx
    exact writeLE_of_disjoint (by omega))
  obtain ⟨s₂, n₂, post₂, lists₂, hr₂, E₂, hF₂, hset₂, hnext⟩ :=
    E₁.coalesceNext L₁.blank (hF.set_isFree (by decide)) hset
  obtain ⟨s₃, a₃, n₃, f₃, pre₃, lists₃, hr₃, E₃, hF₃, hset₃, hprev⟩ :=
    E₂.coalescePrev L₁.blank hF₂ hset₂
  obtain ⟨s₄, lists₄, hr₄, E₄, -⟩ := E₃.insert hF₃
  obtain ⟨I₄, U⟩ : Heap shared s₄ rest lo _ lists₄ ∧ Untouched _ rest s₄ := L₁.heap_of_edit E₄
    (forall_mid.mpr ⟨by simp, hset₃⟩)
    (by
      intro e' he'
      obtain ⟨a', n', t', h', hne⟩ := I.rest_held h e' he'
      have h'' := h'.open_used hne
      exact ⟨a', n', t', h''.ptr_eq, h''.room, h''.formed, h''.requested, h''.place⟩)
    I.rest_nodup (balance_free I.balance rfl)
  refine ⟨s₄, _, lists₄, ?_, I₄, ⟨U.payload, U.host⟩, (L₁.keeps E₄).mapsKept _, by rw [E₄.same],
    by rw [E₄.same], ?_⟩
  · simp only [Stats.free] at hr₂
    rw [hr₂, ok_bind, hr₃, ok_bind, hr₄, ok_bind]
  · intro hsp
    obtain ⟨hpre, hpost, -, -⟩ := spaced_mid.mp hsp
    refine (merge_mid (P := fun k => k = Kind.free) (m := n₂) rfl hpre hpost ?_ ?_).symm
    · rcases hnext with ⟨k, s₁, hp, hn, -⟩ | ⟨hp, hn, -, hhead⟩
      · exact Or.inl ⟨_, k, hp, hn⟩
      · exact Or.inr ⟨hp, hn, hhead⟩
    · rcases hprev with ⟨k, s₁, hp, hn, -⟩ | ⟨hp, ha, hn, -, hlast⟩
      · exact Or.inl ⟨k, hp, hn⟩
      · exact Or.inr ⟨hp, ha, hn, hlast⟩

/-- **`my_free` of a mapped block** leaves the mapping to be unmapped. -/
theorem Heap.freeMapped (I : Heap shared s (e :: rest) lo segs lists) (h : Held s segs e a n 1) :
    myFreeLocked s e.ptr = .ok (some ⟨a, n⟩, { s with stats := s.stats.free e.size }) ∧
      Heap shared { s with stats := s.stats.free e.size } rest lo segs lists := by
  have hF := h.formed
  refine ⟨?_, ?_⟩
  · unfold MemoryMonitor.myFreeLocked
    rw [if_neg (by rw [h.ptr_eq]; omega), h.ptr_eq]
    simp only [Nat.add_sub_cancel]
    rw [I.validateBlock h, ok_bind, hF.mmap_eq, hF.size_eq, h.requested, if_pos (by decide)]
    rfl
  · refine ⟨I.toLayout.of_fields rfl rfl rfl rfl rfl rfl rfl rfl rfl, I.settled, ?_, I.rest_nodup,
      balance_free I.balance rfl⟩
    intro e' he'
    obtain ⟨a', n', t', h', -⟩ := I.rest_held h e' he'
    exact ⟨a', n', t', h'.ptr_eq, h'.room, h'.formed, h'.requested, h'.place⟩

/-- What the critical section of `my_free` does on a live pointer. -/
theorem Heap.myFreeLocked (I : Heap shared s (e :: rest) lo segs lists) :
    ∃ out s', myFreeLocked s e.ptr = .ok (out, s') ∧ Inv shared s' rest ∧ Untouched s rest s' ∧
      MapsKept s e.ptr s' ∧ s'.maps = s.maps ∧
      ∀ mp, out = some mp → mp ∈ s.maps ∧ e.ptr = mp.addr + 48 := by
  obtain ⟨a, n, t, h⟩ := I.held e (List.mem_cons_self ..)
  rcases h.place with ⟨rfl, hg⟩ | ⟨rfl, hmp, -⟩
  · obtain ⟨pre, post, rfl⟩ := List.append_of_mem hg
    obtain ⟨s', segs', lists', hr, I', U, hkept, hmaps, -⟩ := I.freeHeap h
    exact ⟨none, s', hr, ⟨lo, segs', lists', I'⟩, U, hkept, hmaps, by simp⟩
  · obtain ⟨hr, I'⟩ := I.freeMapped h
    refine ⟨_, _, hr, ⟨lo, segs, lists, I'⟩, ⟨fun _ _ _ _ => rfl, fun _ _ => rfl⟩,
      fun _ _ _ _ _ => rfl, rfl, ?_⟩
    intro mp hmp'
    obtain rfl := Option.some.inj hmp'
    exact ⟨hmp, h.ptr_eq⟩

end MemoryMonitor
