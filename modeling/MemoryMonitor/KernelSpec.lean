import MemoryMonitor.FreeSpec

/-! # What the system calls do to the heap

`sbrk` appends a span to the tiling: a work span when the allocator extends its
heap, a gap when it pads the break or when someone else moves it.  `mmap`, `munmap`
and `mremap` act outside the break area.  Each result says that the layout holds
again and that everything the client and the host own is kept.
-/
namespace MemoryMonitor

open ByteMemory Tiling LinkedChain

variable {shared : Prop} {s s' : State} {lo n : Nat} {segs tail : List Seg}
variable {lists : Fin 8 → List Nat}

/-- **The representation grows at its end**: new spans that hold no block yet, over
a memory that agrees with the old one on the old heap. -/
theorem HeapRep.extend (H : HeapRep s lo segs lists)
    (hm : ∀ x, lo ≤ x → x < s.brk → s'.mem x = s.mem x) (hh : s'.heads = s.heads)
    (hs : s'.heapStart = s.heapStart) (hf : s'.brkFloor = s.brkFloor)
    (ht : Tiles s.brk tail s'.brk) (hk : ∀ g ∈ tail, g.kind = .gap ∨ g.kind = .work)
    (hlim : s'.brk ≤ addrLimit) (hst : tail = [] ∨ s.heapStart ≠ 0) :
    HeapRep s' lo (segs ++ tail) lists := by
  have hin : ∀ g ∈ segs, Set.EqOn s'.mem s.mem g.bytes := by
    intro g hg x hx
    have hb := H.tiles.bounds hg
    rw [Span.mem_bytes] at hx
    exact hm x (by omega) (by omega)
  have hnew : ∀ g ∈ tail, g.kind ≠ .used ∧ g.kind ≠ .free := by
    intro g hg
    rcases hk g hg with h | h <;> rw [h] <;> decide
  refine ⟨tiles_append.mpr ⟨_, H.tiles, ht⟩, H.lo_pos, by rw [hf]; exact H.floor, hlim, ?_, ?_, ?_,
    ?_, H.nodup, ?_⟩
  · rw [hs]
    rcases H.start with h | ⟨h, rfl⟩
    · exact Or.inl h
    · rcases hst with rfl | hst
      · exact Or.inr ⟨h, rfl⟩
      · exact absurd h hst
  · intro g hg hgk
    rcases List.mem_append.mp hg with hg | hg
    · have hF := H.used g hg hgk
      exact hF.congr ((hin g hg).mono (core_subset hF.size_ge))
    · exact absurd hgk (hnew g hg).1
  · intro g hg hgk
    rcases List.mem_append.mp hg with hg | hg
    · have hF := H.free g hg hgk
      exact hF.congr ((hin g hg).mono (core_subset hF.size_ge))
    · exact absurd hgk (hnew g hg).2
  · intro i
    rw [hh]
    refine (H.chain i).congr fun a ha => ?_
    obtain ⟨k, hkm, -⟩ := H.node ha
    have h80 := (H.free _ hkm rfl).size_ge
    simp only at h80
    exact ⟨readLE_of_eqOn (hin _ hkm) (range_subset (by simp) (by simp only; omega)),
      readLE_of_eqOn (hin _ hkm) (range_subset (by simp) (by simp only; omega))⟩
  · intro i a
    rw [H.listed i a]
    constructor
    · rintro ⟨g, hg, h⟩
      exact ⟨g, List.mem_append_left _ hg, h⟩
    · rintro ⟨g, hg, hgk, h⟩
      rcases List.mem_append.mp hg with hg | hg
      · exact ⟨g, hg, hgk, h⟩
      · exact absurd hgk (hnew g hg).2

/-- Changes outside the break area do not matter to the layout. -/
theorem Layout.outside (L : Layout shared s lo segs lists)
    (hm : ∀ x, s.brkFloor ≤ x → x < s.brk → s'.mem x = s.mem x) (h2 : s'.heads = s.heads)
    (h3 : s'.heapStart = s.heapStart) (h4 : s'.initialBreak = s.initialBreak)
    (h5 : s'.brkFloor = s.brkFloor) (h6 : s'.brk = s.brk) (h7 : s'.brkPeak = s.brkPeak)
    (h9 : s'.hostOwned = s.hostOwned) (K : KernelOk s') : Layout shared s' lo segs lists := by
  have hfl := L.rep.floor
  have hrep : HeapRep s' lo (segs ++ []) lists :=
    L.rep.extend (fun x h _ => hm x (by omega) (by omega)) h2 h3 h5 (by rw [h6]; rfl) (by simp)
      (by rw [h6]; exact L.rep.limit) (Or.inl rfl)
  rw [List.append_nil] at hrep
  refine ⟨hrep, by rw [h3, h4]; exact L.init, ⟨?_, ?_, ?_⟩, K, ?_, ?_, L.gapped, ?_,
    by rw [h3]; exact L.start_aligned⟩
  · intro g hg hk x hx
    have hb := L.rep.tiles.bounds hg
    have hxb := Span.mem_bytes.mp hx
    rw [h9, hm x (by omega) (by omega)]
    exact L.blank.gap g hg hk x hx
  · rw [h9]; exact L.blank.own
  · intro a ha
    rw [h9] at ha
    have hsame : readLE s'.mem a 4 = readLE s.mem a 4 := by
      refine readLE_congr fun x h1 h2 => ?_
      have h3 := L.host_lt (a + (x - a)) (ha (x - a) (by omega))
      exact hm x (by omega) (by omega)
    rw [hsame]
    exact L.blank.clean a ha
  · rw [h5, h6, h9]; exact L.host_lt
  · rw [h6, h7]; exact L.fresh
  · rw [h3, h6]; exact L.unaligned

/-! ## `sbrk` -/

/-- What a granted `sbrk` returns, and the conditions under which it is granted. -/
theorem sbrk_some {o : Oracle} {host : Bool} {b : Nat} (h : s.sbrk o n host = some (b, s')) :
    b = s.brk ∧ s.brk + n ≤ addrLimit ∧ (∀ mp ∈ s.maps, Apart mp.addr mp.len s.brk n) ∧
      s' = { s with
        mem := overwrite s.mem s.brk n (s.uncovered o)
        brk := s.brk + n
        brkPeak := max s.brkPeak (s.brk + n)
        hostOwned := fun x => if s.brk ≤ x ∧ x < s.brk + n then host else s.hostOwned x } := by
  unfold State.sbrk at h
  split at h
  · rename_i hc
    simp only [Option.some.injEq, Prod.mk.injEq] at h
    exact ⟨h.1.symm, hc.2.1, hc.2.2, h.2.symm⟩
  · cases h

/-- The kernel's side of a granted `sbrk`. -/
theorem KernelOk.sbrk {o : Oracle} {host : Bool} {b : Nat} (K : KernelOk s)
    (h : s.sbrk o n host = some (b, s')) : KernelOk s' := by
  obtain ⟨-, hlim, hap, rfl⟩ := sbrk_some h
  have hfl := K.floor_le
  refine ⟨K.floor_pos, by simp only; omega, le_max_right _ _, hlim, ?_, K.apart⟩
  intro mp hmp
  obtain ⟨h1, h2, h3, h4, h5⟩ := K.placed mp hmp
  have h6 := hap mp hmp
  unfold Apart at h6
  refine ⟨h1, h2, h3, h4, ?_⟩
  simp only
  omega

/-- What a granted `sbrk` leaves alone. -/
theorem Layout.sbrk_keeps {o : Oracle} {host : Bool} {b : Nat} (L : Layout shared s lo segs lists)
    (h : s.sbrk o n host = some (b, s')) (tail : List Seg) : Keeps s segs s' (segs ++ tail) := by
  obtain ⟨-, -, hap, rfl⟩ := sbrk_some h
  refine ⟨?_, ?_, ?_⟩
  · intro g hg _
    refine ⟨List.mem_append_left _ hg, fun x hx => ?_⟩
    have hb := L.rep.tiles.bounds hg
    rw [Span.mem_bytes] at hx
    exact overwrite_of_disjoint (by omega)
  · intro mp hmp
    refine ⟨hmp, fun x hx => ?_⟩
    have h6 := hap mp hmp
    unfold Apart at h6
    rw [mem_range] at hx
    exact overwrite_of_disjoint (by omega)
  · intro x hx
    have hlt := (L.host_lt x hx).2
    refine ⟨?_, overwrite_of_disjoint (by omega)⟩
    simp only
    rw [if_neg (by omega)]
    exact hx

/-- No magic value appears in the host's bytes when the break grows: what it uncovers
for the host is zero. -/
theorem Layout.sbrk_clean {o : Oracle} {host : Bool} {b : Nat} (L : Layout shared s lo segs lists)
    (h : s.sbrk o n host = some (b, s')) (hz : host = true → s.brkPeak = s.brk) {a : Nat}
    (ha : ∀ i, i < 4 → s'.hostOwned (a + i) = true) :
    readLE s'.mem a 4 ≠ allocMagicHeader ∧ readLE s'.mem a 4 ≠ allocMagicFooter := by
  obtain ⟨-, -, -, rfl⟩ := sbrk_some h
  simp only at ha ⊢
  by_cases hnew : ∃ i, i < 4 ∧ s.brk ≤ a + i ∧ a + i < s.brk + n
  · obtain ⟨i, hi, h1, h2⟩ := hnew
    have hhost := ha i hi
    rw [if_pos ⟨h1, h2⟩] at hhost
    have hzero : ∃ x, a ≤ x ∧ x < a + 4 ∧ overwrite s.mem s.brk n (s.uncovered o) x = 0 := by
      refine ⟨a + i, by omega, by omega, ?_⟩
      have hp := hz hhost
      rw [overwrite_of_mem ⟨h1, h2⟩, State.uncovered, if_neg (by omega)]
    exact ⟨readLE_ne_of_zero (by decide) hzero, readLE_ne_of_zero (by decide) hzero⟩
  · simp only [not_exists, not_and, not_lt] at hnew
    have hold : ∀ i, i < 4 → s.hostOwned (a + i) = true := by
      intro i hi
      have := ha i hi
      have := hnew i hi
      rwa [if_neg (by omega)] at *
    have hsame : readLE (overwrite s.mem s.brk n (s.uncovered o)) a 4 = readLE s.mem a 4 := by
      refine readLE_congr fun x h1 h2 => overwrite_of_disjoint ?_
      have := (L.host_lt _ (hold (x - a) (by omega))).2
      omega
    rw [hsame]
    exact L.blank.clean a hold

/-- **`sbrk` appends a span to a heap that has begun**: a work span for the
allocator, a gap for the host or for padding. -/
theorem Layout.sbrk {o : Oracle} {host : Bool} {b : Nat} {k : Kind}
    (L : Layout shared s lo segs lists) (h : s.sbrk o n host = some (b, s')) (hn : 0 < n)
    (hst : s.heapStart ≠ 0) (hk : k = .gap ∧ s.brkPeak = s.brk ∧ shared ∨ k = .work ∧ host = false)
    (hfresh : (s.brk + n) % 16 ≠ 0 → s.brkPeak = s.brk)
    (hun : (s.brk + n) % 16 ≠ 0 → shared) :
    Layout shared s' lo (segs ++ [⟨s.brk, n, k⟩]) lists ∧
      Keeps s segs s' (segs ++ [⟨s.brk, n, k⟩]) := by
  have hclean := fun a => L.sbrk_clean (a := a) h (by
    intro hh
    rcases hk with ⟨-, h', -⟩ | ⟨-, h'⟩
    · exact h'
    · rw [h'] at hh
      cases hh)
  have hK := L.kernel.sbrk h
  refine ⟨?_, L.sbrk_keeps h _⟩
  obtain ⟨-, hlim, -, rfl⟩ := sbrk_some h
  have hle := L.rep.tiles.le
  refine ⟨?_, L.init, ⟨?_, ?_, hclean⟩, hK, ?_, ?_, ?_, fun _ => hun, L.start_aligned⟩
  · refine L.rep.extend (fun x _ hx => overwrite_of_disjoint (by omega)) rfl rfl rfl ?_ ?_ hlim
      (Or.inr hst)
    · simpa using hn
    · rcases hk with ⟨rfl, -⟩ | ⟨rfl, -⟩ <;> simp
  · intro g hg hgk x hx
    rcases List.mem_append.mp hg with hg | hg
    · have hb := L.rep.tiles.bounds hg
      have hxb := Span.mem_bytes.mp hx
      simp only
      rw [if_neg (by omega), overwrite_of_disjoint (by omega)]
      exact L.blank.gap g hg hgk x hx
    · rw [List.mem_singleton] at hg
      subst hg
      have hxb := Span.mem_bytes.mp hx
      simp only at hgk hxb
      right
      rcases hk with ⟨-, hp, -⟩ | ⟨rfl, -⟩
      · simp only
        rw [overwrite_of_mem hxb, State.uncovered, if_neg (by omega)]
      · cases hgk
  · intro g hg hgk x hx
    rcases List.mem_append.mp hg with hg | hg
    · have hb := L.rep.tiles.bounds hg
      have hxb := Span.mem_bytes.mp hx
      simp only
      rw [if_neg (by omega)]
      exact L.blank.own g hg hgk x hx
    · rw [List.mem_singleton] at hg
      subst hg
      have hxb := Span.mem_bytes.mp hx
      simp only at hgk hxb ⊢
      rw [if_pos hxb]
      rcases hk with ⟨rfl, -⟩ | ⟨-, hh⟩
      · exact absurd rfl hgk
      · exact hh
  · intro x hx
    simp only at hx ⊢
    have hfl := L.kernel.floor_le
    by_cases hin : s.brk ≤ x ∧ x < s.brk + n
    · omega
    · rw [if_neg hin] at hx
      have := L.host_lt x hx
      omega
  · intro hu
    simp only at hu ⊢
    have := hfresh hu
    omega
  · intro g hg hgk
    rcases List.mem_append.mp hg with hg | hg
    · exact L.gapped g hg hgk
    · rw [List.mem_singleton] at hg
      subst hg
      rcases hk with ⟨-, -, hsh⟩ | ⟨rfl, -⟩
      · exact hsh
      · cases hgk

/-- Before the heap has begun, `sbrk` only moves the place where it will begin. -/
theorem Layout.sbrk_before {o : Oracle} {host : Bool} {b : Nat} (L : Layout shared s lo segs lists)
    (h : s.sbrk o n host = some (b, s')) (hst : s.heapStart = 0)
    (hz : host = true → s.brkPeak = s.brk)
    (hfresh : (s.brk + n) % 16 ≠ 0 → s.brkPeak = s.brk) :
    segs = [] ∧ Layout shared s' (s.brk + n) [] lists ∧ Keeps s segs s' [] := by
  have hseg : segs = [] := by
    rcases L.rep.start with h' | ⟨-, h'⟩
    · have := L.rep.lo_pos
      omega
    · exact h'
  subst hseg
  have hlo : lo = s.brk := L.rep.tiles
  have hclean := fun a => L.sbrk_clean (a := a) h hz
  have hK := L.kernel.sbrk h
  refine ⟨rfl, ?_, L.sbrk_keeps h []⟩
  obtain ⟨-, hlim, -, rfl⟩ := sbrk_some h
  have hpos := L.rep.lo_pos
  have hfl := L.rep.floor
  refine ⟨⟨rfl, by omega, by simp only; omega, hlim, Or.inr ⟨hst, rfl⟩, by simp, by simp, ?_,
    L.rep.nodup, L.rep.listed⟩, L.init, ⟨by simp, by simp, hclean⟩, hK, ?_, ?_, by simp,
    fun h => absurd hst h, L.start_aligned⟩
  · intro i
    refine (L.rep.chain i).congr fun a ha => ?_
    obtain ⟨g, hg, -⟩ := (L.rep.listed i a).mp ha
    cases hg
  · intro x hx
    simp only at hx ⊢
    have hfl := L.kernel.floor_le
    by_cases hin : s.brk ≤ x ∧ x < s.brk + n
    · omega
    · rw [if_neg hin] at hx
      have := L.host_lt x hx
      omega
  · intro hu
    simp only at hu ⊢
    have := hfresh hu
    omega

/-! ## Mappings -/

/-- **A new mapping**, and stores into it, do not concern the heap. -/
theorem Layout.map_new (L : Layout shared s lo segs lists) (a len : Nat) {m' : Mem}
    (hp : s.Placeable s.maps a len) (hm : Set.EqOn m' s.mem (range a len)ᶜ) :
    Layout shared { s with mem := m', maps := ⟨a, len⟩ :: s.maps } lo segs lists ∧
      Keeps s segs { s with mem := m', maps := ⟨a, len⟩ :: s.maps } segs := by
  obtain ⟨h1, h2, h3, h4, h5, h6⟩ := hp
  have hout : ∀ x, s.brkFloor ≤ x → x < s.brk → m' x = s.mem x := by
    intro x hx hx'
    refine hm ?_
    rw [Set.mem_compl_iff, mem_range]
    omega
  refine ⟨L.outside hout rfl rfl rfl rfl rfl rfl rfl ?_, ?_, ?_, ?_⟩
  · refine ⟨L.kernel.floor_pos, L.kernel.floor_le, L.kernel.peak, L.kernel.limit, ?_, ?_⟩
    · intro mp hmp
      rcases List.mem_cons.mp hmp with rfl | hmp
      · exact ⟨h1, h2, h3, h4, h5⟩
      · exact L.kernel.placed mp hmp
    · exact List.pairwise_cons.mpr ⟨fun mp hmp => Or.symm (h6 mp hmp), L.kernel.apart⟩
  · intro g hg _
    refine ⟨hg, fun x hx => ?_⟩
    have hb := L.rep.tiles.bounds hg
    have hfl := L.rep.floor
    rw [Span.mem_bytes] at hx
    exact hout x (by omega) (by omega)
  · intro mp hmp
    refine ⟨List.mem_cons_of_mem _ hmp, fun x hx => hm ?_⟩
    have := h6 mp hmp
    unfold Apart at this
    rw [mem_range] at hx
    rw [Set.mem_compl_iff, mem_range]
    omega
  · intro x hx
    have := L.host_lt x hx
    exact ⟨hx, hout x this.1 this.2⟩

/-- Taking a mapping away does not concern the heap. -/
theorem Layout.unmap (L : Layout shared s lo segs lists) (old : Nat) :
    Layout shared { s with maps := s.maps.filter fun mp => mp.addr ≠ old } lo segs lists := by
  refine L.outside (fun _ _ _ => rfl) rfl rfl rfl rfl rfl rfl rfl ?_
  exact ⟨L.kernel.floor_pos, L.kernel.floor_le, L.kernel.peak, L.kernel.limit,
    fun mp hmp => L.kernel.placed mp (List.mem_of_mem_filter hmp), L.kernel.apart.filter _⟩

/-- An allocation elsewhere survives the unmapping. -/
theorem Held.unmap {e : Alloc} {a k t : Nat} (h : Held s segs e a k t) {old : Nat}
    (hne : t = 1 → a ≠ old) :
    Held { s with maps := s.maps.filter fun mp => mp.addr ≠ old } segs e a k t := by
  refine ⟨h.ptr_eq, h.room, h.formed, h.requested, ?_⟩
  rcases h.place with hg | ⟨ht, hmp, hn⟩
  · exact Or.inl hg
  · exact Or.inr ⟨ht, List.mem_filter.mpr ⟨hmp, by simpa using hne ht⟩, hn⟩

/-- A mapping that no live allocation sits in is taken away. -/
theorem Heap.unmap {live : List Alloc} (I : Heap shared s live lo segs lists) (addr : Nat)
    (h : ∀ e ∈ live, e.ptr ≠ addr + 48) :
    Heap shared { s with maps := s.maps.filter fun mp => mp.addr ≠ addr } live lo segs lists := by
  refine ⟨I.toLayout.unmap addr, I.settled, ?_, I.nodup, I.balance⟩
  intro e he
  obtain ⟨a, n, k, hh⟩ := I.held e he
  refine ⟨a, n, k, hh.unmap fun _ ha => h e he ?_⟩
  rw [hh.ptr_eq, ha]

/-- A new mapping begins where no other does. -/
theorem Layout.placeable_ne (L : Layout shared s lo segs lists) {a len : Nat}
    (hp : s.Placeable s.maps a len) {mp : Mapping} (h : mp ∈ s.maps) : mp.addr ≠ a := by
  intro he
  have h1 := hp.2.2.2.2.2 mp h
  have h2 := (L.kernel.placed mp h).2.2.1
  have h3 := hp.2.2.1
  unfold Apart at h1
  omega

end MemoryMonitor
